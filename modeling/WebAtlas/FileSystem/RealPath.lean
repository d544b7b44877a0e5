import WebAtlas.Fault

/-! # Real paths

The path without links that a path stands for. Segments that lead nowhere are kept as written, so
the answer exists for every path. A link met while its own target is being read stops the walk: the
path so far, that link and all that was still ahead are then the answer.
-/
namespace WebAtlas.FileSystem

/-- One step towards the root, before anything is known about links above a relative path. -/
def stepUp (p : Path) : Path :=
  if p.isAbsolute then p.parent
  else if p.segments.getLast?.all (· == "..") then p.child ".."
  else p.parent

def withRest (p : Path) (rest : List String) : Path := p.join (Path.parse ("/".intercalate rest))

/-- Goes along pieces from a path free of links; `enter` gives the path that a link stands for. An
error carries the path at which the walk stopped. -/
def realAlong (fs : FileSystem) (enter : Path → Path → String → Except Path Path) :
    Path → List String → Except Path Path
  | p, [] => .ok p
  | p, piece :: rest =>
    if Path.isVoid piece then realAlong fs enter p rest
    else if piece = ".." then realAlong fs enter (stepUp p) rest
    else match fs.linkTarget? (p.child piece) with
      | none => realAlong fs enter (p.child piece) rest
      | some target =>
        match enter p (p.child piece) target with
        | .ok real => realAlong fs enter real rest
        | .error stopped => .error (withRest stopped rest)

/-- The path of a link's target, read from the directory `dir` of the link. `pending` holds the links
whose targets are being read, and `depth` bounds how many there may be. -/
def realTarget (fs : FileSystem) : Nat → List Path → Path → Path → String → Except Path Path
  | 0, _, _, link, _ => .error link
  | depth + 1, pending, dir, link, target =>
    if link ∈ pending then .error link
    else realAlong fs (realTarget fs depth (link :: pending))
      (if (Path.parse target).isAbsolute then ⟨.root, []⟩ else dir) (Path.pieces target)

def linkCount (fs : FileSystem) : Nat := fs.entries.countP (·.2.isLink)

/-- Enough for every chain of distinct links, each written from the root or from a directory between
the root and the working directory. -/
def linkDepth (fs : FileSystem) : Nat := fs.linkCount * (fs.workingDirectory.length + 3) + 1

def realPath (fs : FileSystem) (p : Path) : Path :=
  match realAlong fs (realTarget fs fs.linkDepth []) ⟨if p.isAbsolute then .root else .relative, []⟩
      p.segments with
  | .ok real => real.absolute fs.workingDirectory
  | .error stopped => stopped.absolute fs.workingDirectory

/-- The real path of `p`. It is a fault when looking it up follows too many links, and when a null
byte keeps `p` from being looked up at all. -/
def resolve (fs : FileSystem) (p : Path) : Except Fault Path :=
  if p.segments.any Path.holdsNull then .error .nullByte
  else match fs.status (fs.realPath p) with
    | .error .tooManyLinks => .error (.linkLoop (fs.realPath p))
    | _ => .ok (fs.realPath p)

end WebAtlas.FileSystem
