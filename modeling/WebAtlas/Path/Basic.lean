import WebAtlas.Text.Scan

/-! # Paths

A path as written: where it starts and its segments, without empty ones and single dots. Nothing
here looks at a disk, so `..` stays a segment until a path is normalised. Exactly two leading
slashes are an anchor of their own, as POSIX allows.
-/
namespace WebAtlas

inductive Anchor
  | relative
  | root
  | doubleRoot
deriving DecidableEq, Repr

def Anchor.text : Anchor → String
  | .relative => ""
  | .root => "/"
  | .doubleRoot => "//"

def Anchor.ofChars : List Char → Anchor
  | '/' :: '/' :: '/' :: _ => .root
  | '/' :: '/' :: _ => .doubleRoot
  | '/' :: _ => .root
  | _ => .relative

structure Path where
  anchor : Anchor
  segments : List String
deriving DecidableEq, Repr

namespace Path

/-- A piece of text between slashes that names nothing. -/
def isVoid (piece : String) : Bool := piece == "" || piece == "."

/-- Whether a piece holds a null byte, which no system call takes. -/
def holdsNull (piece : String) : Bool := piece.toList.contains '\x00'

def pieces (text : String) : List String := Text.splitOn '/' text

def parse (text : String) : Path :=
  ⟨Anchor.ofChars text.toList, (pieces text).filter (!isVoid ·)⟩

def text (p : Path) : String :=
  if p.anchor = .relative ∧ p.segments = [] then "." else p.anchor.text ++ "/".intercalate p.segments

def isAbsolute (p : Path) : Bool := p.anchor != .relative

/-- Follows `p` by `q`; an absolute `q` replaces what stands before it. -/
def join (p q : Path) : Path := if q.isAbsolute then q else ⟨p.anchor, p.segments ++ q.segments⟩

def child (p : Path) (segment : String) : Path := ⟨p.anchor, p.segments ++ [segment]⟩

def descend (p : Path) (segments : List String) : Path := ⟨p.anchor, p.segments ++ segments⟩

def parent (p : Path) : Path := ⟨p.anchor, p.segments.dropLast⟩

def name (p : Path) : String := p.segments.getLast?.getD ""

/-- Cuts a file name before its last dot. A dot at either end of the name cuts nothing. -/
def splitName (name : String) : String × String :=
  let tail := name.toList.reverse.takeWhile (· ≠ '.')
  match name.toList.reverse.dropWhile (· ≠ '.') with
  | '.' :: front =>
    if front.isEmpty || tail.isEmpty then (name, "")
    else (String.ofList front.reverse, String.ofList ('.' :: tail.reverse))
  | _ => (name, "")

def stem (p : Path) : String := (splitName p.name).1

def extension (p : Path) : String := (splitName p.name).2

def append (p : Path) (ending : String) : Path := parse (p.text ++ ending)

/-- One segment onto a stack of segments, the innermost first. Above a root `..` has no effect. -/
def push (rooted : Bool) (stack : List String) (segment : String) : List String :=
  if segment ≠ ".." then segment :: stack
  else match stack with
    | [] => if rooted then [] else [".."]
    | top :: below => if top = ".." then ".." :: stack else below

def normalize (p : Path) : Path :=
  ⟨p.anchor, (p.segments.foldl (push p.isAbsolute) []).reverse⟩

/-- The absolute normalised path, a relative one being read from the directory `origin`. -/
def absolute (origin : List String) (p : Path) : Path :=
  (join ⟨.root, origin⟩ p).normalize

def stepsBetween : List String → List String → List String
  | [], target => target
  | origin, [] => origin.map fun _ => ".."
  | o :: origin, t :: target =>
    if o = t then stepsBetween origin target
    else (o :: origin).map (fun _ => "..") ++ t :: target

/-- The relative path that leads from the directory `root` to `file`, both taken as absolute. -/
def relativeTo (root file : Path) : Path := ⟨.relative, stepsBetween root.segments file.segments⟩

def isBelow (root p : Path) : Bool :=
  p.anchor == root.anchor && root.segments.isPrefixOf p.segments &&
    root.segments.length < p.segments.length

end Path

end WebAtlas
