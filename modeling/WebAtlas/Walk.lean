import WebAtlas.FileSystem.Basic
import WebAtlas.Settings.Basic
import WebAtlas.Source.Kind
import WebAtlas.Fault
import WebAtlas.Log

/-! # Walking a directory tree

A walk lists the files below a directory, each directory's own files before those of its
subdirectories, both in name order. It follows links, enters a real directory once, passes over
ignored names and reports a directory that lies too deep instead of entering it. It calls itself for
every directory, so a stack that has no room for all levels within the depth limit may overflow.
-/
namespace WebAtlas

structure WalkPolicy where
  ignored : List String
  maxDepth : Int

def WalkPolicy.builtinIgnored : List String :=
  ["node_modules", ".next", ".git", "dist", "build", "__tests__", "__mocks__"]

def Settings.walkPolicy (s : Settings) : WalkPolicy :=
  ⟨WalkPolicy.builtinIgnored ++ s.extraIgnoredList, s.maxDepth⟩

inductive Visit
  | file (path : Path)
  | tooDeep (directory : Path)
deriving DecidableEq, Repr

def Visit.file? : Visit → Option Path
  | .file p => some p
  | .tooDeep _ => none

/-- What a walk meets before it ends, and whether it ends because the stack overflows. -/
structure Course where
  visits : List Visit
  overflows : Bool
deriving DecidableEq, Repr

def Course.files (c : Course) : List Path := c.visits.filterMap Visit.file?

namespace FileSystem

def sortedListing (fs : FileSystem) (dir : Location) : List (String × Entry) :=
  (fs.listing dir).mergeSort fun a b => a.1 ≤ b.1

/-- What an entry of a directory stands for once its links are followed. -/
def target? (fs : FileSystem) (p : Path) : Entry → Option Entry
  | .link _ => (fs.status p).toOption.map (·.2)
  | entry => some entry

def contents (fs : FileSystem) (dir : Path) (loc : Location) : List (String × Entry) :=
  (fs.sortedListing loc).filterMap fun (name, entry) =>
    (fs.target? (dir.child name) entry).map (name, ·)

def ownFiles (fs : FileSystem) (dir : Path) (loc : Location) : List Path :=
  ((fs.contents dir loc).filter (·.2.isFile)).map (dir.child ·.1)

def ownDirectories (fs : FileSystem) (ignored : List String) (dir : Path) (loc : Location) :
    List Path :=
  ((fs.contents dir loc).filter fun (name, entry) =>
    entry.isDirectory && !ignored.contains name).map (dir.child ·.1)

/-- Visits a directory with `levels` levels left, given the real directories entered before; returns
the visits and the real directories entered by then. -/
def visit (fs : FileSystem) (ignored : List String) :
    Nat → List Location → Path → List Visit × List Location
  | 0, entered, dir => ([.tooDeep dir], entered)
  | levels + 1, entered, dir =>
    match fs.status dir with
    | .ok (loc, .directory) =>
      if loc ∈ entered then ([], entered)
      else
        (fs.ownDirectories ignored dir loc).foldl
          (fun (visits, entered) sub =>
            let (more, entered) := visit fs ignored levels entered sub
            (visits ++ more, entered))
          ((fs.ownFiles dir loc).map .file, loc :: entered)
    | _ => ([], entered)

/-- The number of levels that a depth limit leaves, the start being at depth zero. -/
def levelsOf (maxDepth : Int) : Nat := (maxDepth + 1).toNat

def walk (fs : FileSystem) (policy : WalkPolicy) (start : Path) : Except FileError (List Visit) :=
  (fs.isDirectory? start).map fun isDirectory =>
    if isDirectory then (fs.visit policy.ignored (levelsOf policy.maxDepth) [] start).1 else []

end FileSystem

namespace Walk

def component : String := "scanner"

def reportDepth : Visit → Reporting Fault Unit
  | .file _ => pure ()
  | .tooDeep dir =>
    Reporting.report .warning component s!"Maximum depth reached at {dir.text}"

/-- The policy of a walk for which the stack has room for only so many nested directories. -/
def within (policy : WalkPolicy) (room : Nat) : WalkPolicy :=
  { policy with maxDepth := min policy.maxDepth (room - 1) }

/-- The course of a walk on a stack with room for `room` nested directories. Where the depth limit
allows for more, the first directory that is nested so deep overflows the stack. -/
def course (fs : FileSystem) (policy : WalkPolicy) (room : Nat) (start : Path) :
    Reporting Fault Course :=
  match fs.walk (within policy room) start with
  | .error e => throw (.file e)
  | .ok visits =>
    if FileSystem.levelsOf policy.maxDepth < room then pure ⟨visits, false⟩
    else pure ⟨visits.takeWhile (·.file?.isSome), visits.any (·.file?.isNone)⟩

def filesOn (fs : FileSystem) (policy : WalkPolicy) (room : Nat) (accepts : Path → Bool)
    (start : Path) : Reporting Fault (List Path) := do
  let course ← course fs policy room start
  course.visits.forM reportDepth
  if course.overflows then throw .stackOverflow
  return course.files.filter accepts

/-- Room for a walk down to its depth limit, and to report what lies below. -/
def roomFor (policy : WalkPolicy) : Nat := FileSystem.levelsOf policy.maxDepth + 1

def files (fs : FileSystem) (policy : WalkPolicy) (accepts : Path → Bool) (start : Path) :
    Reporting Fault (List Path) :=
  filesOn fs policy (roomFor policy) accepts start

/-- Tests a starting directory on its own before walking it, and gives no files when it is none. -/
def filesIfDirectory (fs : FileSystem) (policy : WalkPolicy) (accepts : Path → Bool) (start : Path) :
    Reporting Fault (List Path) :=
  match fs.isDirectory? start with
  | .ok true => files fs policy accepts start
  | .ok false => pure []
  | .error e => throw (.file e)

def filesBelow (fs : FileSystem) (policy : WalkPolicy) (accepts : Path → Bool) (root : Path)
    (starts : List (List String)) : Reporting Fault (List Path) :=
  starts.foldlM (fun files segments => do
    return files ++ (← filesIfDirectory fs policy accepts (root.descend segments))) []

/-- The visits up to the first file after `cap` source files, and whether there is such a file. -/
def beforeCap (cap : Int) : Nat → List Visit → List Visit × Bool
  | _, [] => ([], false)
  | taken, .tooDeep dir :: rest =>
    let (before, capped) := beforeCap cap taken rest
    (.tooDeep dir :: before, capped)
  | taken, .file p :: rest =>
    if cap ≤ taken then ([], true)
    else
      let (before, capped) := beforeCap cap (if Source.isSource p then taken + 1 else taken) rest
      (.file p :: before, capped)

/-- The first `cap` source files of a walk. Any file that comes after them, of whatever kind, ends the
walk with a warning, and what lies beyond it is not reported, nor does it overflow the stack. -/
def sourcesOn (fs : FileSystem) (policy : WalkPolicy) (room : Nat) (cap : Int) (start : Path) :
    Reporting Fault (List Path) := do
  let course ← course fs policy room start
  let (before, capped) := beforeCap cap 0 course.visits
  before.forM reportDepth
  if capped then
    Reporting.report .warning component
      s!"File cap of {cap} reached, remaining files are not scanned"
  else if course.overflows then throw .stackOverflow
  return (before.filterMap Visit.file?).filter Source.isSource

def sources (fs : FileSystem) (policy : WalkPolicy) (cap : Int) (start : Path) :
    Reporting Fault (List Path) :=
  sourcesOn fs policy (roomFor policy) cap start

end Walk

end WebAtlas
