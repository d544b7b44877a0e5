import WebAtlas.Path.Basic
import WebAtlas.Text.Quoted

/-! # File systems

A file system is a finite list of entries, each at its canonical location: the names on the way
from the root, none of them a link. The root is a directory without an entry of its own. Directories
list their entries in the order of the list.
-/
namespace WebAtlas

/-- The names on the way from the root to an entry. -/
abbrev Location := List String

inductive Entry
  | directory
  | file (bytes : List UInt8)
  | link (target : String)
deriving DecidableEq, Repr

def Entry.isDirectory : Entry → Bool
  | .directory => true
  | _ => false

def Entry.isFile : Entry → Bool
  | .file _ => true
  | _ => false

def Entry.isLink : Entry → Bool
  | .link _ => true
  | _ => false

structure FileSystem where
  entries : List (Location × Entry)
  /-- Where relative paths start. -/
  workingDirectory : Location

inductive FileFault
  | missing
  | alreadyExists
  | notDirectory
  | isDirectory
  | nameTooLong
  | tooManyLinks
  | nullByte
deriving DecidableEq, Repr

/-- The number of a fault that the operating system reports; a null byte does not get that far. -/
def FileFault.code? : FileFault → Option Nat
  | .missing => some 2
  | .alreadyExists => some 17
  | .notDirectory => some 20
  | .isDirectory => some 21
  | .nameTooLong => some 36
  | .tooManyLinks => some 40
  | .nullByte => none

def FileFault.reason : FileFault → String
  | .missing => "No such file or directory"
  | .alreadyExists => "File exists"
  | .notDirectory => "Not a directory"
  | .isDirectory => "Is a directory"
  | .nameTooLong => "File name too long"
  | .tooManyLinks => "Too many levels of symbolic links"
  | .nullByte => "embedded null byte"

structure FileError where
  fault : FileFault
  path : Path
deriving DecidableEq, Repr

def FileError.message (e : FileError) : String :=
  match e.fault.code? with
  | none => e.fault.reason
  | some code => s!"[Errno {code}] {e.fault.reason}: {Text.quoted e.path.text}"

namespace FileSystem

def entry? (fs : FileSystem) (loc : Location) : Option Entry :=
  if loc = [] then some .directory else fs.entries.lookup loc

def listing (fs : FileSystem) (dir : Location) : List (String × Entry) :=
  fs.entries.filterMap fun (loc, entry) =>
    if loc.dropLast = dir then loc.getLast?.map (·, entry) else none

/-- Longest name of an entry, in bytes. -/
def nameLimit : Nat := 255

/-- Longest path that an operation takes, in bytes. -/
def pathLimit : Nat := 4095

/-- Most links that one look-up follows. -/
def linkLimit : Nat := 40

def nameFault? (name : String) : Option FileFault :=
  if Path.holdsNull name then some .nullByte
  else if nameLimit < name.utf8ByteSize then some .nameTooLong
  else none

/-- Where a walk along the pieces of a path gets without following a link. -/
inductive Arrival
  | present (loc : Location) (entry : Entry)
  | absent (dir : Location) (name : String)
  | link (dir : Location) (target : String) (rest : List String)
deriving DecidableEq, Repr

/-- Walks along pieces from a directory up to their end or to a link to follow. The last piece is
followed only on demand. -/
def advance (fs : FileSystem) (followLast : Bool) : Location → List String → Except FileFault Arrival
  | dir, [] => .ok (.present dir .directory)
  | dir, piece :: rest =>
    if Path.isVoid piece then advance fs followLast dir rest
    else if piece = ".." then advance fs followLast dir.dropLast rest
    else match nameFault? piece, fs.entry? (dir ++ [piece]) with
      | some fault, _ => .error fault
      | none, none => if rest = [] then .ok (.absent dir piece) else .error .missing
      | none, some .directory => advance fs followLast (dir ++ [piece]) rest
      | none, some (.file bytes) =>
        if rest = [] then .ok (.present (dir ++ [piece]) (.file bytes)) else .error .notDirectory
      | none, some (.link target) =>
        if rest = [] && !followLast then .ok (.present (dir ++ [piece]) (.link target))
        else .ok (.link dir target rest)

def linkOrigin (dir : Location) (target : String) : Location :=
  if (Path.parse target).isAbsolute then [] else dir

/-- Walks along pieces and follows at most `budget` links, each in place of its own piece. -/
def follow (fs : FileSystem) (followLast : Bool) :
    Nat → Location → List String → Except FileFault Arrival
  | budget, dir, pieces =>
    match fs.advance followLast dir pieces with
    | .ok (.link dir target rest) =>
      match budget with
      | 0 => .error .tooManyLinks
      | budget + 1 =>
        follow fs followLast budget (linkOrigin dir target) (Path.pieces target ++ rest)
    | arrival => arrival

def origin (fs : FileSystem) (p : Path) : Location :=
  if p.isAbsolute then [] else fs.workingDirectory

def locate (fs : FileSystem) (followLast : Bool) (p : Path) : Except FileFault Arrival :=
  if pathLimit < p.text.utf8ByteSize then .error .nameTooLong
  else fs.follow followLast linkLimit (fs.origin p) p.segments

/-- The location and entry that a path leads to, every link followed. -/
def status (fs : FileSystem) (p : Path) : Except FileFault (Location × Entry) :=
  match fs.locate true p with
  | .ok (.present loc entry) => .ok (loc, entry)
  | .ok _ => .error .missing
  | .error fault => .error fault

/-- The target of the link that a path names, links before the last segment being followed. -/
def linkTarget? (fs : FileSystem) (p : Path) : Option String :=
  match fs.locate false p with
  | .ok (.present _ (.link target)) => some target
  | _ => none

/-- Whether a path leads to a regular file; any failure counts as no. -/
def hasFile (fs : FileSystem) (p : Path) : Bool :=
  match fs.status p with
  | .ok (_, entry) => entry.isFile
  | .error _ => false

/-- Tests what a path leads to. A path that leads nowhere fails the test, and so does one with a null
byte, but a name that is too long for the file system is an error. -/
def test (fs : FileSystem) (accepts : Entry → Bool) (p : Path) : Except FileError Bool :=
  match fs.status p with
  | .ok (_, entry) => .ok (accepts entry)
  | .error .nameTooLong =>
    if p.segments.any Path.holdsNull then .ok false else .error ⟨.nameTooLong, p⟩
  | .error _ => .ok false

def exists? (fs : FileSystem) (p : Path) : Except FileError Bool := fs.test (fun _ => true) p

def isFile? (fs : FileSystem) (p : Path) : Except FileError Bool := fs.test Entry.isFile p

def isDirectory? (fs : FileSystem) (p : Path) : Except FileError Bool := fs.test Entry.isDirectory p

/-- The first of some paths that leads to a file; a failing test before it is an error. -/
def firstFile? (fs : FileSystem) : List Path → Except FileError (Option Path)
  | [] => .ok none
  | p :: rest =>
    match fs.isFile? p with
    | .ok true => .ok (some p)
    | .ok false => firstFile? fs rest
    | .error e => .error e

def read (fs : FileSystem) (p : Path) : Except FileFault (List UInt8) :=
  match fs.status p with
  | .ok (_, .file bytes) => .ok bytes
  | .ok _ => .error .isDirectory
  | .error fault => .error fault

end FileSystem

end WebAtlas
