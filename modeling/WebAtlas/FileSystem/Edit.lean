import WebAtlas.FileSystem.Basic

/-! # Changing a file system

Creating directories, writing files and links, and removing what a path names. An operation that
fails midway keeps what it has done, so the longer ones return a file system beside their outcome.
-/
namespace WebAtlas.FileSystem

def put (fs : FileSystem) (loc : Location) (entry : Entry) : FileSystem :=
  { fs with entries := fs.entries.filter (·.1 != loc) ++ [(loc, entry)] }

def erase (fs : FileSystem) (loc : Location) : FileSystem :=
  { fs with entries := fs.entries.filter (!loc.isPrefixOf ·.1) }

/-- Puts an entry at a free name; `..` and the start of a path are names already taken. -/
def create (fs : FileSystem) (p : Path) (entry : Entry) : Except FileFault FileSystem :=
  if p.segments.any Path.holdsNull then .error .nullByte
  else if p.segments.getLast?.all (· == "..") then
    (fs.locate true p).bind fun _ => .error .alreadyExists
  else match fs.locate false p with
    | .ok (.absent dir name) => .ok (fs.put (dir ++ [name]) entry)
    | .ok _ => .error .alreadyExists
    | .error fault => .error fault

/-- Writes a file, through links, in place of an older one. -/
def write (fs : FileSystem) (p : Path) (bytes : List UInt8) : Except FileFault FileSystem :=
  match fs.locate true p with
  | .ok (.present loc (.file _)) => .ok (fs.put loc (.file bytes))
  | .ok (.absent dir name) => .ok (fs.put (dir ++ [name]) (.file bytes))
  | .ok _ => .error .isDirectory
  | .error fault => .error fault

def remove (fs : FileSystem) (p : Path) : Except FileFault FileSystem :=
  match fs.locate false p with
  | .ok (.present loc _) => .ok (fs.erase loc)
  | .ok _ => .error .missing
  | .error fault => .error fault

/-- What a refused creation of a directory means when one may already be there. -/
def settle (fs : FileSystem) (p : Path) (fault : FileFault) : Except FileError Unit :=
  match fs.isDirectory? p with
  | .ok true => .ok ()
  | .ok false => .error ⟨fault, p⟩
  | .error e => .error e

/-- Makes a directory whose parent may be missing, and at most `depth` more above it. -/
def makeDirectoriesUpTo : Nat → FileSystem → Path → FileSystem × Except FileError Unit
  | depth, fs, p =>
    match fs.create p .directory with
    | .ok made => (made, .ok ())
    | .error .missing =>
      match depth with
      | 0 => (fs, .error ⟨.missing, p⟩)
      | depth + 1 =>
        match makeDirectoriesUpTo depth fs p.parent with
        | (made, .error e) => (made, .error e)
        | (made, .ok ()) =>
          match made.create p .directory with
          | .ok whole => (whole, .ok ())
          | .error .missing => (made, .error ⟨.missing, p⟩)
          | .error fault => (made, made.settle p fault)
    | .error fault => (fs, fs.settle p fault)

/-- Makes a directory together with all missing ones above it; one that exists is left as it is. -/
def makeDirectories (fs : FileSystem) (p : Path) : FileSystem × Except FileError Unit :=
  makeDirectoriesUpTo p.segments.length fs p

end WebAtlas.FileSystem
