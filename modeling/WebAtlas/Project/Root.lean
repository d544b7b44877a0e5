import WebAtlas.FileSystem.RealPath
import WebAtlas.Json.Reader
import WebAtlas.Source.Text
import WebAtlas.Log

/-! # Project directories

Which paths name a project, and what a project is called: the name in its package file when that is
readable and gives one, else the name of its directory.
-/
namespace WebAtlas.Project

def root (fs : FileSystem) (project : Path) : Reporting Fault Path :=
  match fs.resolve project with
  | .ok real => pure real
  | .error fault => throw fault

/-- The real path of an existing project directory. An absent or empty path is refused at once. -/
def validate (fs : FileSystem) (path : Option String) : Except Fault Path :=
  match path with
  | none | some "" => .error (.projectPath .required)
  | some text =>
    match fs.resolve (Path.parse text) with
    | .error fault => .error fault
    | .ok real =>
      match fs.exists? real, fs.isDirectory? real with
      | .error e, _ | _, .error e => .error (.file e)
      | .ok false, _ => .error (.projectPath (.missing real))
      | .ok true, .ok false => .error (.projectPath (.notDirectory real))
      | .ok true, .ok true => .ok real

/-- The name that the bytes of a package file give, if they give one. Only nesting for which the stack
has no room is a fault. -/
def packageName? (room : Nat) (bytes : List UInt8) : Except Fault (Option CodePoints) :=
  match Utf8.decodeStrict? bytes with
  | none => .ok none
  | some text =>
    match Json.read room (Utf8.unifyLineEnds text) with
    | .error (.nesting container) => .error (.nesting container)
    | .error _ => .ok none
    | .ok document => .ok (((document.member? "name").bind Parsed.string?).filter (· ≠ ""))

def name (fs : FileSystem) (room : Nat) (root : Path) : Except Fault CodePoints :=
  let package := root.child "package.json"
  match fs.isFile? package with
  | .error e => .error (.file e)
  | .ok false => .ok root.name
  | .ok true =>
    match fs.read package with
    | .error _ => .ok root.name
    | .ok bytes => (packageName? room bytes).map (·.getD root.name)

end WebAtlas.Project
