import WebAtlas.Graph.Basic
import WebAtlas.Source.Text

/-! # Node ids

A file's id is its relative path with slashes as underscores and without the last extension. When
that is taken the extension is added, and then the first number from two on that makes it free.
Every file is given an id, and a path listed twice keeps its last one.
-/
namespace WebAtlas.Graph

/-- The text before its last dot, when something follows the dot. -/
def withoutExtension (text : List Char) : List Char :=
  match text.reverse.dropWhile (· ≠ '.') with
  | _ :: front => if text.getLast? = some '.' then text else front.reverse
  | [] => text

def baseId (relativeName : String) : String :=
  String.ofList (withoutExtension
    (relativeName.toList.map fun c => if c = '/' ∨ c = '\\' then '_' else c))

def extensionWord (file : Path) : String := String.ofList (file.extension.toList.dropWhile (· == '.'))

def numbered (id : String) (n : Nat) : String := id ++ "_" ++ toString n

def freshId (used : List String) (base extension : String) : String :=
  let extended := base ++ "_" ++ extension
  if base ∉ used then base
  else if extended ∉ used then extended
  else
    (((List.range' 2 (used.length + 1)).map (numbered extended)).find? (· ∉ used)).getD extended

structure Placed where
  file : Path
  node : Node

def nodeOf (file : Path) (relativeName id : String) : Node :=
  ⟨id, file.stem, (Path.parse relativeName).parent.text, Source.Role.ofPath (Path.parse relativeName)⟩

/-- Nodes for files in their order; `used` holds the ids given before. -/
def placeFrom (fs : FileSystem) (root : Path) (used : List String) : List Path → List Placed
  | [] => []
  | file :: files =>
    let relativeName := Source.relativeName fs root file
    let id := freshId used (baseId relativeName) (extensionWord file)
    ⟨file.normalize, nodeOf file relativeName id⟩ :: placeFrom fs root (id :: used) files

/-- Adds a node at the end, or in the place of an earlier one for the same file. -/
def put (placed : List Placed) (new : Placed) : List Placed :=
  if placed.any (·.file == new.file) then
    placed.map fun old => if old.file == new.file then new else old
  else placed ++ [new]

/-- The nodes of some files, one for each distinct path. -/
def place (fs : FileSystem) (root : Path) (files : List Path) : List Placed :=
  (placeFrom fs root [] files).foldl put []

end WebAtlas.Graph
