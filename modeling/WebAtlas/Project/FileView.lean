import WebAtlas.FileSystem.RealPath
import WebAtlas.Source.Text
import WebAtlas.Text.Lowercase
import WebAtlas.Fault

/-! # Viewing a project file

One file of a project, asked for by a path that may lack its extension or name the directory of an
index file. The path as written must not leave the project, and neither must the file that is found
once links are followed.
-/
namespace WebAtlas

structure FileView where
  content : String
  language : String
  fileName : String
  filePath : String
  size : Nat
  lines : Nat
deriving DecidableEq, Repr

namespace FileView

/-- Endings that a request may lack, in the order in which they are tried. -/
def extensions : List String :=
  [".tsx", ".ts", ".jsx", ".js", ".mjs", ".cjs", ".json", ".css", ".scss", ".md"]

def indexFiles : List String := ["index.tsx", "index.ts", "index.jsx", "index.js"]

def languages : List (String × String) :=
  [(".ts", "typescript"), (".tsx", "typescript"), (".js", "javascript"), (".jsx", "javascript"),
   (".json", "json"), (".css", "css"), (".scss", "scss"), (".html", "html"), (".md", "markdown"),
   (".py", "python"), (".prisma", "prisma"), (".sql", "sql"), (".yml", "yaml"), (".yaml", "yaml"),
   (".env", "shell"), (".sh", "shell"), (".bash", "shell")]

def languageOf (file : Path) : String :=
  (languages.lookup (Text.lowercase file.extension)).getD "plaintext"

/-- The paths that a request may mean: itself, with an extension, an index file below it. -/
def candidates (requested : Path) : List Path :=
  requested :: extensions.map requested.append ++ indexFiles.map requested.child

/-- The normalised path of a request, a relative one being read from the project root. -/
def requestedPath (root : Path) (request : String) : Path :=
  (root.join (Path.parse request)).normalize

def ofFile (file : Path) (bytes : List UInt8) : FileView :=
  let content := Source.textOf bytes
  ⟨content, languageOf file, file.name, file.text, bytes.length, Source.lineCount content⟩

def read (fs : FileSystem) (project request : String) : Except Fault FileView := do
  let root ← fs.resolve (Path.parse project)
  let requested := requestedPath root request
  if requested ≠ root ∧ root.isBelow requested = false then throw .outsideProject
  match ← (fs.firstFile? (candidates requested)).mapError .file with
  | none => throw (.sourceMissing request)
  | some file =>
    let real ← fs.resolve file
    if root.isBelow real = false then throw .outsideProject
    match fs.read file with
    | .ok bytes => return ofFile file bytes
    | .error fault => throw (.file ⟨fault, file⟩)

end FileView

end WebAtlas
