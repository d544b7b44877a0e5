import WebAtlas.FileSystem.Basic

/-! # Import resolution

A specifier names a file without its extension or the directory of an index file. It is read from
the project root when it starts with the alias prefix, else from the importing file's directory.
-/
namespace WebAtlas.Import

/-- What may be missing at the end of a specifier, in the order in which it is tried. -/
def endings : List String :=
  ["", ".ts", ".tsx", ".js", ".jsx", "/index.ts", "/index.tsx", "/index.js", "/index.jsx"]

/-- The rest of a specifier after a non-empty alias prefix. -/
def afterAlias? (aliasPrefix target : String) : Option String :=
  if aliasPrefix = "" then none
  else (Text.afterWord aliasPrefix.toList target.toList).map String.ofList

/-- The normalised path that a specifier means, before endings are tried. -/
def base (project importer : Path) (aliasPrefix target : String) : Path :=
  match afterAlias? aliasPrefix target with
  | some rest => (project.join (Path.parse rest)).normalize
  | none => (importer.parent.join (Path.parse target)).normalize

def candidates (base : Path) : List Path := endings.map base.append

/-- The file that a specifier leads to: the first candidate that is a file. -/
def resolve (fs : FileSystem) (project importer : Path) (aliasPrefix target : String) : Option Path :=
  (candidates (base project importer aliasPrefix target)).find? fs.hasFile

end WebAtlas.Import
