import WebAtlas.FileSystem.Basic
import WebAtlas.Text.Utf8

/-! # Text of source files

A file's bytes are decoded with replacement and its line ends unified before anything reads them.
-/
namespace WebAtlas.Source

def textOf (bytes : List UInt8) : String := String.ofList (Utf8.unifyLineEnds (Utf8.decode bytes))

/-- The text of the file that a path leads to, if it leads to one. -/
def read? (fs : FileSystem) (p : Path) : Option String :=
  match fs.read p with
  | .ok bytes => some (textOf bytes)
  | .error _ => none

def lineCount (text : String) : Nat := text.toList.count '\n' + 1

/-- The path of a file as records show it, from the project root. -/
def relativeName (fs : FileSystem) (root file : Path) : String :=
  (Path.relativeTo (root.absolute fs.workingDirectory) (file.absolute fs.workingDirectory)).text

end WebAtlas.Source
