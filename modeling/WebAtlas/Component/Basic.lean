import WebAtlas.Component.Directive
import WebAtlas.Import.Statement
import WebAtlas.Source.Text

/-! # Components

A UI component is one file. Directories are counted by the components they hold.
-/
namespace WebAtlas

structure Component where
  name : String
  path : String
  directory : String
  context : ExecutionContext
  dependencyNames : List String
  lineCount : Int
deriving DecidableEq, Repr

structure DirectoryCount where
  path : String
  label : String
  count : Int
deriving DecidableEq, Repr

structure ComponentReport where
  components : List Component
  directories : List DirectoryCount
  projectPath : String
  generatedAt : String
deriving DecidableEq, Repr

namespace Component

def ofText (aliasPrefix name relativeName text : String) : Component :=
  ⟨name, relativeName, (Path.parse relativeName).parent.text, ExecutionContext.infer text,
    Import.componentNames aliasPrefix text, Source.lineCount text⟩

/-- The order of components: by directory, then by name. -/
def before (a b : Component) : Bool :=
  if a.directory = b.directory then a.name ≤ b.name else a.directory < b.directory

end Component

namespace DirectoryCount

/-- The last segment of a directory, or all of it when that is empty. -/
def labelOf (path : String) : String :=
  match (Path.pieces path).getLast? with
  | none | some "" => path
  | some last => last

/-- The order of directories: by falling count, then by path. -/
def before (a b : DirectoryCount) : Bool :=
  if a.count = b.count then a.path ≤ b.path else b.count < a.count

def ofComponents (components : List Component) : List DirectoryCount :=
  let directories := components.map (·.directory)
  (directories.eraseDups.map fun d => ⟨d, labelOf d, directories.count d⟩).mergeSort before

end DirectoryCount

end WebAtlas
