import WebAtlas.Path.Basic
import WebAtlas.Text.Character

/-! # Kinds of source files

What a file is, by its name and by the directories on its way.
-/
namespace WebAtlas.Source

def routeHandlerNames : List String := ["route.ts", "route.js"]

def componentExtensions : List String := [".tsx", ".jsx"]

def extensions : List String := [".ts", ".tsx", ".js", ".jsx"]

def isRouteHandler (p : Path) : Bool := routeHandlerNames.contains p.name

/-- A component file has a component extension and a capitalised name. -/
def isComponent (p : Path) : Bool :=
  componentExtensions.contains p.extension && Text.startsUppercase p.stem

def isSource (p : Path) : Bool := extensions.contains p.extension

/-- The coarse role of a source file. -/
inductive Role
  | component
  | library
  | api
  | page
  | other
deriving DecidableEq, Repr

def Role.name : Role → String
  | .component => "component"
  | .library => "lib"
  | .api => "api"
  | .page => "page"
  | .other => "other"

/-- The role that the directories above a file give it, the first of the list below that applies. -/
def Role.ofPath (p : Path) : Role :=
  let directories := p.parent.segments
  if directories.contains "components" then .component
  else if directories.contains "lib" || directories.contains "utils" then .library
  else if directories.contains "api" then .api
  else if directories.contains "app" || directories.contains "pages" then .page
  else .other

end WebAtlas.Source
