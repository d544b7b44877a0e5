import WebAtlas.Route.Basic
import WebAtlas.Walk
import WebAtlas.Project.Root
import WebAtlas.Source.Text

/-! # Scanning for routes

Handlers are looked for below the API roots of a project. No directory name is passed over there,
since any of them may be part of a URL.
-/
namespace WebAtlas.Route

/-- The directories below which handlers are looked for, from the project root. -/
def roots : List (List String) :=
  [["app", "api"], ["src", "app", "api"], ["pages", "api"], ["src", "pages", "api"]]

def ofFile (fs : FileSystem) (root file : Path) : List Route :=
  match Source.read? fs file with
  | none => []
  | some text => ofHandler (Source.relativeName fs root file) text

/-- The handler files of a project, in the order of the API roots and of their walks. -/
def handlers (fs : FileSystem) (settings : Settings) (root : Path) : Reporting Fault (List Path) :=
  Walk.filesBelow fs ⟨[], settings.maxDepth⟩ Source.isRouteHandler root roots

def scan (fs : FileSystem) (settings : Settings) (stamp : String) (project : Path) :
    Reporting Fault RouteReport := do
  let root ← Project.root fs project
  let files ← handlers fs settings root
  return ⟨(files.flatMap (ofFile fs root)).mergeSort before, root.text, stamp⟩

end WebAtlas.Route
