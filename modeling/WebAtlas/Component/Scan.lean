import WebAtlas.Component.Basic
import WebAtlas.Walk
import WebAtlas.Project.Root

/-! # Scanning for components

Component files are looked for below the component roots of a project, past ignored directories.
-/
namespace WebAtlas.Component

/-- The directories below which components are looked for, from the project root. -/
def roots : List (List String) :=
  [["components"], ["src", "components"], ["app"], ["src", "app"]]

/-- The component that a file is; none when it cannot be read. -/
def ofFile? (fs : FileSystem) (aliasPrefix : String) (root file : Path) : Option Component :=
  (Source.read? fs file).map fun text =>
    ofText aliasPrefix file.stem (Source.relativeName fs root file) text

/-- The component files of a project, in the order of the component roots and of their walks. -/
def files (fs : FileSystem) (policy : WalkPolicy) (root : Path) : Reporting Fault (List Path) :=
  Walk.filesBelow fs policy Source.isComponent root roots

/-- The components found by walks that pass over directories and end as `policy` says. -/
def scanUnder (fs : FileSystem) (policy : WalkPolicy) (aliasPrefix stamp : String) (project : Path) :
    Reporting Fault ComponentReport := do
  let root ← Project.root fs project
  let found := (← files fs policy root).filterMap (ofFile? fs aliasPrefix root)
  return ⟨found.mergeSort before, DirectoryCount.ofComponents found, root.text, stamp⟩

def scan (fs : FileSystem) (settings : Settings) (aliasPrefix stamp : String) (project : Path) :
    Reporting Fault ComponentReport :=
  scanUnder fs settings.walkPolicy aliasPrefix stamp project

end WebAtlas.Component
