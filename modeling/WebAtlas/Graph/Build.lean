import WebAtlas.Graph.NodeId
import WebAtlas.Graph.Cluster
import WebAtlas.Import.Statement
import WebAtlas.Import.Resolution
import WebAtlas.Project.Root
import WebAtlas.Walk

/-! # Building the import graph

The nodes are the source files that a walk of the project finds up to a cap. An edge leads to every
other node whose file a local import of the source file resolves to. The walk resolves the real path of
the project once more, which makes a difference where links were left in it.
-/
namespace WebAtlas.Graph

/-- The local imports of a node's file, none when it cannot be read. -/
def imports (fs : FileSystem) (aliasPrefix : String) (p : Placed) : List String :=
  match Source.read? fs p.file with
  | none => []
  | some text => Import.localTargets aliasPrefix text

/-- The edge that an import of a node gives when it leads to the file of another node. -/
def edgeTo? (fs : FileSystem) (root : Path) (aliasPrefix : String) (placed : List Placed)
    (source : Placed) (target : String) : Option Edge := do
  let file ← Import.resolve fs root source.file aliasPrefix target
  let found ← placed.find? (·.file == file)
  if found.node.id = source.node.id then none else some ⟨source.node.id, found.node.id⟩

/-- The edges that the imports of one node give, perhaps with repetitions. -/
def edgesFrom (fs : FileSystem) (root : Path) (aliasPrefix : String) (placed : List Placed)
    (source : Placed) : List Edge :=
  (imports fs aliasPrefix source).filterMap (edgeTo? fs root aliasPrefix placed source)

def edges (fs : FileSystem) (root : Path) (aliasPrefix : String) (placed : List Placed) : List Edge :=
  (placed.flatMap (edgesFrom fs root aliasPrefix placed)).eraseDups

def build (fs : FileSystem) (settings : Settings) (aliasPrefix : String) (maxFiles : Int)
    (stamp : String) (project : Path) : Reporting Fault ImportGraph := do
  let root ← Project.root fs project
  let start ← Project.root fs root
  let files ← Walk.sources fs settings.walkPolicy maxFiles start
  let placed := place fs root files
  let nodes := placed.map (·.node)
  return ⟨nodes, edges fs root aliasPrefix placed, clusters nodes, root.text, stamp⟩

end WebAtlas.Graph
