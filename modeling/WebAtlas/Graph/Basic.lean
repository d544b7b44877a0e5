import WebAtlas.Source.Kind

/-! # Import graphs

Source files as nodes, imports between them as edges, and groups of nodes with one directory label.
-/
namespace WebAtlas.Graph

structure Node where
  id : String
  displayName : String
  directory : String
  role : Source.Role
deriving DecidableEq, Repr

structure Edge where
  source : String
  target : String
deriving DecidableEq, Repr

structure Cluster where
  id : String
  label : String
  nodeIds : List String
deriving DecidableEq, Repr

end WebAtlas.Graph

namespace WebAtlas

structure ImportGraph where
  nodes : List Graph.Node
  edges : List Graph.Edge
  clusters : List Graph.Cluster
  projectPath : String
  generatedAt : String
deriving DecidableEq, Repr

end WebAtlas
