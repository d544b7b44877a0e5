import WebAtlas.Graph.Basic

/-! # Clusters

Nodes are grouped by the last two segments of their directory, wrapper directories not counted. A
group of one is no cluster. Larger clusters come first, and equal sizes go by label.
-/
namespace WebAtlas.Graph

/-- Directories that only wrap others. -/
def wrappers : List String := ["src", "app"]

def clusterLabel (directory : String) : String :=
  let segments := (Path.pieces directory).filter fun s => !Path.isVoid s && !wrappers.contains s
  let label := "/".intercalate (segments.drop (segments.length - 2))
  if label = "" then "root" else label

def clusterId (label : String) : String :=
  String.ofList (label.toList.map fun c => if c = '/' then '_' else c)

def clusterOf (nodes : List Node) (label : String) : Cluster :=
  ⟨clusterId label, label, (nodes.filter (clusterLabel ·.directory == label)).map (·.id)⟩

/-- The order of clusters: by falling size, then by label. -/
def Cluster.before (a b : Cluster) : Bool :=
  if a.nodeIds.length = b.nodeIds.length then a.label ≤ b.label
  else b.nodeIds.length < a.nodeIds.length

def clusters (nodes : List Node) : List Cluster :=
  let labels := (nodes.map (clusterLabel ·.directory)).eraseDups
  ((labels.map (clusterOf nodes)).filter (1 < ·.nodeIds.length)).mergeSort Cluster.before

end WebAtlas.Graph
