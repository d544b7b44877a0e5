import WebAtlas.Graph.Basic

/-! # File importance

How many files import a file and how many it imports, and a score from both.
-/
namespace WebAtlas

structure FileImportance where
  file : String
  nodeId : String
  importedByCount : Nat
  importsCount : Nat
  isHub : Bool
  isLeaf : Bool
  impactScore : Nat
deriving DecidableEq, Repr

namespace Graph

/-- Importers that make a file a hub. -/
def hubThreshold : Nat := 5

/-- A node's file as metrics show it: without its extension. -/
def Node.file (node : Node) : String := s!"{node.directory}/{node.displayName}"

def fanIn (edges : List Edge) (id : String) : Nat := (edges.map (·.target)).count id

def fanOut (edges : List Edge) (id : String) : Nat := (edges.map (·.source)).count id

end Graph

namespace FileImportance

def ofNode (edges : List Graph.Edge) (node : Graph.Node) : FileImportance :=
  let fanIn := Graph.fanIn edges node.id
  let fanOut := Graph.fanOut edges node.id
  ⟨node.file, node.id, fanIn, fanOut, Graph.hubThreshold ≤ fanIn, fanIn == 0 && fanOut == 0,
    min 100 (fanIn * 10 + fanOut * 2)⟩

/-- The order of importance: by falling score, then by file. -/
def before (a b : FileImportance) : Bool :=
  if a.impactScore = b.impactScore then a.file ≤ b.file else b.impactScore < a.impactScore

def ofGraph (nodes : List Graph.Node) (edges : List Graph.Edge) : List FileImportance :=
  (nodes.map (ofNode edges)).mergeSort before

end FileImportance

end WebAtlas
