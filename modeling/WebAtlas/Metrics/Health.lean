import WebAtlas.Metrics.Importance
import WebAtlas.Project.Analysis

/-! # Health of a codebase

Sizes, two verdicts drawn from them, and the files that stand out.
-/
namespace WebAtlas

structure Health where
  totalFiles : Nat
  totalLines : Int
  totalComponents : Nat
  totalRoutes : Nat
  totalEntities : Nat
  complexity : String
  organization : String
  hubFiles : List String
  isolatedFiles : List String
  /-- The longest components with their line counts. -/
  largestFiles : List (String × Int)
deriving DecidableEq, Repr

namespace Health

def complexityOf (files : Nat) (lines : Int) : String :=
  if 200 < files ∨ 50000 < lines then "very-complex"
  else if 100 < files ∨ 20000 < lines then "complex"
  else if 50 < files ∨ 10000 < lines then "moderate"
  else "simple"

/-- A verdict on the number of files for each cluster, no cluster counting as one. -/
def organizationOf (files clusters : Nat) : String :=
  let clusters := max clusters 1
  if 30 * clusters < files then "needs-work"
  else if 20 * clusters < files then "fair"
  else if 10 * clusters < files then "good"
  else "excellent"

def hubBefore (edges : List Graph.Edge) (a b : String) : Bool :=
  if Graph.fanIn edges a = Graph.fanIn edges b then a ≤ b
  else Graph.fanIn edges b < Graph.fanIn edges a

/-- The ids with enough importers to be hubs, in order. -/
def hubIds (edges : List Graph.Edge) : List String :=
  (((edges.map (·.target)).eraseDups).filter (Graph.hubThreshold ≤ Graph.fanIn edges ·)).mergeSort
    (hubBefore edges)

/-- The file of a node by its id, the last node of that id; an id of no node is the error. -/
def fileOf (nodes : List Graph.Node) (id : String) : Except String String :=
  match nodes.reverse.find? (·.id == id) with
  | some node => .ok node.file
  | none => .error id

def hubFilesOf (nodes : List Graph.Node) (edges : List Graph.Edge) : Except String (List String) :=
  ((hubIds edges).take 10).mapM (fileOf nodes)

def isolatedFilesOf (nodes : List Graph.Node) (edges : List Graph.Edge) : List String :=
  ((nodes.filter fun node =>
    !(edges.map (·.target)).contains node.id && !(edges.map (·.source)).contains node.id).map
      (·.file)).take 10

def longerFirst (a b : String × Int) : Bool :=
  if a.2 = b.2 then a.1 ≤ b.1 else b.2 < a.2

/-- What the summary needs to know of an analysis. -/
structure Sizes where
  nodes : List Graph.Node := []
  edges : List Graph.Edge := []
  clusterCount : Nat := 0
  /-- Paths and line counts of the components. -/
  components : List (String × Int) := []
  routeCount : Nat := 0
  entityCount : Nat := 0

def Sizes.ofAnalysis {Name : Type} (a : Analysis Name) : Sizes where
  nodes := (a.graph.map (·.nodes)).getD []
  edges := (a.graph.map (·.edges)).getD []
  clusterCount := (a.graph.map (·.clusters.length)).getD 0
  components := ((a.components.map (·.components)).getD []).map fun c => (c.path, c.lineCount)
  routeCount := (a.routes.map (·.routes.length)).getD 0
  entityCount := (a.schema.map (·.entities.length)).getD 0

def summarize (s : Sizes) : Except String Health := do
  let hubFiles ← hubFilesOf s.nodes s.edges
  let totalFiles := s.nodes.length
  let totalLines := (s.components.map (·.2)).foldl (· + ·) 0
  return {
    totalFiles, totalLines, hubFiles
    totalComponents := s.components.length
    totalRoutes := s.routeCount
    totalEntities := s.entityCount
    complexity := complexityOf totalFiles totalLines
    organization := organizationOf totalFiles s.clusterCount
    isolatedFiles := isolatedFilesOf s.nodes s.edges
    largestFiles := (s.components.mergeSort longerFirst).take 5 }

def ofAnalysis {Name : Type} (a : Analysis Name) : Except String Health := summarize (.ofAnalysis a)

end Health

end WebAtlas
