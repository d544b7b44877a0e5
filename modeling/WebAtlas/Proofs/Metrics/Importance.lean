import WebAtlas.Proofs.Metrics.Health
import WebAtlas.Proofs.Repetitions

/-! # Importance of files

On a graph whose edges join its nodes the importance of files neither loses nor invents anything: each
node has one entry, and each edge is counted once where it starts and once where it ends. Entries with
the same score and file stand in the order of the graph.
-/
namespace WebAtlas
variable {graph : ImportGraph}

/-- The place of an entry among the nodes of a graph. -/
def ImportGraph.place (graph : ImportGraph) (i : FileImportance) : Nat :=
  (graph.nodes.map (·.id)).idxOf i.nodeId

/-- A list of entries, one for each node of a graph, that ranks its files. -/
structure ImportGraph.Ranking (graph : ImportGraph) (entries : List FileImportance) : Prop where
  nodeIds : (entries.map (·.nodeId)).Perm (graph.nodes.map (·.id))
  counted : ∀ i ∈ entries, ∃ node ∈ graph.nodes, node.id = i.nodeId ∧ node.file = i.file ∧
    graph.edges.countP (·.target = node.id) = i.importedByCount ∧
    graph.edges.countP (·.source = node.id) = i.importsCount
  importers : (entries.map (·.importedByCount)).sum = graph.edges.length
  imports : (entries.map (·.importsCount)).sum = graph.edges.length
  scored : ∀ i ∈ entries, i.impactScore = min 100 (10 * i.importedByCount + 2 * i.importsCount)
  ranked : entries.Pairwise fun i j => j.impactScore < i.impactScore ∨
    i.impactScore = j.impactScore ∧ (i.file < j.file ∨ i.file = j.file ∧ graph.place i < graph.place j)

namespace FileImportance

theorem sortsBy_before : SortsBy before (fun i => OrderDual.toDual i.impactScore) (·.file) := by
  intro a b
  unfold before
  split <;> simp_all

theorem perm_importance (graph : ImportGraph) :
    graph.importance.Perm (graph.nodes.map (ofNode graph.edges)) :=
  List.mergeSort_perm _ _

theorem countP_eq_count (ends : Graph.Edge → String) (id : String) :
    graph.edges.countP (ends · = id) = (graph.edges.map ends).count id := by
  rw [List.count, List.countP_map]
  simp only [Function.comp_def, beq_eq_decide]

/-- Each edge is counted at one entry by an end that is always a node. -/
theorem sum_counts {ends : Graph.Edge → String} {count : FileImportance → Nat}
    (hnodup : (graph.nodes.map (·.id)).Nodup) (hends : ∀ e ∈ graph.edges, ends e ∈ graph.nodes.map (·.id))
    (hcount : ∀ node, count (ofNode graph.edges node) = (graph.edges.map ends).count node.id) :
    (graph.importance.map count).sum = graph.edges.length := by
  have hmem : ∀ id ∈ graph.edges.map ends, id ∈ graph.nodes.map (·.id) := by
    intro id hid
    obtain ⟨e,he,rfl⟩ := List.mem_map.mp hid
    exact hends e he
  calc (graph.importance.map count).sum
      = ((graph.nodes.map (ofNode graph.edges)).map count).sum := ((perm_importance graph).map _).sum_eq
    _ = ((graph.nodes.map (·.id)).map (graph.edges.map ends).count).sum := by
      simp only [List.map_map, Function.comp_def, hcount]
    _ = (graph.edges.map ends).length := sum_count_of_subset hnodup hmem
    _ = graph.edges.length := List.length_map _

theorem importance_ranked (hnodup : (graph.nodes.map (·.id)).Nodup) :
    graph.importance.Pairwise fun i j => j.impactScore < i.impactScore ∨
      i.impactScore = j.impactScore ∧
        (i.file < j.file ∨ i.file = j.file ∧ graph.place i < graph.place j) := by
  have hids := List.pairwise_map.mp (pairwise_idxOf hnodup)
  have hplaced : (graph.nodes.map (ofNode graph.edges)).Pairwise fun i j => graph.place i < graph.place j :=
    List.pairwise_map.mpr hids
  refine ((sortsBy_before.sorted _).and (sortsBy_before.stable hplaced)).imp ?_
  rintro i j ⟨hlt | ⟨heq,hle⟩,hties⟩
  · exact .inl (OrderDual.toDual_lt_toDual.mp hlt)
  · refine .inr ⟨OrderDual.toDual.injective heq,?_⟩
    rcases hle.lt_or_eq with hfile | hfile
    · exact .inl hfile
    · exact .inr ⟨hfile,hties heq hfile⟩

theorem importance_ranking (h : graph.Closed) : graph.Ranking graph.importance where
  nodeIds := ofGraph_nodeIds graph.nodes graph.edges
  counted i hi := by
    obtain ⟨node,hn,rfl⟩ := mem_ofGraph.mp hi
    exact ⟨node,hn,rfl,rfl,countP_eq_count _ _,countP_eq_count _ _⟩
  importers := sum_counts h.distinct (fun e he => (h.ends e he).2) fun _ => rfl
  imports := sum_counts h.distinct (fun e he => (h.ends e he).1) fun _ => rfl
  scored i hi := by
    obtain ⟨node,-,rfl⟩ := mem_ofGraph.mp hi
    simp only [ofNode, Nat.mul_comm]
  ranked := importance_ranked h.distinct

/-- Two files of one name that import a third. -/
def namesakes : ImportGraph where
  nodes := [⟨"b","b","lib",.library⟩,⟨"a_tsx","a","lib",.library⟩,⟨"a","a","lib",.library⟩]
  edges := [⟨"a","b"⟩,⟨"a_tsx","b"⟩]
  clusters := []
  projectPath := "/p"
  generatedAt := ""

theorem importance_namesakes : namesakes.Closed ∧ namesakes.Ranking namesakes.importance ∧
    namesakes.importance.map (·.nodeId) = ["b","a_tsx","a"] := by
  have hclosed : namesakes.Closed := ⟨by decide,by decide⟩
  have hsorted : (namesakes.nodes.map (ofNode namesakes.edges)).Pairwise (before · ·) := by decide
  exact ⟨hclosed,importance_ranking hclosed,
    congrArg (List.map (·.nodeId)) (List.mergeSort_of_pairwise hsorted)⟩

end FileImportance
end WebAtlas
