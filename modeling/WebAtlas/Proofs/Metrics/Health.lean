import WebAtlas.Metrics.Health
import WebAtlas.Proofs.Graph.Edges
import WebAtlas.Proofs.Sorting

/-! # Health and importance

The summary of a codebase counts imports on its own, apart from the importance of its files. On a graph
whose edges join its nodes the two agree: the summary exists, and it names the files that are marked.
-/
namespace WebAtlas

/-- No two nodes share an id, and every edge joins nodes. -/
structure ImportGraph.Closed (graph : ImportGraph) : Prop where
  distinct : (graph.nodes.map (·.id)).Nodup
  ends : ∀ e ∈ graph.edges, e.source ∈ graph.nodes.map (·.id) ∧ e.target ∈ graph.nodes.map (·.id)

def ImportGraph.importance (graph : ImportGraph) : List FileImportance :=
  FileImportance.ofGraph graph.nodes graph.edges

theorem Graph.build_closed {fs : FileSystem} {settings : Settings} {aliasPrefix stamp : String}
    {maxFiles : Int} {project : Path} {graph : ImportGraph}
    (h : (build fs settings aliasPrefix maxFiles stamp project).outcome.1 = .ok graph) :
    graph.Closed := by
  obtain ⟨root,start,files,-,-,-,rfl⟩ := build_eq_ok_iff.mp (Prod.ext h rfl)
  have hd : Distinct (place fs root files) := place_distinct files
  constructor
  · rw [List.map_map]
    exact hd.ids
  · intro e he
    obtain ⟨s,hs,he⟩ := List.mem_flatMap.mp (List.mem_eraseDups.mp he)
    obtain ⟨t,ht,-,rfl⟩ := mem_edgesFrom hd he
    rw [List.map_map]
    exact ⟨List.mem_map.mpr ⟨s,hs,rfl⟩,List.mem_map.mpr ⟨t,ht,rfl⟩⟩

namespace FileImportance
variable {nodes : List Graph.Node} {edges : List Graph.Edge} {i : FileImportance}

theorem mem_ofGraph : i ∈ ofGraph nodes edges ↔ ∃ node ∈ nodes, ofNode edges node = i := by
  rw [ofGraph, List.mem_mergeSort, List.mem_map]

theorem ofGraph_nodeIds (nodes : List Graph.Node) (edges : List Graph.Edge) :
    ((ofGraph nodes edges).map (·.nodeId)).Perm (nodes.map (·.id)) := by
  have h := (List.mergeSort_perm (nodes.map (ofNode edges)) before).map (·.nodeId)
  rwa [List.map_map] at h

/-- A node is marked as a leaf when no edge starts or ends at it. -/
theorem any_isLeaf {node : Graph.Node} (h : node ∈ nodes) :
    (ofGraph nodes edges).any (fun i => i.nodeId == node.id && i.isLeaf) =
      (Graph.fanIn edges node.id == 0 && Graph.fanOut edges node.id == 0) := by
  rw [Bool.eq_iff_iff, List.any_eq_true]
  constructor
  · rintro ⟨i,hi,hleaf⟩
    obtain ⟨node',-,rfl⟩ := mem_ofGraph.mp hi
    obtain ⟨hid,hleaf⟩ := Bool.and_eq_true_iff.mp hleaf
    have hsame : node'.id = node.id := beq_iff_eq.mp hid
    rwa [← hsame]
  · intro hleaf
    refine ⟨ofNode edges node,mem_ofGraph.mpr ⟨node,h,rfl⟩,?_⟩
    rw [Bool.and_eq_true]
    exact ⟨by simp [ofNode],hleaf⟩

end FileImportance

namespace Health
variable {graph : ImportGraph} {nodes : List Graph.Node} {edges : List Graph.Edge}

/-- The files that stand out in a summary are those that importance marks. -/
structure Agrees (graph : ImportGraph) (health : Health) : Prop where
  hubs : ∃ hubs : List FileImportance, hubs.Perm (graph.importance.filter (·.isHub)) ∧
    (hubs.Pairwise fun a b => b.importedByCount < a.importedByCount ∨
      a.importedByCount = b.importedByCount ∧ a.nodeId < b.nodeId) ∧
    health.hubFiles = (hubs.take 10).map (·.file)
  isolated : health.isolatedFiles = ((graph.nodes.filter fun node =>
    graph.importance.any fun i => i.nodeId == node.id && i.isLeaf).take 10).map (·.file)
  total : health.totalFiles = graph.importance.length

theorem sortsBy_hubBefore :
    SortsBy (hubBefore edges) (fun id => OrderDual.toDual (Graph.fanIn edges id)) id := by
  intro a b
  unfold hubBefore
  split <;> simp_all

theorem fileOf_eq (h : (nodes.map (·.id)).Nodup) {node : Graph.Node} (hn : node ∈ nodes) :
    fileOf nodes node.id = .ok node.file := by
  have hsome : (nodes.reverse.find? (·.id == node.id)).isSome = true :=
    List.find?_isSome.mpr ⟨node,List.mem_reverse.mpr hn,by simp⟩
  obtain ⟨found,hfound⟩ := Option.isSome_iff_exists.mp hsome
  have hid : found.id = node.id := by simpa using List.find?_some hfound
  have hmem : found ∈ nodes := List.mem_reverse.mp (List.mem_of_find?_eq_some hfound)
  rw [fileOf, hfound, List.inj_on_of_nodup_map h hmem hn hid]

theorem mapM_eq_ok {ε α β : Type} {f : α → Except ε β} {g : α → β} {l : List α}
    (h : ∀ a ∈ l, f a = .ok (g a)) : l.mapM f = .ok (l.map g) := by
  induction l with
  | nil => rfl
  | cons a l ih =>
    obtain ⟨ha,hl⟩ := List.forall_mem_cons.mp h
    rw [List.mapM_cons, ha, ih hl]
    rfl

/-- The entries marked as hubs, in the order in which a summary names them. -/
def markedHubs (graph : ImportGraph) : List FileImportance :=
  (graph.importance.filter (·.isHub)).mergeSort
    fun a b => hubBefore graph.edges a.nodeId b.nodeId

theorem mem_markedHubs {i : FileImportance} : i ∈ markedHubs graph ↔
    ∃ node ∈ graph.nodes, FileImportance.ofNode graph.edges node = i ∧
      Graph.hubThreshold ≤ Graph.fanIn graph.edges node.id := by
  rw [markedHubs, List.mem_mergeSort, List.mem_filter, ImportGraph.importance,
    FileImportance.mem_ofGraph]
  constructor
  · rintro ⟨⟨node,hn,rfl⟩,hhub⟩
    exact ⟨node,hn,rfl,of_decide_eq_true hhub⟩
  · rintro ⟨node,hn,rfl,hhub⟩
    exact ⟨⟨node,hn,rfl⟩,decide_eq_true hhub⟩

theorem markedHubs_nodup (h : graph.Closed) : ((markedHubs graph).map (·.nodeId)).Nodup := by
  have hids := (FileImportance.ofGraph_nodeIds graph.nodes graph.edges).nodup_iff.mpr h.distinct
  have hperm := (List.mergeSort_perm (graph.importance.filter (·.isHub))
    fun a b => hubBefore graph.edges a.nodeId b.nodeId).map (·.nodeId)
  exact hperm.nodup_iff.mpr ((List.filter_sublist.map _).nodup hids)

theorem markedHubs_sorted :
    ((markedHubs graph).map (·.nodeId)).Pairwise fun a b => hubBefore graph.edges a b = true := by
  have h := @sortsBy_hubBefore graph.edges
  rw [List.pairwise_map]
  exact List.pairwise_mergeSort (fun a b c => h.trans a.nodeId b.nodeId c.nodeId)
    (fun a b => h.total a.nodeId b.nodeId) _

/-- The ids counted from the edges are those of the entries marked, in the same order. -/
theorem hubIds_eq (h : graph.Closed) : hubIds graph.edges = (markedHubs graph).map (·.nodeId) := by
  have hnodup : (hubIds graph.edges).Nodup :=
    (List.mergeSort_perm _ _).nodup_iff.mpr ((nodup_eraseDups _).filter _)
  have hmem : ∀ id, id ∈ hubIds graph.edges ↔ id ∈ (markedHubs graph).map (·.nodeId) := by
    intro id
    simp only [hubIds, List.mem_mergeSort, List.mem_filter, List.mem_eraseDups, decide_eq_true_eq,
      List.mem_map, mem_markedHubs]
    constructor
    · rintro ⟨⟨e,he,rfl⟩,hhub⟩
      obtain ⟨node,hn,hid⟩ := List.mem_map.mp (h.ends e he).2
      rw [← hid] at hhub
      exact ⟨_,⟨node,hn,rfl,hhub⟩,hid⟩
    · rintro ⟨_,⟨node,hn,rfl,hhub⟩,rfl⟩
      refine ⟨List.mem_map.mp (List.count_pos_iff.mp ?_),hhub⟩
      exact Nat.lt_of_lt_of_le (by decide) hhub
  have hperm := (List.perm_ext_iff_of_nodup hnodup (markedHubs_nodup h)).mpr hmem
  have horder := @sortsBy_hubBefore graph.edges
  refine hperm.eq_of_pairwise ?_ ?_ markedHubs_sorted
  · exact fun a b _ _ => horder.antisymm Function.injective_id a b
  · exact List.pairwise_mergeSort horder.trans horder.total _

/-- No look-up of a hub fails, and it finds the file of the hub. -/
theorem hubFilesOf_eq (h : graph.Closed) :
    hubFilesOf graph.nodes graph.edges = .ok (((markedHubs graph).take 10).map (·.file)) := by
  have hfile : ∀ i ∈ (markedHubs graph).take 10, fileOf graph.nodes i.nodeId = .ok i.file := by
    intro i hi
    obtain ⟨node,hn,rfl,-⟩ := mem_markedHubs.mp (List.mem_of_mem_take hi)
    exact fileOf_eq h.distinct hn
  rw [hubFilesOf, hubIds_eq h, ← List.map_take, List.mapM_map]
  exact mapM_eq_ok hfile

theorem markedHubs_pairwise (h : graph.Closed) : (markedHubs graph).Pairwise fun a b =>
    b.importedByCount < a.importedByCount ∨
      a.importedByCount = b.importedByCount ∧ a.nodeId < b.nodeId := by
  refine ((List.pairwise_map.mp markedHubs_sorted).and
    (List.pairwise_map.mp (markedHubs_nodup h))).imp_of_mem ?_
  rintro a b ha hb ⟨hab,hne⟩
  obtain ⟨node,-,rfl,-⟩ := mem_markedHubs.mp ha
  obtain ⟨node',-,rfl,-⟩ := mem_markedHubs.mp hb
  rcases (sortsBy_hubBefore _ _).mp hab with hlt | ⟨heq,hle⟩
  · exact .inl (OrderDual.toDual_lt_toDual.mp hlt)
  · exact .inr ⟨OrderDual.toDual.injective heq,lt_of_le_of_ne hle hne⟩

/-- An id that no edge ends in counts none. -/
theorem not_contains_eq (ids : List String) (id : String) : (!ids.contains id) = (ids.count id == 0) := by
  rw [Bool.eq_iff_iff, beq_iff_eq, List.count_eq_zero]
  simp

theorem isolatedFilesOf_eq : isolatedFilesOf graph.nodes graph.edges =
    ((graph.nodes.filter fun node =>
      graph.importance.any fun i => i.nodeId == node.id && i.isLeaf).take 10).map (·.file) := by
  rw [isolatedFilesOf, List.map_take]
  congr 2
  refine List.filter_congr fun node hn => ?_
  rw [not_contains_eq, not_contains_eq]
  exact (FileImportance.any_isLeaf hn).symm

/-- On a closed graph, such as every one that is built, the summary exists and agrees with importance. -/
theorem ofAnalysis_agrees :
    (∀ {Name : Type} (a : Analysis Name) (graph : ImportGraph), a.graph = some graph → graph.Closed →
      ∃ health, ofAnalysis a = .ok health ∧ health.Agrees graph) ∧
    ∀ (fs : FileSystem) (settings : Settings) (aliasPrefix : String) (maxFiles : Int)
      (stamp : String) (project : Path) (graph : ImportGraph),
      (Graph.build fs settings aliasPrefix maxFiles stamp project).outcome.1 = .ok graph →
        graph.Closed := by
  refine ⟨?_,fun _ _ _ _ _ _ _ => Graph.build_closed⟩
  intro Name a graph ha h
  have hnodes : (Sizes.ofAnalysis a).nodes = graph.nodes := by simp [Sizes.ofAnalysis, ha]
  have hedges : (Sizes.ofAnalysis a).edges = graph.edges := by simp [Sizes.ofAnalysis, ha]
  have hrun : ∃ health, ofAnalysis a = .ok health ∧
      health.hubFiles = ((markedHubs graph).take 10).map (·.file) ∧
      health.isolatedFiles = isolatedFilesOf graph.nodes graph.edges ∧
      health.totalFiles = graph.nodes.length := by
    unfold ofAnalysis summarize
    rw [hnodes, hedges, hubFilesOf_eq h]
    exact ⟨_,rfl,rfl,rfl,rfl⟩
  obtain ⟨health,hok,hhubs,hisolated,htotal⟩ := hrun
  refine ⟨health,hok,⟨markedHubs graph,List.mergeSort_perm _ _,markedHubs_pairwise h,hhubs⟩,?_,?_⟩
  · rw [hisolated, isolatedFilesOf_eq]
  · rw [htotal, ImportGraph.importance, FileImportance.ofGraph, List.length_mergeSort, List.length_map]

/-- A file that five others import, and one that stands alone. -/
def star : ImportGraph where
  nodes := ["a","b","c","d","e","hub","alone"].map fun id => ⟨id,id,"lib",.library⟩
  edges := ["a","b","c","d","e"].map fun id => ⟨id,"hub"⟩
  clusters := []
  projectPath := "/p"
  generatedAt := ""

def starAnalysis : Analysis String := ⟨"/p","p","",none,none,none,some star⟩

theorem star_closed : star.Closed := by
  constructor
  · decide
  · decide

theorem ofAnalysis_star : starAnalysis.graph = some star ∧ star.Closed ∧
    (∃ health, ofAnalysis starAnalysis = .ok health ∧ health.Agrees star) ∧
    (Graph.build Graph.ring {} "@/" 10 "" (Path.parse "/p")).outcome.1 =
      .ok ⟨Graph.ringNodes,[⟨"a","b"⟩,⟨"b","a"⟩],Graph.clusters Graph.ringNodes,"/p",""⟩ ∧
    (⟨Graph.ringNodes,[⟨"a","b"⟩,⟨"b","a"⟩],Graph.clusters Graph.ringNodes,"/p",""⟩ :
      ImportGraph).Closed := by
  have hbuild := congrArg Prod.fst Graph.ring_build
  exact ⟨rfl,star_closed,ofAnalysis_agrees.1 starAnalysis star rfl star_closed,hbuild,
    ofAnalysis_agrees.2 _ _ _ _ _ _ _ hbuild⟩

example : (ofAnalysis starAnalysis).map (fun health => (health.hubFiles,health.isolatedFiles)) =
    .ok (["lib/hub"],["lib/alone"]) := by
  decide +kernel

end Health
end WebAtlas
