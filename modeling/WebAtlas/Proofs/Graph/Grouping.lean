import WebAtlas.Proofs.Graph.Clusters
import WebAtlas.Proofs.Sorting

/-! # Nodes in clusters

Clusters put nodes together by the labels of their directories. A label that two nodes share has one
cluster, which lists its nodes in their order, and a node with a label of its own is in none. Larger
clusters come first, and equal ones go by label.
-/
namespace WebAtlas.Graph
variable {nodes : List Node} {m n : Node} {c : Cluster} {id label : String}

/-- Whether two nodes are put together. -/
def SameLabel (m n : Node) : Prop := clusterLabel m.directory = clusterLabel n.directory

instance : DecidableRel SameLabel := fun _ _ => inferInstanceAs (Decidable (_ = _))

/-- Clusters that put nodes together by label. -/
structure Grouping (nodes : List Node) (clusters : List Cluster) : Prop where
  labels : (clusters.map (·.label)).Nodup
  several : ∀ c ∈ clusters, 2 ≤ c.nodeIds.length
  members : ∀ c ∈ clusters, ∀ id ∈ c.nodeIds,
    ∃ n ∈ nodes, n.id = id ∧ clusterLabel n.directory = c.label
  ordered : ∀ c ∈ clusters, c.nodeIds.Sublist (nodes.map (·.id))
  shared : ∀ n ∈ nodes, (∃ m ∈ nodes, m ≠ n ∧ SameLabel m n) →
    ∃! c, c ∈ clusters ∧ n.id ∈ c.nodeIds
  alone : ∀ n ∈ nodes, (∀ m ∈ nodes, SameLabel m n → m = n) → ∀ c ∈ clusters, n.id ∉ c.nodeIds
  ranked : clusters.Pairwise fun c d => d.nodeIds.length < c.nodeIds.length ∨
    c.nodeIds.length = d.nodeIds.length ∧ c.label < d.label

theorem mem_clusterOf : id ∈ (clusterOf nodes label).nodeIds ↔
    ∃ n ∈ nodes, n.id = id ∧ clusterLabel n.directory = label := by
  simp only [clusterOf, List.mem_map, List.mem_filter, beq_iff_eq]
  constructor
  · rintro ⟨n,⟨hn,hlabel⟩,hid⟩
    exact ⟨n,hn,hid,hlabel⟩
  · rintro ⟨n,hn,hid,hlabel⟩
    exact ⟨n,⟨hn,hlabel⟩,hid⟩

/-- A cluster is the group of its label. -/
theorem eq_clusterOf (h : c ∈ clusters nodes) : c = clusterOf nodes c.label := by
  obtain ⟨⟨n,-,rfl⟩,-⟩ := mem_clusters.mp h
  rfl

theorem clusterOf_sublist (nodes : List Node) (label : String) :
    (clusterOf nodes label).nodeIds.Sublist (nodes.map (·.id)) :=
  List.filter_sublist.map _

section Distinct
variable (hids : (nodes.map (·.id)).Nodup)
include hids

/-- Ids tell the nodes apart, so a node is in the groups of its own label only. -/
theorem id_mem_clusterOf (hn : n ∈ nodes) :
    n.id ∈ (clusterOf nodes label).nodeIds ↔ clusterLabel n.directory = label := by
  rw [mem_clusterOf]
  constructor
  · rintro ⟨m,hm,hid,hlabel⟩
    obtain rfl : m = n := List.inj_on_of_nodup_map hids hm hn hid
    exact hlabel
  · intro hlabel
    exact ⟨n,hn,rfl,hlabel⟩

/-- A group has several members exactly when another node shares the label. -/
theorem several_iff (hn : n ∈ nodes) : 1 < (clusterOf nodes (clusterLabel n.directory)).nodeIds.length ↔
    ∃ m ∈ nodes, m ≠ n ∧ SameLabel m n := by
  -- the members differ from each other, so their number says whether one of them is another node
  have hnodup := (clusterOf_sublist nodes (clusterLabel n.directory)).nodup hids
  have hself := (id_mem_clusterOf hids hn).mpr rfl
  constructor
  · intro hlength
    by_contra hnone
    have hsub : (clusterOf nodes (clusterLabel n.directory)).nodeIds ⊆ [n.id] := by
      intro id hid
      obtain ⟨m,hm,rfl,hlabel⟩ := mem_clusterOf.mp hid
      by_cases hmn : m = n
      · exact List.mem_singleton.mpr (congrArg Node.id hmn)
      · exact absurd ⟨m,hm,hmn,hlabel⟩ hnone
    have hle := (List.subperm_of_subset hnodup hsub).length_le
    rw [List.length_singleton] at hle
    omega
  · rintro ⟨m,hm,hne,hlabel⟩
    have hid : m.id ≠ n.id := fun h => hne (List.inj_on_of_nodup_map hids hm hn h)
    have hpair : [m.id,n.id] ⊆ (clusterOf nodes (clusterLabel n.directory)).nodeIds :=
      List.cons_subset.mpr ⟨(id_mem_clusterOf hids hm).mpr hlabel,by simpa using hself⟩
    exact (List.subperm_of_subset (by simpa using hid) hpair).length_le

/-- The cluster of a node is the group of its label. -/
theorem eq_of_id_mem (hn : n ∈ nodes) (hc : c ∈ clusters nodes) (h : n.id ∈ c.nodeIds) :
    c = clusterOf nodes (clusterLabel n.directory) := by
  rw [eq_clusterOf hc, id_mem_clusterOf hids hn] at h
  rw [h]
  exact eq_clusterOf hc

theorem existsUnique_cluster (hn : n ∈ nodes) (h : ∃ m ∈ nodes, m ≠ n ∧ SameLabel m n) :
    ∃! c, c ∈ clusters nodes ∧ n.id ∈ c.nodeIds := by
  refine ⟨clusterOf nodes (clusterLabel n.directory),⟨?_,?_⟩,?_⟩
  · exact mem_clusters.mpr ⟨⟨n,hn,rfl⟩,(several_iff hids hn).mpr h⟩
  · exact (id_mem_clusterOf hids hn).mpr rfl
  · rintro c ⟨hc,hmem⟩
    exact eq_of_id_mem hids hn hc hmem

theorem not_mem_cluster (hn : n ∈ nodes) (h : ∀ m ∈ nodes, SameLabel m n → m = n)
    (hc : c ∈ clusters nodes) : n.id ∉ c.nodeIds := by
  intro hmem
  have hsize := (mem_clusters.mp hc).2
  rw [eq_of_id_mem hids hn hc hmem] at hsize
  obtain ⟨m,hm,hne,hlabel⟩ := (several_iff hids hn).mp hsize
  exact hne (h m hm hlabel)

end Distinct

theorem Cluster.sortsBy_before :
    SortsBy Cluster.before (fun c => OrderDual.toDual c.nodeIds.length) (·.label) := by
  intro c d
  unfold Cluster.before
  split <;> simp_all

theorem clusters_ranked (nodes : List Node) : (clusters nodes).Pairwise fun c d =>
    d.nodeIds.length < c.nodeIds.length ∨
      c.nodeIds.length = d.nodeIds.length ∧ c.label < d.label := by
  have hsorted := Cluster.sortsBy_before.sorted (l := ((nodes.map (clusterLabel ·.directory)).eraseDups.map
    (clusterOf nodes)).filter (1 < ·.nodeIds.length))
  have hlabels := List.pairwise_map.mp (clusters_labels_nodup nodes)
  refine (List.Pairwise.and hsorted hlabels).imp ?_
  rintro c d ⟨hlt | ⟨heq,hle⟩,hne⟩
  · exact .inl (OrderDual.toDual_lt_toDual.mp hlt)
  · exact .inr ⟨OrderDual.toDual.injective heq,hle.lt_of_ne hne⟩

/-- The clusters of nodes with distinct ids put together the nodes that share a label and no others. -/
theorem clusters_grouping (h : (nodes.map (·.id)).Nodup) : Grouping nodes (clusters nodes) where
  labels := clusters_labels_nodup nodes
  several _ hc := (mem_clusters.mp hc).2
  members c hc id hid := by
    rw [eq_clusterOf hc] at hid
    exact mem_clusterOf.mp hid
  ordered c hc := by
    rw [eq_clusterOf hc]
    exact clusterOf_sublist nodes c.label
  shared _ hn hshared := existsUnique_cluster h hn hshared
  alone _ hn halone _ hc := not_mem_cluster h hn halone hc
  ranked := clusters_ranked nodes

/-- Nodes of three directories with one label, of two with another and of one with a label of its own. -/
def mingled : List Node :=
  [⟨"a","a","app/lib/ui",.library⟩,⟨"b","b","docs",.other⟩,⟨"c","c","src/lib/ui",.library⟩,
    ⟨"d","d","src",.other⟩,⟨"e","e","old/lib/ui",.library⟩,⟨"f","f",".",.other⟩]

theorem clusters_mingled : (mingled.map (·.id)).Nodup ∧ Grouping mingled (clusters mingled) ∧
    (∃! c, c ∈ clusters mingled ∧ "f" ∈ c.nodeIds) ∧ ∀ c ∈ clusters mingled, "b" ∉ c.nodeIds := by
  have hids : (mingled.map (·.id)).Nodup := by decide
  have hgroups := clusters_grouping hids
  refine ⟨hids,hgroups,?_,?_⟩
  · exact hgroups.shared ⟨"f","f",".",.other⟩ (by decide) ⟨⟨"d","d","src",.other⟩,by decide⟩
  · exact hgroups.alone ⟨"b","b","docs",.other⟩ (by decide) (by decide)

end WebAtlas.Graph
