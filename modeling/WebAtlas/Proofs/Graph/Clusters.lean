import WebAtlas.Proofs.Graph.Build
import WebAtlas.Proofs.Path.Append
import WebAtlas.Proofs.Repetitions
import WebAtlas.Proofs.Walk.Evaluation

/-! # Cluster ids

Nodes are grouped by a label of at most two names, and the group is identified by its label with the
slash written as an underscore. An underscore may also belong to a name, so the id tells clusters
apart exactly when no two labels differ only in where such a slash stands.
-/
namespace WebAtlas.Graph
variable {x y x' y' a b : String} {nodes : List Node} {c d : Cluster}

/-- Labels that differ and give one id. -/
inductive Twins : String → String → Prop
  | joined (x y : String) : Twins (x ++ "/" ++ y) (x ++ "_" ++ y)
  | shifted (x y z : String) : Twins (x ++ "/" ++ y ++ "_" ++ z) (x ++ "_" ++ y ++ "/" ++ z)

/-- One name, or two with a slash between them. -/
inductive Label : String → Prop
  | one {x : String} (hx : '/' ∉ x.toList) : Label x
  | two {x y : String} (hx : '/' ∉ x.toList) (hy : '/' ∉ y.toList) : Label (x ++ "/" ++ y)

theorem clusterId_append (a b : String) : clusterId (a ++ b) = clusterId a ++ clusterId b := by
  simp [clusterId, String.ofList_append]

theorem clusterId_name (h : '/' ∉ x.toList) : clusterId x = x := by
  have hsame : x.toList.map (fun c => if c = '/' then '_' else c) = x.toList.map id :=
    List.map_congr_left fun c hc => if_neg (ne_of_mem_of_not_mem hc h)
  rw [clusterId, hsame, List.map_id, String.ofList_toList]

theorem clusterId_slash : clusterId "/" = "_" := rfl

theorem clusterId_underscore : clusterId "_" = "_" := rfl

theorem clusterId_two (hx : '/' ∉ x.toList) (hy : '/' ∉ y.toList) :
    clusterId (x ++ "/" ++ y) = x ++ "_" ++ y := by
  rw [clusterId_append, clusterId_append, clusterId_name hx, clusterId_name hy, clusterId_slash]

theorem clusterLabel_shape (directory : String) : Label (clusterLabel directory) := by
  unfold clusterLabel
  dsimp only
  split
  · exact .one (by decide)
  · generalize hs : (Path.pieces directory).filter _ = segments
    have hslash : ∀ s ∈ segments.drop (segments.length - 2), '/' ∉ s.toList := by
      intro s hmem
      have hm := List.mem_of_mem_drop hmem
      rw [← hs] at hm
      exact Path.slash_not_mem_pieces (List.mem_filter.mp hm).1
    have hlength : (segments.drop (segments.length - 2)).length ≤ 2 := by
      rw [List.length_drop]
      omega
    rcases hlast : segments.drop (segments.length - 2) with _ | ⟨x,_ | ⟨y,_ | ⟨z,rest⟩⟩⟩
    · exact .one (by decide)
    · rw [hlast] at hslash
      rw [String.intercalate_singleton]
      exact .one (hslash x (by simp))
    · rw [hlast] at hslash
      rw [String.intercalate_cons_cons, String.intercalate_singleton]
      exact .two (hslash x (by simp)) (hslash y (by simp))
    · rw [hlast] at hlength
      simp at hlength

theorem Twins.clusterId_eq (h : Twins a b) : clusterId a = clusterId b := by
  cases h <;> simp only [clusterId_append, clusterId_slash, clusterId_underscore]

theorem Twins.ne (h : Twins a b) : a ≠ b := by
  intro heq
  have hlist := congrArg String.toList heq
  cases h <;> simp at hlist

theorem underscore_split (h : x ++ "_" ++ y = x' ++ "_" ++ y') :
    x = x' ∧ y = y' ∨ (∃ m, x' = x ++ "_" ++ m ∧ y = m ++ "_" ++ y') ∨
      ∃ m, x = x' ++ "_" ++ m ∧ y' = m ++ "_" ++ y := by
  have hlist : x.toList ++ '_' :: y.toList = x'.toList ++ '_' :: y'.toList := by
    simpa using congrArg String.toList h
  have hbetween : ∀ {x y x' y' : String} {m : List Char}, x'.toList = x.toList ++ m →
      '_' :: y.toList = m ++ '_' :: y'.toList →
      x = x' ∧ y = y' ∨ ∃ m, x' = x ++ "_" ++ m ∧ y = m ++ "_" ++ y' := by
    intro x y x' y' m hx hy
    cases m with
    | nil =>
      rw [List.append_nil] at hx
      exact .inl ⟨(String.toList_inj.mp hx).symm,String.toList_inj.mp (List.cons.inj hy).2⟩
    | cons c m =>
      obtain ⟨rfl,-⟩ := List.cons.inj hy
      have hrest : y.toList = m ++ '_' :: y'.toList := (List.cons.inj hy).2
      exact .inr ⟨String.ofList m,String.toList_inj.mp (by simp [hx]),
        String.toList_inj.mp (by simp [hrest])⟩
  rcases List.append_eq_append_iff.mp hlist with ⟨m,hx,hy⟩ | ⟨m,hx,hy⟩
  · exact (hbetween hx hy).imp id .inl
  · exact (hbetween hx hy).imp (fun ⟨hx,hy⟩ => ⟨hx.symm,hy.symm⟩) .inr

/-- Labels that share an id are the same or twins. -/
theorem twins_of_clusterId_eq (ha : Label a) (hb : Label b) (h : clusterId a = clusterId b) :
    a = b ∨ Twins a b ∨ Twins b a := by
  cases ha with
  | one hx =>
    rw [clusterId_name hx] at h
    cases hb with
    | one hx' => exact .inl (by rw [h, clusterId_name hx'])
    | two hx' hy' =>
      rw [clusterId_two hx' hy'] at h
      exact .inr (.inr (h ▸ .joined _ _))
  | two hx hy =>
    rw [clusterId_two hx hy] at h
    cases hb with
    | one hx' =>
      rw [clusterId_name hx'] at h
      exact .inr (.inl (h ▸ .joined _ _))
    | two hx' hy' =>
      rw [clusterId_two hx' hy'] at h
      rcases underscore_split h with ⟨rfl,rfl⟩ | ⟨m,rfl,rfl⟩ | ⟨m,rfl,rfl⟩
      · exact .inl rfl
      · exact .inr (.inl (by simpa only [String.append_assoc] using Twins.shifted _ m _))
      · exact .inr (.inr (by simpa only [String.append_assoc] using Twins.shifted _ m _))

/-- A cluster is a label that two nodes at least share, with these nodes. -/
theorem mem_clusters : c ∈ clusters nodes ↔
    (∃ n ∈ nodes, c = clusterOf nodes (clusterLabel n.directory)) ∧ 1 < c.nodeIds.length := by
  unfold clusters
  rw [(List.mergeSort_perm ..).mem_iff, List.mem_filter, List.mem_map, decide_eq_true_iff]
  refine and_congr_left fun _ => ?_
  constructor
  · rintro ⟨label,hlabel,rfl⟩
    obtain ⟨n,hn,rfl⟩ := List.mem_map.mp (List.mem_eraseDups.mp hlabel)
    exact ⟨n,hn,rfl⟩
  · rintro ⟨n,hn,rfl⟩
    exact ⟨_,List.mem_eraseDups.mpr (List.mem_map_of_mem hn),rfl⟩

theorem clusters_labels_nodup (nodes : List Node) : ((clusters nodes).map (·.label)).Nodup := by
  have hlabels : ∀ labels : List String, (labels.map (clusterOf nodes)).map (·.label) = labels := by
    intro labels
    rw [List.map_map]
    exact List.map_id labels
  rw [clusters, ((List.mergeSort_perm ..).map _).nodup_iff]
  refine (List.filter_sublist.map _).nodup ?_
  rw [hlabels]
  exact nodup_eraseDups _

theorem clusterId_of_mem (h : c ∈ clusters nodes) : c.id = clusterId c.label ∧ Label c.label := by
  obtain ⟨⟨n,-,rfl⟩,-⟩ := mem_clusters.mp h
  exact ⟨rfl,clusterLabel_shape n.directory⟩

/-- Clusters have distinct ids exactly when no two of them have twin labels. -/
theorem clusters_ids_nodup_iff (nodes : List Node) : ((clusters nodes).map (·.id)).Nodup ↔
    ∀ c ∈ clusters nodes, ∀ d ∈ clusters nodes, ¬ Twins c.label d.label := by
  have hlabels := clusters_labels_nodup nodes
  rw [List.nodup_map_iff_inj_on hlabels.of_map]
  constructor
  · intro hinj c hc d hd htwins
    have hid : c.id = d.id := by
      rw [(clusterId_of_mem hc).1, (clusterId_of_mem hd).1, htwins.clusterId_eq]
    exact htwins.ne (congrArg Cluster.label (hinj c hc d hd hid))
  · intro hnone c hc d hd hid
    rw [(clusterId_of_mem hc).1, (clusterId_of_mem hd).1] at hid
    rcases twins_of_clusterId_eq (clusterId_of_mem hc).2 (clusterId_of_mem hd).2 hid with
      hlabel | htwins | htwins
    · exact List.inj_on_of_nodup_map hlabels hc hd hlabel
    · exact absurd htwins (hnone c hc d hd)
    · exact absurd htwins (hnone d hd c hc)

/-- In a built graph an id identifies one cluster exactly when no two clusters have twin labels. -/
theorem build_clusters_identified {fs : FileSystem} {settings : Settings} {aliasPrefix stamp : String}
    {maxFiles : Int} {project : Path} {graph : ImportGraph} {log : Log}
    (h : (build fs settings aliasPrefix maxFiles stamp project).outcome = (.ok graph,log)) :
    (graph.clusters.map (·.id)).Nodup ↔
      ∀ c ∈ graph.clusters, ∀ d ∈ graph.clusters, ¬ Twins c.label d.label := by
  obtain ⟨root,start,files,-,-,-,rfl⟩ := build_eq_ok_iff.mp h
  exact clusters_ids_nodup_iff _

def paired (other : String) : FileSystem where
  entries := [(["p"],.directory), (["p","a"],.directory), (["p","a","b"],.directory),
    (["p","a","b","x.ts"],.file []), (["p","a","b","y.ts"],.file []), (["p",other],.directory),
    (["p",other,"x.ts"],.file []), (["p",other,"y.ts"],.file [])]
  workingDirectory := []

def pairedRoot : Path := Path.mk .root ["p"]

def pairedFiles (other : String) : List Path :=
  [pairedRoot.descend ["a","b","x.ts"],pairedRoot.descend ["a","b","y.ts"],
    pairedRoot.descend [other,"x.ts"],pairedRoot.descend [other,"y.ts"]]

/-- The walk comes to `a` first when its name is less than the other one. -/
theorem paired_sources {other : String} (h : other = "b_a" ∨ other = "a_b") :
    (Walk.sources (paired other) ({} : Settings).walkPolicy 500 pairedRoot).outcome =
      (.ok (pairedFiles other),[]) := by
  have hfs : (paired other).WellFormed := by
    rcases h with rfl | rfl <;> exact FileSystem.wellFormed_of_getLast? (by decide) (by decide)
  have hwalk : (paired other).walk ({} : Settings).walkPolicy pairedRoot =
      .ok ((pairedFiles other).map .file) := by
    rw [hfs.walk_computed]
    rcases h with rfl | rfl <;> rfl
  rw [Walk.sources_outcome hwalk]
  rcases h with rfl | rfl <;> rfl

/-- Nothing is imported, and the clusters of equal size stand in the order of their labels. -/
theorem paired_build {other : String} (h : other = "b_a" ∨ other = "a_b") {nodes : List Node}
    {found : List Cluster}
    (hnodes : (place (paired other) pairedRoot (pairedFiles other)).map (·.node) = nodes)
    (hfound : ((((nodes.map (clusterLabel ·.directory)).eraseDups.map (clusterOf nodes)).filter
      (1 < ·.nodeIds.length))) = found) (hsorted : found.Pairwise (Cluster.before · ·)) :
    (build (paired other) {} "@/" 500 "" (Path.parse "/p")).outcome =
      (.ok ⟨nodes,[],found,"/p",""⟩,[]) := by
  have hroot : (paired other).resolve (Path.parse "/p") = .ok pairedRoot := by
    rcases h with rfl | rfl <;> rfl
  have hedges : edges (paired other) pairedRoot "@/" (place (paired other) pairedRoot
      (pairedFiles other)) = [] := by
    rcases h with rfl | rfl <;> decide +kernel
  have hclusters : clusters nodes = found := by
    rw [clusters, hfound, List.mergeSort_of_pairwise hsorted]
  refine build_eq_ok_iff.mpr ⟨pairedRoot,pairedRoot,_,hroot,hroot,paired_sources h,?_⟩
  rw [hnodes, hedges, hclusters]
  rfl

theorem paired_apart : (build (paired "b_a") {} "@/" 500 "" (Path.parse "/p")).outcome =
    (.ok ⟨[⟨"a_b_x","x","a/b",.other⟩,⟨"a_b_y","y","a/b",.other⟩,⟨"b_a_x","x","b_a",.other⟩,
      ⟨"b_a_y","y","b_a",.other⟩],[],[⟨"a_b","a/b",["a_b_x","a_b_y"]⟩,⟨"b_a","b_a",["b_a_x","b_a_y"]⟩],
      "/p",""⟩,[]) :=
  paired_build (.inl rfl) (by decide +kernel) (by decide +kernel) (by decide)

/-- An underscore in a directory name does no harm by itself. -/
theorem paired_identified : ∃ graph,
    (build (paired "b_a") {} "@/" 500 "" (Path.parse "/p")).outcome = (.ok graph,[]) ∧
    graph.clusters.map (·.id) = ["a_b","b_a"] ∧ (graph.clusters.map (·.id)).Nodup := by
  refine ⟨_,paired_apart,rfl,(build_clusters_identified paired_apart).mpr ?_⟩
  have hlabels : ∀ a ∈ ["a/b","b_a"], ∀ b ∈ ["a/b","b_a"], clusterId a = clusterId b → a = b := by
    decide
  intro c hc d hd htwins
  exact htwins.ne (hlabels _ (List.mem_map_of_mem hc) _ (List.mem_map_of_mem hd) htwins.clusterId_eq)

/-- Two clusters with different labels have one id, although their nodes are told apart. -/
theorem paired_confused : ∃ graph,
    (build (paired "a_b") {} "@/" 500 "" (Path.parse "/p")).outcome = (.ok graph,[]) ∧
    graph.clusters = [⟨"a_b","a/b",["a_b_x","a_b_y"]⟩,⟨"a_b","a_b",["a_b_x_ts","a_b_y_ts"]⟩] ∧
    ¬ (graph.clusters.map (·.id)).Nodup := by
  have hbuild : (build (paired "a_b") {} "@/" 500 "" (Path.parse "/p")).outcome =
      (.ok ⟨[⟨"a_b_x","x","a/b",.other⟩,⟨"a_b_y","y","a/b",.other⟩,⟨"a_b_x_ts","x","a_b",.other⟩,
        ⟨"a_b_y_ts","y","a_b",.other⟩],[],
        [⟨"a_b","a/b",["a_b_x","a_b_y"]⟩,⟨"a_b","a_b",["a_b_x_ts","a_b_y_ts"]⟩],"/p",""⟩,[]) :=
    paired_build (.inr rfl) (by decide +kernel) (by decide +kernel) (by decide)
  exact ⟨_,hbuild,rfl,by decide⟩

end WebAtlas.Graph
