import WebAtlas.Proofs.Graph.Edges

/-! # Graphs under a smaller cap

A cap on the source files cuts the list of nodes and nothing else: ids are given in the order of the
walk, so a node keeps its id whatever comes after it, and imports are resolved against the file
system and not against the nodes. The smaller graph is therefore induced by the larger one.
-/
namespace WebAtlas

/-- Whether both ends of an edge are among some ids. -/
def Graph.Edge.joins (ids : List String) (e : Edge) : Bool := decide (e.source ∈ ids ∧ e.target ∈ ids)

/-- The subgraph induced by the first `n` nodes, with the clusters of these. -/
def ImportGraph.onFirst (graph : ImportGraph) (n : Nat) : ImportGraph :=
  { graph with
    nodes := graph.nodes.take n
    edges := graph.edges.filter (Graph.Edge.joins ((graph.nodes.take n).map (·.id)))
    clusters := Graph.clusters (graph.nodes.take n) }

namespace Graph
variable {fs : FileSystem} {settings : Settings} {root project : Path} {aliasPrefix stamp : String}
  {maxFiles : Int} {placed : List Placed}

theorem placeFrom_take (used : List String) (files : List Path) (n : Nat) :
    placeFrom fs root used (files.take n) = (placeFrom fs root used files).take n := by
  induction files generalizing used n with
  | nil => simp [placeFrom]
  | cons file files ih =>
    cases n with
    | zero => rfl
    | succ n => simp only [List.take_succ_cons, placeFrom, ih]

theorem Distinct.take (h : Distinct placed) (n : Nat) : Distinct (placed.take n) :=
  ⟨((List.take_sublist n placed).map _).nodup h.files,((List.take_sublist n placed).map _).nodup h.ids⟩

/-- An id stands for one node, so it is among the ids of a part exactly when that node is. -/
theorem Distinct.id_mem_iff (h : Distinct placed) {part : List Placed} (hpart : part ⊆ placed)
    {p : Placed} (hp : p ∈ placed) : p.node.id ∈ part.map (·.node.id) ↔ p ∈ part := by
  constructor
  · intro hid
    obtain ⟨q,hq,heq⟩ := List.mem_map.mp hid
    exact h.eq_of_id (hpart hq) hp heq ▸ hq
  · exact fun hp => List.mem_map.mpr ⟨p,hp,rfl⟩

/-- An import leads to the same node as before when that node is kept, and else to none. -/
theorem edgeTo?_take (hd : Distinct placed) (n : Nat) (s : Placed) (target : String) :
    edgeTo? fs root aliasPrefix (placed.take n) s target =
      (edgeTo? fs root aliasPrefix placed s target).filter
        fun e => decide (e.target ∈ (placed.take n).map (·.node.id)) := by
  have hsub : placed.take n ⊆ placed := List.take_subset n placed
  apply Option.ext
  intro e
  rw [edgeTo?_eq_some_iff (hd.take n), Option.filter_eq_some_iff, edgeTo?_eq_some_iff hd,
    decide_eq_true_eq]
  constructor
  · rintro ⟨t,ht,hfile,hid,rfl⟩
    exact ⟨⟨t,hsub ht,hfile,hid,rfl⟩,List.mem_map.mpr ⟨t,ht,rfl⟩⟩
  · rintro ⟨⟨t,ht,hfile,hid,rfl⟩,hmem⟩
    exact ⟨t,(hd.id_mem_iff hsub ht).mp hmem,hfile,hid,rfl⟩

theorem edgesFrom_take (hd : Distinct placed) (n : Nat) (s : Placed) :
    edgesFrom fs root aliasPrefix (placed.take n) s =
      (edgesFrom fs root aliasPrefix placed s).filter
        fun e => decide (e.target ∈ (placed.take n).map (·.node.id)) := by
  have hsame : edgeTo? fs root aliasPrefix (placed.take n) s = fun target =>
      (edgeTo? fs root aliasPrefix placed s target).filter
        fun e => decide (e.target ∈ (placed.take n).map (·.node.id)) := by
    funext target
    exact edgeTo?_take hd n s target
  rw [edgesFrom, edgesFrom, List.filter_filterMap, hsame]

theorem eraseDups_filter {α : Type} [DecidableEq α] (p : α → Bool) (l : List α) :
    (l.filter p).eraseDups = l.eraseDups.filter p := by
  induction h : l.length using Nat.strongRecOn generalizing l with
  | ind len ih =>
    cases l with
    | nil => rfl
    | cons x xs =>
      have hshort : (xs.filter fun y => !y == x).length < len := by
        have hle := List.length_filter_le (fun y => !y == x) xs
        rw [← h, List.length_cons]
        omega
      have hrest := ih _ hshort (xs.filter fun y => !y == x) rfl
      rw [List.eraseDups_cons]
      cases hx : p x with
      | true =>
        rw [List.filter_cons_of_pos hx, List.filter_cons_of_pos hx, List.eraseDups_cons, ← hrest,
          List.filter_filter, List.filter_filter]
        simp only [Bool.and_comm]
      | false =>
        have hsame : (xs.filter fun y => !y == x).filter p = xs.filter p := by
          rw [List.filter_filter]
          apply List.filter_congr
          intro y _
          by_cases hy : y = x
          · simp [hy, hx]
          · simp [hy]
        rw [List.filter_cons_of_neg (by simp [hx]), List.filter_cons_of_neg (by simp [hx]), ← hrest,
          hsame]

/-- The edges between the first nodes are those of all edges that join two of them. -/
theorem edges_take (hd : Distinct placed) (n : Nat) :
    edges fs root aliasPrefix (placed.take n) = (edges fs root aliasPrefix placed).filter
      (Edge.joins ((placed.take n).map (·.node.id))) := by
  have hsub : placed.take n ⊆ placed := List.take_subset n placed
  have hkept : ∀ s ∈ placed.take n, edgesFrom fs root aliasPrefix (placed.take n) s =
      (edgesFrom fs root aliasPrefix placed s).filter
        (Edge.joins ((placed.take n).map (·.node.id))) := by
    intro s hs
    rw [edgesFrom_take hd]
    apply List.filter_congr
    intro e he
    obtain ⟨t,-,-,rfl⟩ := mem_edgesFrom hd he
    have hid : s.node.id ∈ (placed.take n).map (·.node.id) := List.mem_map.mpr ⟨s,hs,rfl⟩
    simp only [Edge.joins, hid, true_and]
  have hdropped : ∀ s ∈ placed.drop n, (edgesFrom fs root aliasPrefix placed s).filter
      (Edge.joins ((placed.take n).map (·.node.id))) = [] := by
    intro s hs
    rw [List.filter_eq_nil_iff]
    intro e he hends
    obtain ⟨t,-,-,rfl⟩ := mem_edgesFrom hd he
    have hmem : s ∈ placed.take n :=
      (hd.id_mem_iff hsub (List.drop_subset n placed hs)).mp (of_decide_eq_true hends).1
    exact List.disjoint_take_drop (hd.ids.of_map _) (Nat.le_refl n) hmem hs
  calc edges fs root aliasPrefix (placed.take n)
      = ((placed.take n).flatMap fun s => (edgesFrom fs root aliasPrefix placed s).filter
          (Edge.joins ((placed.take n).map (·.node.id)))).eraseDups := by
        rw [edges, List.flatMap_congr hkept]
    _ = ((placed.take n ++ placed.drop n).flatMap fun s =>
          (edgesFrom fs root aliasPrefix placed s).filter
            (Edge.joins ((placed.take n).map (·.node.id)))).eraseDups := by
        rw [List.flatMap_append, List.flatMap_eq_nil_iff.mpr hdropped, List.append_nil]
    _ = (edges fs root aliasPrefix placed).filter
          (Edge.joins ((placed.take n).map (·.node.id))) := by
        rw [List.take_append_drop, ← List.filter_flatMap, eraseDups_filter]
        rfl

/-- Nodes are placed one after another, so the first files give the first nodes. -/
theorem place_take {files : List Path} (h : (files.map Path.normalize).Nodup) (n : Nat) :
    place fs root (files.take n) = (place fs root files).take n := by
  have hfirst : ((files.take n).map Path.normalize).Nodup :=
    ((List.take_sublist n files).map _).nodup h
  rw [place_eq_placeFrom h, place_eq_placeFrom hfirst, placeFrom_take]

/-- The graph of a smaller cap is induced by that of a larger one: its nodes are the first ones, as
many as the cap allows, and its edges are the edges between these, in their order. -/
theorem build_smaller_cap (hfs : fs.WellFormed) {small large : Int} (h : small ≤ large) :
    (build fs settings aliasPrefix small stamp project).outcome.1 =
      (build fs settings aliasPrefix large stamp project).outcome.1.map (·.onFirst small.toNat) := by
  rw [build_outcome, build_outcome]
  cases hr : fs.resolve project with
  | error fault => rfl
  | ok root =>
    dsimp only
    cases hstart : fs.resolve root with
    | error fault => rfl
    | ok start =>
      dsimp only
      rw [Walk.sources_take h]
      rcases hw : (Walk.sources fs settings.walkPolicy large start).outcome with ⟨_ | files,log⟩
      · rfl
      · obtain ⟨hnormal,hnodup⟩ := Walk.sources_distinct hfs (FileSystem.resolve_ne_dotdot hstart) hw
        have hfirst : place fs root (files.take small.toNat) = (place fs root files).take small.toNat :=
          place_take (hnormal.symm ▸ hnodup) _
        have hedges := @edges_take fs root aliasPrefix _ (@place_distinct fs root files) small.toNat
        simp only [Except.map, hfirst, hedges, ImportGraph.onFirst, List.map_take, List.map_map]
        rfl

/-- Three files that share a base id and import each other. -/
def triplets : FileSystem where
  entries := [(["p"],.directory),
    (["p","a.js"],.file (ring.bytesOf "import './a.tsx'; import './a.ts'")),
    (["p","a.ts"],.file (ring.bytesOf "import './a.js'; import './a.tsx'")),
    (["p","a.tsx"],.file (ring.bytesOf "import './a.ts'"))]
  workingDirectory := []

def tripletsRoot : Path := Path.mk .root ["p"]

def tripletFiles : List Path :=
  [tripletsRoot.child "a.js",tripletsRoot.child "a.ts",tripletsRoot.child "a.tsx"]

def tripletNodes : List Node :=
  [⟨"a","a",".",.other⟩,⟨"a_ts","a",".",.other⟩,⟨"a_tsx","a",".",.other⟩]

theorem triplets_wellFormed : triplets.WellFormed :=
  FileSystem.wellFormed_of_getLast? (by decide) (by decide)

theorem triplets_walk : triplets.walk ({} : Settings).walkPolicy tripletsRoot =
    .ok (tripletFiles.map .file) := by
  rw [triplets_wellFormed.walk_computed]
  rfl

theorem triplets_build : (build triplets {} "@/" 3 "" (Path.parse "/p")).outcome.1 =
    .ok ⟨tripletNodes,[⟨"a","a_tsx"⟩,⟨"a","a_ts"⟩,⟨"a_ts","a"⟩,⟨"a_ts","a_tsx"⟩,⟨"a_tsx","a_ts"⟩],
      clusters tripletNodes,"/p",""⟩ := by
  have hroot : triplets.resolve (Path.parse "/p") = .ok tripletsRoot := rfl
  have hfiles : (Walk.sources triplets ({} : Settings).walkPolicy 3 tripletsRoot).outcome =
      (.ok tripletFiles,[]) := by
    rw [Walk.sources_outcome triplets_walk]
    rfl
  have hnodes : (place triplets tripletsRoot tripletFiles).map (·.node) = tripletNodes := by
    decide +kernel
  have hedges : edges triplets tripletsRoot "@/" (place triplets tripletsRoot tripletFiles) =
      [⟨"a","a_tsx"⟩,⟨"a","a_ts"⟩,⟨"a_ts","a"⟩,⟨"a_ts","a_tsx"⟩,⟨"a_tsx","a_ts"⟩] := by
    decide +kernel
  have hagain : triplets.resolve tripletsRoot = .ok tripletsRoot := rfl
  rw [build_outcome, hroot]
  simp only [hagain, hfiles, Except.map, hnodes, hedges]
  rfl

/-- A cap of two cuts a chain of three colliding ids, and both nodes left keep theirs. -/
theorem build_smaller_cap_triplets : triplets.WellFormed ∧ (2 : Int) ≤ 3 ∧
    (build triplets {} "@/" 2 "" (Path.parse "/p")).outcome.1 =
      .ok ⟨tripletNodes.take 2,[⟨"a","a_ts"⟩,⟨"a_ts","a"⟩],clusters (tripletNodes.take 2),"/p",""⟩ := by
  have hcaps : (2 : Int) ≤ 3 := by decide
  refine ⟨triplets_wellFormed,hcaps,?_⟩
  rw [build_smaller_cap triplets_wellFormed hcaps, triplets_build]
  rfl

end Graph
end WebAtlas
