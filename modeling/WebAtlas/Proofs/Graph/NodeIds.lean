import WebAtlas.Graph.NodeId
import Mathlib.Data.List.Nodup
import Mathlib.Data.List.Perm.Subperm

/-! # Node ids are unique

The ids that may be given to a file form a sequence without end, and the file gets the first that no
earlier node has. Whatever ids collide, there is one node for each file and no id is given twice.
-/
namespace WebAtlas.Graph

/-- The ids that a file may get, in the order in which they are tried. -/
def candidateId (base extension : String) : Nat → String
  | 0 => base
  | 1 => base ++ "_" ++ extension
  | n + 2 => numbered (base ++ "_" ++ extension) (n + 2)

/-- The search for a free id ends at `id`: it is free, and every candidate before it is taken. -/
def FirstFree (used : List String) (base extension id : String) : Prop :=
  ∃ n, id = candidateId base extension n ∧ id ∉ used ∧ ∀ m < n, candidateId base extension m ∈ used

theorem numbered_injective (id : String) : Function.Injective (numbered id) := by
  intro m n h
  have hdigits : (toString m).toList = (toString n).toList := by
    simpa [numbered] using congrArg String.toList h
  rw [Nat.toString_eq_repr, Nat.toString_eq_repr, Nat.toList_repr, Nat.toList_repr] at hdigits
  rw [← @Nat.ofDigitChars_ten_toDigits m, hdigits, Nat.ofDigitChars_ten_toDigits]

/-- Among one more numbers than ids used, one gives a free id. -/
theorem exists_numbered_not_mem (used : List String) (id : String) :
    ∃ n ∈ List.range' 2 (used.length + 1), numbered id n ∉ used := by
  by_contra h
  have hsub : (List.range' 2 (used.length + 1)).map (numbered id) ⊆ used := by
    intro s hs
    obtain ⟨n,hn,rfl⟩ := List.mem_map.mp hs
    by_contra hfree
    exact h ⟨n,hn,hfree⟩
  have hnodup : ((List.range' 2 (used.length + 1)).map (numbered id)).Nodup :=
    (List.nodup_range' ..).map (numbered_injective id)
  have hlen := (List.subperm_of_subset hnodup hsub).length_le
  rw [List.length_map, List.length_range'] at hlen
  omega

/-- Renaming comes to an end at the first free candidate. -/
theorem freshId_firstFree (used : List String) (base extension : String) :
    FirstFree used base extension (freshId used base extension) := by
  unfold freshId
  dsimp only
  by_cases hbase : base ∈ used
  · rw [if_neg (not_not.mpr hbase)]
    by_cases hextended : base ++ "_" ++ extension ∈ used
    · rw [if_neg (not_not.mpr hextended)]
      obtain ⟨n,hn,hfree⟩ := exists_numbered_not_mem used (base ++ "_" ++ extension)
      have hsome : ((List.range' 2 (used.length + 1)).find?
          fun n => decide (numbered (base ++ "_" ++ extension) n ∉ used)).isSome = true :=
        List.find?_isSome.mpr ⟨n,hn,decide_eq_true hfree⟩
      obtain ⟨first,hfirst⟩ := Option.isSome_iff_exists.mp hsome
      obtain ⟨hfound,hmem,hbefore⟩ := List.find?_range'_eq_some.mp hfirst
      obtain ⟨k,rfl⟩ : ∃ k, first = k + 2 := ⟨first - 2,by have := List.mem_range'_1.mp hmem; omega⟩
      have hid : ((((List.range' 2 (used.length + 1)).map (numbered (base ++ "_" ++ extension))).find?
          (· ∉ used)).getD (base ++ "_" ++ extension)) =
            numbered (base ++ "_" ++ extension) (k + 2) := by
        rw [List.find?_map]
        simp only [Function.comp_def, hfirst, Option.map_some, Option.getD_some]
      rw [hid]
      refine ⟨k + 2,rfl,of_decide_eq_true hfound,?_⟩
      intro m hm
      match m with
      | 0 => exact hbase
      | 1 => exact hextended
      | m + 2 =>
        have htaken := hbefore (m + 2) (by omega) hm
        simpa [candidateId] using htaken
    · rw [if_pos hextended]
      refine ⟨1,rfl,hextended,?_⟩
      intro m hm
      obtain rfl : m = 0 := by omega
      exact hbase
  · rw [if_pos hbase]
    exact ⟨0,rfl,hbase,fun m hm => absurd hm (Nat.not_lt_zero m)⟩

theorem freshId_not_mem (used : List String) (base extension : String) :
    freshId used base extension ∉ used := by
  obtain ⟨_,-,h,-⟩ := freshId_firstFree used base extension
  exact h

variable {fs : FileSystem} {root : Path}

theorem placeFrom_files (used : List String) (files : List Path) :
    (placeFrom fs root used files).map (·.file) = files.map Path.normalize := by
  induction files generalizing used with
  | nil => rfl
  | cons file files ih => simp [placeFrom, ih]

/-- The ids given from some point on differ from each other and from all given before. -/
theorem placeFrom_ids (used : List String) (files : List Path) :
    ((placeFrom fs root used files).map (·.node.id)).Nodup ∧
      ∀ p ∈ placeFrom fs root used files, p.node.id ∉ used := by
  induction files generalizing used with
  | nil => simp [placeFrom]
  | cons file files ih =>
    have hfree := freshId_not_mem used (baseId (Source.relativeName fs root file)) (extensionWord file)
    obtain ⟨hnodup,hrest⟩ := ih
      (freshId used (baseId (Source.relativeName fs root file)) (extensionWord file) :: used)
    refine ⟨List.nodup_cons.mpr ⟨?_,hnodup⟩,?_⟩
    · intro hmem
      obtain ⟨p,hp,hid⟩ := List.mem_map.mp hmem
      exact hrest p hp (by rw [hid]; exact List.mem_cons_self)
    · intro p hp
      rcases List.mem_cons.mp hp with rfl | hp
      · exact hfree
      · exact fun h => hrest p hp (List.mem_cons_of_mem _ h)

/-- Every node stands for the file at its own place, under the first free id of that file. -/
theorem placeFrom_node {used : List String} {files : List Path} {before after : List Placed}
    {placed : Placed} (h : placeFrom fs root used files = before ++ placed :: after) :
    ∃ file, files[before.length]? = some file ∧
      placed.node = nodeOf file (Source.relativeName fs root file) placed.node.id ∧
      FirstFree ((before.map (·.node.id)).reverse ++ used)
        (baseId (Source.relativeName fs root file)) (extensionWord file) placed.node.id := by
  induction files generalizing used before with
  | nil => simp [placeFrom] at h
  | cons file files ih =>
    cases before with
    | nil =>
      obtain ⟨rfl,-⟩ := List.cons.inj h
      exact ⟨file,rfl,rfl,freshId_firstFree ..⟩
    | cons first before =>
      obtain ⟨rfl,hrest⟩ := List.cons.inj h
      obtain ⟨file',hfile,hnode,hfree⟩ := ih hrest
      exact ⟨file',hfile,hnode,by simpa [nodeOf] using hfree⟩

theorem mem_put {placed : List Placed} {new p : Placed} (h : p ∈ put placed new) :
    p = new ∨ p ∈ placed := by
  unfold put at h
  split at h
  · obtain ⟨old,hold,rfl⟩ := List.mem_map.mp h
    split
    · exact .inl rfl
    · exact .inr hold
  · rcases List.mem_append.mp h with h | h
    · exact .inr h
    · exact .inl (List.mem_singleton.mp h)

theorem put_of_not_mem {placed : List Placed} {new : Placed}
    (h : new.file ∉ placed.map (·.file)) : put placed new = placed ++ [new] := by
  have hany : ¬ placed.any (·.file == new.file) = true := by
    intro ha
    obtain ⟨p,hp,he⟩ := List.any_eq_true.mp ha
    exact h (List.mem_map.mpr ⟨p,hp,by simpa using he⟩)
  exact if_neg hany

theorem put_files_of_mem {placed : List Placed} {new : Placed}
    (h : new.file ∈ placed.map (·.file)) :
    (put placed new).map (·.file) = placed.map (·.file) := by
  obtain ⟨p,hp,he⟩ := List.mem_map.mp h
  have hany : placed.any (·.file == new.file) = true :=
    List.any_eq_true.mpr ⟨p,hp,by simpa using he⟩
  rw [put, if_pos hany, List.map_map]
  apply List.map_congr_left
  intro old _
  by_cases ho : old.file = new.file
  · simp [ho]
  · simp [ho]

theorem put_files_nodup {placed : List Placed} (new : Placed) (h : (placed.map (·.file)).Nodup) :
    ((put placed new).map (·.file)).Nodup := by
  by_cases hm : new.file ∈ placed.map (·.file)
  · rwa [put_files_of_mem hm]
  · rw [put_of_not_mem hm, List.map_append, List.nodup_append]
    refine ⟨h,by simp,?_⟩
    intro a ha b hb hab
    rw [List.map_singleton, List.mem_singleton] at hb
    exact hm (hb ▸ hab ▸ ha)

/-- Whatever is put, no two nodes stand for one file, and every node is one that was put. -/
theorem foldl_put_spec {placed added : List Placed} (h : (placed.map (·.file)).Nodup) :
    ((added.foldl put placed).map (·.file)).Nodup ∧
      ∀ p ∈ added.foldl put placed, p ∈ placed ∨ p ∈ added := by
  induction added generalizing placed with
  | nil => exact ⟨h,fun p hp => .inl hp⟩
  | cons new added ih =>
    obtain ⟨hnodup,hmem⟩ := ih (put_files_nodup new h)
    refine ⟨hnodup,?_⟩
    intro p hp
    rcases hmem p hp with hp | hp
    · rcases mem_put hp with rfl | hp
      · exact .inr List.mem_cons_self
      · exact .inl hp
    · exact .inr (List.mem_cons_of_mem _ hp)

theorem foldl_put_of_nodup {placed added : List Placed}
    (h : ((placed ++ added).map (·.file)).Nodup) : added.foldl put placed = placed ++ added := by
  induction added generalizing placed with
  | nil => simp
  | cons new added ih =>
    have hnew : new.file ∉ placed.map (·.file) := by
      rw [List.map_append, List.map_cons] at h
      exact fun hm => (List.nodup_append.mp h).2.2 _ hm _ List.mem_cons_self rfl
    rw [List.foldl_cons, put_of_not_mem hnew, ih (by simpa using h)]
    simp

theorem mem_placeFrom {used : List String} {files : List Path} {p : Placed}
    (h : p ∈ placeFrom fs root used files) : ∃ file ∈ files, p.file = file.normalize ∧
      p.node = nodeOf file (Source.relativeName fs root file) p.node.id := by
  induction files generalizing used with
  | nil => cases h
  | cons file files ih =>
    rcases List.mem_cons.mp h with rfl | h
    · exact ⟨file,List.mem_cons_self,rfl,rfl⟩
    · obtain ⟨file',hfile,hp⟩ := ih h
      exact ⟨file',List.mem_cons_of_mem _ hfile,hp⟩

theorem place_files_nodup (files : List Path) : ((place fs root files).map (·.file)).Nodup ∧
    ∀ p ∈ place fs root files, p ∈ placeFrom fs root [] files := by
  have hempty : (([] : List Placed).map (·.file)).Nodup := List.nodup_nil
  obtain ⟨hfiles,hmem⟩ := @foldl_put_spec [] (placeFrom fs root [] files) hempty
  exact ⟨hfiles,fun p hp => (hmem p hp).resolve_left List.not_mem_nil⟩

/-- No two of some nodes stand for one file, and no two bear one id. -/
structure Distinct (placed : List Placed) : Prop where
  files : (placed.map (·.file)).Nodup
  ids : (placed.map (·.node.id)).Nodup

theorem Distinct.eq_of_file {placed : List Placed} (h : Distinct placed) {p q : Placed}
    (hp : p ∈ placed) (hq : q ∈ placed) (he : p.file = q.file) : p = q :=
  List.inj_on_of_nodup_map h.files hp hq he

theorem Distinct.eq_of_id {placed : List Placed} (h : Distinct placed) {p q : Placed}
    (hp : p ∈ placed) (hq : q ∈ placed) (he : p.node.id = q.node.id) : p = q :=
  List.inj_on_of_nodup_map h.ids hp hq he

/-- The nodes of a graph are distinct, whatever paths are listed. -/
theorem place_distinct (files : List Path) : Distinct (place fs root files) := by
  obtain ⟨hfiles,hmem⟩ := @place_files_nodup fs root files
  refine ⟨hfiles,(hfiles.of_map _).map_on ?_⟩
  intro p hp q hq hid
  exact List.inj_on_of_nodup_map (placeFrom_ids [] files).1 (hmem p hp) (hmem q hq) hid

theorem place_eq_placeFrom {files : List Path} (h : (files.map Path.normalize).Nodup) :
    place fs root files = placeFrom fs root [] files := by
  rw [place, foldl_put_of_nodup]
  · rfl
  · simpa [placeFrom_files] using h

/-- Files whose paths differ once normalised get one node each, in their order, under distinct ids; the
search for an id ends for each of them at the first candidate that no earlier node has. The files of a
walk differ so, by `Walk.sources_distinct`, and `build_nodes` has their nodes in a built graph. -/
theorem place_of_distinct {files : List Path} (h : (files.map Path.normalize).Nodup) :
    (place fs root files).map (·.file) = files.map Path.normalize ∧
    ((place fs root files).map (·.node.id)).Nodup ∧
    ∀ before placed after, place fs root files = before ++ placed :: after →
      ∃ file, files[before.length]? = some file ∧
        placed.node = nodeOf file (Source.relativeName fs root file) placed.node.id ∧
        FirstFree (before.map (·.node.id)) (baseId (Source.relativeName fs root file))
          (extensionWord file) placed.node.id := by
  have hplace : place fs root files = placeFrom fs root [] files := place_eq_placeFrom h
  refine ⟨?_,(place_distinct files).ids,?_⟩
  · rw [hplace, placeFrom_files]
  · intro before placed after hsplit
    obtain ⟨file,hfile,hnode,n,hid,hfree,hbefore⟩ := placeFrom_node (hplace ▸ hsplit)
    refine ⟨file,hfile,hnode,n,hid,by simpa using hfree,?_⟩
    intro m hm
    simpa using hbefore m hm

/-- Base ids that collide with each other and with ids already given. -/
def collidingFiles : List Path :=
  [Path.mk .root ["p","lib","a.ts"], Path.mk .root ["p","lib","a.tsx"],
    Path.mk .root ["p","lib_a.js"], Path.mk .root ["p","lib_a_ts.js"],
    Path.mk .root ["p","lib_a_tsx_2.ts"]]

theorem place_collidingFiles :
    (collidingFiles.map Path.normalize).Nodup ∧
    (place ⟨[],[]⟩ (Path.mk .root ["p"]) collidingFiles).map (·.file) = collidingFiles ∧
    ((place ⟨[],[]⟩ (Path.mk .root ["p"]) collidingFiles).map (·.node.id)).Nodup := by
  have hdistinct : (collidingFiles.map Path.normalize).Nodup := by decide
  have hnormal : collidingFiles.map Path.normalize = collidingFiles := by decide
  obtain ⟨hfiles,hids,-⟩ := @place_of_distinct ⟨[],[]⟩ (Path.mk .root ["p"]) _ hdistinct
  exact ⟨hdistinct,hfiles.trans hnormal,hids⟩

example : (place ⟨[],[]⟩ (Path.mk .root ["p"]) collidingFiles).map (·.node.id) =
    ["lib_a","lib_a_tsx","lib_a_js","lib_a_ts","lib_a_tsx_2"] := by
  decide +kernel

end WebAtlas.Graph
