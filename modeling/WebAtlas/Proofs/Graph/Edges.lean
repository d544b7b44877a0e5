import WebAtlas.Proofs.Graph.Build
import WebAtlas.Proofs.Repetitions
import WebAtlas.Proofs.Walk.Evaluation

/-! # Edges are the resolved imports

A built graph has an edge exactly where an import of one node's file resolves to the file of another
node. No edge is repeated, and edges stand in the order of their sources and of their imports.
-/
namespace WebAtlas.Graph
variable {fs : FileSystem} {root project : Path} {aliasPrefix : String} {placed : List Placed}

/-- Some local import in the text of `s` resolves to the file of `t`. -/
def Imports (fs : FileSystem) (root : Path) (aliasPrefix : String) (s t : Placed) : Prop :=
  ∃ text, Source.read? fs s.file = some text ∧ ∃ target ∈ Import.localTargets aliasPrefix text,
    Import.resolve fs root s.file aliasPrefix target = some t.file

theorem find?_file_eq_some_iff (hd : Distinct placed) {file : Path} {t : Placed} :
    placed.find? (·.file == file) = some t ↔ t ∈ placed ∧ t.file = file := by
  constructor
  · intro h
    exact ⟨List.mem_of_find?_eq_some h,by simpa using List.find?_some h⟩
  · rintro ⟨ht,rfl⟩
    have hsome : (placed.find? (·.file == t.file)).isSome = true :=
      List.find?_isSome.mpr ⟨t,ht,by simp⟩
    obtain ⟨found,hfound⟩ := Option.isSome_iff_exists.mp hsome
    have hfile : found.file = t.file := by simpa using List.find?_some hfound
    rw [hfound, hd.eq_of_file (List.mem_of_find?_eq_some hfound) ht hfile]

theorem edgeTo?_eq_some_iff (hd : Distinct placed) {s : Placed} {target : String} {e : Edge} :
    edgeTo? fs root aliasPrefix placed s target = some e ↔ ∃ t ∈ placed,
      Import.resolve fs root s.file aliasPrefix target = some t.file ∧ t.node.id ≠ s.node.id ∧
      e = ⟨s.node.id,t.node.id⟩ := by
  unfold edgeTo?
  constructor
  · intro h
    obtain ⟨file,hfile,hfound⟩ := Option.bind_eq_some_iff.mp h
    obtain ⟨t,ht,hedge⟩ := Option.bind_eq_some_iff.mp hfound
    obtain ⟨hmem,rfl⟩ := (find?_file_eq_some_iff hd).mp ht
    split at hedge
    · cases hedge
    · rename_i hid
      exact ⟨t,hmem,hfile,hid,(Option.some.inj hedge).symm⟩
  · rintro ⟨t,ht,hfile,hid,rfl⟩
    have hfound := (find?_file_eq_some_iff hd).mpr ⟨ht,rfl⟩
    simp [hfile, hfound, hid]

theorem edgeTo?_eq_some_pair_iff (hd : Distinct placed) {s t : Placed} (ht : t ∈ placed)
    {target : String} : edgeTo? fs root aliasPrefix placed s target = some ⟨s.node.id,t.node.id⟩ ↔
      Import.resolve fs root s.file aliasPrefix target = some t.file ∧ t.node.id ≠ s.node.id := by
  rw [edgeTo?_eq_some_iff hd]
  constructor
  · rintro ⟨t',ht',hfile,hid,he⟩
    obtain rfl := hd.eq_of_id ht ht' (Edge.mk.inj he).2
    exact ⟨hfile,hid⟩
  · rintro ⟨hfile,hid⟩
    exact ⟨t,ht,hfile,hid,rfl⟩

theorem mem_edgesFrom (hd : Distinct placed) {s : Placed} {e : Edge}
    (h : e ∈ edgesFrom fs root aliasPrefix placed s) :
    ∃ t ∈ placed, t.node.id ≠ s.node.id ∧ e = ⟨s.node.id,t.node.id⟩ := by
  obtain ⟨target,-,he⟩ := List.mem_filterMap.mp h
  obtain ⟨t,ht,-,hid,rfl⟩ := (edgeTo?_eq_some_iff hd).mp he
  exact ⟨t,ht,hid,rfl⟩

theorem imports_iff {s t : Placed} : Imports fs root aliasPrefix s t ↔
    ∃ target ∈ imports fs aliasPrefix s,
      Import.resolve fs root s.file aliasPrefix target = some t.file := by
  unfold Imports imports
  cases Source.read? fs s.file <;> simp

/-- Between two nodes there is an edge exactly when they differ and the one imports the other. -/
theorem mem_edges_iff (hd : Distinct placed) {s t : Placed} (hs : s ∈ placed) (ht : t ∈ placed) :
    ⟨s.node.id,t.node.id⟩ ∈ edges fs root aliasPrefix placed ↔
      s.node ≠ t.node ∧ Imports fs root aliasPrefix s t := by
  rw [edges, List.mem_eraseDups, imports_iff]
  constructor
  · intro h
    obtain ⟨s',hs',he⟩ := List.mem_flatMap.mp h
    obtain ⟨target,htarget,hedge⟩ := List.mem_filterMap.mp he
    obtain ⟨_,-,-,-,hsame⟩ := (edgeTo?_eq_some_iff hd).mp hedge
    obtain rfl := hd.eq_of_id hs hs' (Edge.mk.inj hsame).1
    obtain ⟨hfile,hid⟩ := (edgeTo?_eq_some_pair_iff hd ht).mp hedge
    exact ⟨fun hn => hid (by rw [hn]),target,htarget,hfile⟩
  · rintro ⟨hne,target,htarget,hfile⟩
    have hid : t.node.id ≠ s.node.id := by
      intro h
      exact hne (by rw [hd.eq_of_id ht hs h])
    exact List.mem_flatMap.mpr ⟨s,hs,List.mem_filterMap.mpr
      ⟨target,htarget,(edgeTo?_eq_some_pair_iff hd ht).mpr ⟨hfile,hid⟩⟩⟩

def ring : FileSystem where
  entries := [(["p"],.directory),
    (["p","a.ts"],.file (bytesOf "import './b'; import './a'; import '@/b.ts'")),
    (["p","b.ts"],.file (bytesOf "import '@/a'"))]
  workingDirectory := []
where
  bytesOf (text : String) : List UInt8 := text.toList.map fun c => c.toNat.toUInt8

def ringRoot : Path := Path.mk .root ["p"]

def ringFiles : List Path := [ringRoot.child "a.ts",ringRoot.child "b.ts"]

def ringNodes : List Node := [⟨"a","a",".",.other⟩,⟨"b","b",".",.other⟩]

theorem ring_build : (build ring {} "@/" 10 "" (Path.parse "/p")).outcome =
    (.ok ⟨ringNodes,[⟨"a","b"⟩,⟨"b","a"⟩],clusters ringNodes,"/p",""⟩,[]) := by
  have hfs : ring.WellFormed := FileSystem.wellFormed_of_getLast? (by decide) (by decide)
  have hwalk : ring.walk ({} : Settings).walkPolicy ringRoot = .ok (ringFiles.map .file) := by
    rw [hfs.walk_computed]
    rfl
  have hsources : (Walk.sources ring ({} : Settings).walkPolicy 10 ringRoot).outcome =
      (.ok ringFiles,[]) := by
    rw [Walk.sources_outcome hwalk]
    rfl
  have hnodes : (place ring ringRoot ringFiles).map (·.node) = ringNodes := by decide +kernel
  have hedges : edges ring ringRoot "@/" (place ring ringRoot ringFiles) =
      [⟨"a","b"⟩,⟨"b","a"⟩] := by decide +kernel
  exact build_eq_ok_iff.mpr
    ⟨ringRoot,ringRoot,ringFiles,rfl,rfl,hsources,by rw [hnodes, hedges]; rfl⟩

end WebAtlas.Graph
