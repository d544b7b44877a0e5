import WebAtlas.Walk
import WebAtlas.Proofs.Path.Lexical
import WebAtlas.Proofs.FileSystem.WellFormed

/-! # The contents of a directory

What a walk finds in a directory that it reaches by some path: the entries whose names lead on from
the directory itself, unless looking them up by that path is refused for its length or its links.
-/
namespace WebAtlas.FileSystem
variable {fs : FileSystem} {ignored : List String} {dir : Path} {loc : Location} {name : String}

/-- No look-up that a walk makes of an entry of this directory is refused while the entry leads
anywhere: its path is short enough and follows few enough links. -/
def Unrefused (fs : FileSystem) (ignored : List String) (dir : Path) (loc : Location) : Prop :=
  ∀ name listed, (name,listed) ∈ fs.listing loc → listed.isFile = false →
    (listed.isDirectory = true → name ∉ ignored) →
    ∀ target entry links, fs.Leads (fs.origin dir) (dir.segments ++ [name]) target entry links →
      (dir.child name).text.utf8ByteSize ≤ pathLimit ∧ links.length ≤ linkLimit

theorem unrefused_of_status (h : ∀ e ∈ fs.listing loc, e.2.isFile = false →
    (fs.status (dir.child e.1)).toOption.isSome = true) : fs.Unrefused ignored dir loc := by
  intro name listed hm hfile _ target entry links hl
  cases hs : fs.status (dir.child name) with
  | error fault => simpa [hs, Except.toOption] using h _ hm hfile
  | ok found =>
    obtain ⟨htext,links',hlinks,hl'⟩ := status_eq_ok_iff.mp hs
    obtain ⟨-,-,rfl⟩ := hl.deterministic hl'
    exact ⟨htext,hlinks⟩

theorem sortedListing_of_pairwise (h : (fs.listing loc).Pairwise (·.1 ≤ ·.1)) :
    fs.sortedListing loc = fs.listing loc :=
  List.mergeSort_of_pairwise (h.imp fun hle => decide_eq_true hle)

theorem contents_of_pairwise {found : List (String × Entry)}
    (h : (fs.listing loc).Pairwise (·.1 ≤ ·.1))
    (hfound : ((fs.listing loc).filterMap fun (name,entry) =>
      (fs.target? (dir.child name) entry).map (name,·)) = found) : fs.contents dir loc = found := by
  rw [contents, sortedListing_of_pairwise h, hfound]

/-- Of two entries the second is left out when it leads nowhere. -/
theorem contents_of_lost {other : String} {entry lost found : Entry}
    (hl : fs.listing loc = [(name,entry),(other,lost)]) (hle : name ≤ other)
    (hfound : fs.target? (dir.child name) entry = some found)
    (hlost : fs.target? (dir.child other) lost = none) : fs.contents dir loc = [(name,found)] := by
  have hsorted : (fs.listing loc).Pairwise (·.1 ≤ ·.1) := by
    rw [hl]
    simpa using hle
  refine contents_of_pairwise hsorted ?_
  rw [hl]
  simp [hfound, hlost]

theorem mem_contents {entry : Entry} : (name,entry) ∈ fs.contents dir loc ↔
    ∃ listed, (name,listed) ∈ fs.listing loc ∧ fs.target? (dir.child name) listed = some entry := by
  unfold contents
  rw [List.mem_filterMap]
  constructor
  · rintro ⟨⟨n,listed⟩,hm,h⟩
    obtain ⟨target,htarget,heq⟩ := Option.map_eq_some_iff.mp h
    cases heq
    exact ⟨listed,(List.mergeSort_perm ..).mem_iff.mp hm,htarget⟩
  · rintro ⟨listed,hm,htarget⟩
    exact ⟨(name,listed),(List.mergeSort_perm ..).mem_iff.mpr hm,Option.map_eq_some_iff.mpr
      ⟨entry,htarget,rfl⟩⟩

theorem WellFormed.contents_nodup (h : fs.WellFormed) (dir : Path) (loc : Location) :
    ((fs.contents dir loc).map (·.1)).Nodup := by
  have hsorted : ((fs.sortedListing loc).map (·.1)).Nodup :=
    ((List.mergeSort_perm ..).map _).nodup_iff.mpr (h.listing_nodup loc)
  refine List.pairwise_map.mpr ((List.pairwise_map.mp hsorted).filterMap _ ?_)
  rintro ⟨n,listed⟩ ⟨n',listed'⟩ hne found hf found' hf' heq
  obtain ⟨_,-,rfl⟩ := Option.map_eq_some_iff.mp hf
  obtain ⟨_,-,rfl⟩ := Option.map_eq_some_iff.mp hf'
  exact hne heq

theorem isFile_iff {entry : Entry} : entry.isFile = true ↔ ∃ bytes, entry = .file bytes := by
  cases entry <;> simp [Entry.isFile]

theorem isDirectory_iff {entry : Entry} : entry.isDirectory = true ↔ entry = .directory := by
  cases entry <;> simp [Entry.isDirectory]

theorem mem_ownFiles {p : Path} : p ∈ fs.ownFiles dir loc ↔
    ∃ name bytes, (name,.file bytes) ∈ fs.contents dir loc ∧ p = dir.child name := by
  unfold ownFiles
  rw [List.mem_map]
  constructor
  · rintro ⟨⟨n,entry⟩,hm,rfl⟩
    obtain ⟨hm,hfile⟩ := List.mem_filter.mp hm
    obtain ⟨bytes,rfl⟩ := isFile_iff.mp hfile
    exact ⟨n,bytes,hm,rfl⟩
  · rintro ⟨n,bytes,hm,rfl⟩
    exact ⟨_,List.mem_filter.mpr ⟨hm,rfl⟩,rfl⟩

theorem mem_ownDirectories {p : Path} : p ∈ fs.ownDirectories ignored dir loc ↔
    ∃ name, (name,.directory) ∈ fs.contents dir loc ∧ name ∉ ignored ∧ p = dir.child name := by
  unfold ownDirectories
  rw [List.mem_map]
  constructor
  · rintro ⟨⟨n,entry⟩,hm,rfl⟩
    obtain ⟨hm,h⟩ := List.mem_filter.mp hm
    obtain ⟨hd,hn⟩ := Bool.and_eq_true_iff.mp h
    obtain rfl := isDirectory_iff.mp hd
    exact ⟨n,hm,by simpa using hn,rfl⟩
  · rintro ⟨n,hm,hn,rfl⟩
    exact ⟨_,List.mem_filter.mpr ⟨hm,by simpa [Entry.isDirectory] using hn⟩,rfl⟩

theorem WellFormed.ownFiles_nodup (h : fs.WellFormed) (dir : Path) (loc : Location) :
    (fs.ownFiles dir loc).Nodup := by
  have hnames : ((fs.contents dir loc).filter (·.2.isFile)).Pairwise (·.1 ≠ ·.1) :=
    (List.pairwise_map.mp (h.contents_nodup dir loc)).filter _
  refine List.pairwise_map.mpr (hnames.imp ?_)
  intro a b hne heq
  exact hne (Path.child_injective heq).2

/-- What a path below a directory leads to is what its last name leads to from the directory. -/
theorem leads_of_status_child {target : Location} {entry : Entry}
    (hs : fs.status dir = .ok (loc,.directory))
    (h : fs.status (dir.child name) = .ok (target,entry)) :
    ∃ links, fs.Leads loc [name] target entry links := by
  obtain ⟨-,before,-,hdir⟩ := status_eq_ok_iff.mp hs
  obtain ⟨-,links,-,hl⟩ := status_eq_ok_iff.mp h
  obtain ⟨mid,_,later,hmid,hlater,-⟩ := Leads.split hl (List.cons_ne_nil name [])
  obtain ⟨rfl,-,-⟩ := hmid.deterministic hdir
  exact ⟨later,hlater⟩

theorem status_child_of_leads {target : Location} {listed entry : Entry} {links : List Location}
    (hs : fs.status dir = .ok (loc,.directory)) (hu : fs.Unrefused ignored dir loc)
    (hm : (name,listed) ∈ fs.listing loc) (hfile : listed.isFile = false)
    (hn : listed.isDirectory = true → name ∉ ignored)
    (h : fs.Leads loc [name] target entry links) :
    fs.status (dir.child name) = .ok (target,entry) := by
  obtain ⟨-,before,-,hdir⟩ := status_eq_ok_iff.mp hs
  have hl := hdir.append rfl h
  obtain ⟨htext,hlinks⟩ := hu name listed hm hfile hn target entry _ hl
  exact status_eq_ok_iff.mpr ⟨htext,_,hlinks,hl⟩

/-- What a walk takes an entry for is what the entry leads to. -/
theorem WellFormed.leads_of_mem_contents (hfs : fs.WellFormed) {entry : Entry}
    (hs : fs.status dir = .ok (loc,.directory)) (h : (name,entry) ∈ fs.contents dir loc) :
    ∃ listed target links, (name,listed) ∈ fs.listing loc ∧
      fs.Leads loc [name] target entry links := by
  obtain ⟨listed,hm,htarget⟩ := mem_contents.mp h
  obtain ⟨hname,hentry⟩ := hfs.listed hm
  cases listed with
  | directory =>
    cases htarget
    exact ⟨_,_,_,hm,.enter hname hentry (.here _)⟩
  | file bytes =>
    cases htarget
    exact ⟨_,_,_,hm,.file hname hentry⟩
  | link text =>
    unfold target? at htarget
    cases hstatus : fs.status (dir.child name) with
    | error fault => simp [hstatus, Except.toOption] at htarget
    | ok found =>
      obtain ⟨target,e⟩ := found
      rw [hstatus] at htarget
      cases htarget
      obtain ⟨links,hl⟩ := leads_of_status_child hs hstatus
      exact ⟨_,_,_,hm,hl⟩

theorem WellFormed.mem_contents_of_leads (hfs : fs.WellFormed) {target : Location}
    {listed entry : Entry} {links : List Location} (hs : fs.status dir = .ok (loc,.directory))
    (hu : fs.Unrefused ignored dir loc) (hm : (name,listed) ∈ fs.listing loc)
    (h : fs.Leads loc [name] target entry links) : (name,entry) ∈ fs.contents dir loc := by
  obtain ⟨hname,hentry⟩ := hfs.listed hm
  refine mem_contents.mpr ⟨listed,hm,?_⟩
  cases listed with
  | directory =>
    obtain ⟨-,rfl,-⟩ := h.deterministic (.enter hname hentry (.here _))
    rfl
  | file bytes =>
    obtain ⟨-,rfl,-⟩ := h.deterministic (.file hname hentry)
    rfl
  | link text =>
    have hstatus := status_child_of_leads hs hu hm rfl (fun hd => by cases hd) h
    rw [target?, hstatus]
    rfl

end WebAtlas.FileSystem
