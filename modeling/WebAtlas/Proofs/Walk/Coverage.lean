import WebAtlas.Proofs.Walk.Course
import Mathlib.Data.List.Infix

/-! # What a walk covers

A walk ends, however links run in circles: it enters each location at most once. When no directory
lies too deep and no look-up is refused for its length or its links, the directories entered are
exactly those reached through names not ignored, and each gives all of its files once.
-/
namespace WebAtlas.FileSystem
variable {fs : FileSystem} {ignored : List String} {levels : Nat} {entered : List Location}
  {dirs : List Path} {visits : List Visit} {steps : List Step} {origin loc : Location} {start : Path}

/-- The real directories that can be got to through entries with names not ignored. -/
inductive Reaches (fs : FileSystem) (ignored : List String) (origin : Location) : Location → Prop
  | start : Reaches fs ignored origin origin
  | step {loc next : Location} {name : String} {listed : Entry} {links : List Location}
      (h : Reaches fs ignored origin loc) (hm : (name,listed) ∈ fs.listing loc)
      (hn : name ∉ ignored) (hl : fs.Leads loc [name] next .directory links) :
      Reaches fs ignored origin next

/-- The locations of the entries and of all that lies above them. -/
def locations (fs : FileSystem) : List Location :=
  ((fs.workingDirectory :: fs.entries.map (·.1)).flatMap List.inits).eraseDups

theorem mem_locations : loc ∈ fs.locations ↔
    loc <+: fs.workingDirectory ∨ ∃ e ∈ fs.entries, loc <+: e.1 := by
  simp [locations, List.mem_eraseDups, List.mem_inits]

theorem locations_closed {dir : Location} (h : loc ∈ fs.locations) (hd : dir <+: loc) :
    dir ∈ fs.locations := by
  rcases mem_locations.mp h with h | ⟨e,he,h⟩
  · exact mem_locations.mpr (.inl (hd.trans h))
  · exact mem_locations.mpr (.inr ⟨e,he,hd.trans h⟩)

theorem nil_mem_locations : [] ∈ fs.locations := mem_locations.mpr (.inl List.nil_prefix)

theorem mem_locations_of_entry {dir : Location} {name : String} {entry : Entry}
    (h : fs.entry? (dir ++ [name]) = some entry) : dir ++ [name] ∈ fs.locations :=
  mem_locations.mpr (.inr ⟨_,mem_entries_of_eq h (by simp),List.prefix_rfl⟩)

theorem Leads.mem_locations {dir : Location} {pieces : List String} {entry : Entry}
    {links : List Location} (h : fs.Leads dir pieces loc entry links) (hd : dir ∈ fs.locations) :
    loc ∈ fs.locations := by
  induction h with
  | here _ => exact hd
  | void _ _ ih => exact ih hd
  | up _ ih => exact ih (locations_closed hd (List.dropLast_prefix _))
  | enter _ he _ ih => exact ih (mem_locations_of_entry he)
  | file _ he => exact mem_locations_of_entry he
  | link _ _ _ ih =>
    apply ih
    unfold linkOrigin
    split
    · exact nil_mem_locations
    · exact hd

theorem mem_locations_of_status {p : Path} {entry : Entry} (h : fs.status p = .ok (loc,entry)) :
    loc ∈ fs.locations := by
  obtain ⟨-,_,-,hl⟩ := status_eq_ok_iff.mp h
  apply hl.mem_locations
  unfold FileSystem.origin
  split
  · exact nil_mem_locations
  · exact mem_locations.mpr (.inl List.prefix_rfl)

theorem Tour.length_le (h : Tour fs ignored levels [] dirs visits steps) :
    steps.length ≤ fs.locations.length := by
  have hsub : steps.map (·.2) ⊆ fs.locations := by
    intro loc hloc
    obtain ⟨s,hmem,rfl⟩ := List.mem_map.mp hloc
    exact mem_locations_of_status (h.located s hmem)
  simpa using (List.subperm_of_subset h.locations_nodup hsub).length_le

/-- However deep links lead, more levels than locations are enough. -/
theorem Tour.not_tooDeep (h : Tour fs ignored levels [] dirs visits steps)
    (hlevels : fs.locations.length < levels) (dir : Path) : .tooDeep dir ∉ visits := by
  intro hdeep
  have hle := h.levels_add_length_le (fun _ _ h => mem_locations_of_status h) List.nodup_nil
    (List.nil_subset _) hdeep
  rw [List.length_nil] at hle
  omega

/-- A file visited lies below the start by listed names, none of a directory ignored. -/
theorem Tour.file_named {P : String → Prop} (h : Tour fs ignored levels [] [start] visits steps)
    (hP : ∀ loc name entry, (name,entry) ∈ fs.listing loc → P name) :
    ∀ p ∈ visits.filterMap Visit.file?, ∃ names name, p = start.descend (names ++ [name]) ∧
      (∀ n ∈ names, n ∉ ignored ∧ P n) ∧ P name := by
  intro p hp
  rw [h.files] at hp
  obtain ⟨s,hmem,hp⟩ := List.mem_flatMap.mp hp
  obtain ⟨name,_,hc,rfl⟩ := mem_ownFiles.mp hp
  obtain ⟨_,hm,-⟩ := mem_contents.mp hc
  obtain ⟨dir,hdir,names,heq,hnames⟩ := h.named hP s hmem
  rw [List.mem_singleton.mp hdir] at heq
  exact ⟨names,name,by simp [heq, Path.descend, Path.child],hnames,hP _ _ _ hm⟩

theorem WellFormed.file_named (hfs : fs.WellFormed)
    (h : Tour fs ignored levels [] [start] visits steps) :
    ∀ p ∈ visits.filterMap Visit.file?, ∃ names name, p = start.descend (names ++ [name]) ∧
      (∀ n ∈ names, n ∉ ignored ∧ Names n) ∧ Names name :=
  h.file_named fun _ _ _ hm => (hfs.listed hm).1

theorem Tour.reaches (h : Tour fs ignored levels entered dirs visits steps)
    (hdirs : ∀ dir ∈ dirs, ∀ loc, fs.status dir = .ok (loc,.directory) →
      Reaches fs ignored origin loc) : ∀ s ∈ steps, Reaches fs ignored origin s.2 := by
  induction h with
  | done => exact fun s hs => absurd hs List.not_mem_nil
  | tooDeep _ ih | passOver _ _ ih => exact ih fun d hd => hdirs d (List.mem_cons_of_mem _ hd)
  | @enter _ _ dir loc _ _ _ _ _ hs _ _ _ ihBelow ihBeside =>
    have hloc : Reaches fs ignored origin loc := hdirs dir List.mem_cons_self loc hs
    intro s hmem
    rcases List.mem_append.mp hmem with hmem | hmem
    · rcases List.mem_cons.mp hmem with rfl | hmem
      · exact hloc
      · refine ihBelow ?_ s hmem
        intro sub hsub next hnext
        obtain ⟨name,hc,hn,rfl⟩ := mem_ownDirectories.mp hsub
        obtain ⟨listed,hm,-⟩ := mem_contents.mp hc
        obtain ⟨links,hl⟩ := leads_of_status_child hs hnext
        exact hloc.step hm hn hl
    · exact ihBeside (fun d hd => hdirs d (List.mem_cons_of_mem _ hd)) s hmem

theorem WellFormed.isFile_of_leads (hfs : fs.WellFormed) {name : String} {listed : Entry}
    {next : Location} {links : List Location} (hm : (name,listed) ∈ fs.listing loc)
    (hl : fs.Leads loc [name] next .directory links) : listed.isFile = false := by
  obtain ⟨hname,hentry⟩ := hfs.listed hm
  cases listed with
  | directory | link target => rfl
  | file bytes =>
    obtain ⟨-,h,-⟩ := hl.deterministic (.file hname hentry)
    cases h

/-- The set of directories entered is closed: what is reached from it lies in it. -/
theorem WellFormed.mem_of_reaches (hfs : fs.WellFormed)
    (h : Tour fs ignored levels [] [start] visits steps)
    (hs : fs.status start = .ok (origin,.directory)) (hdeep : ∀ dir, .tooDeep dir ∉ visits)
    (hu : ∀ s ∈ steps, fs.Unrefused ignored s.1 s.2) (hr : Reaches fs ignored origin loc) :
    loc ∈ steps.map (·.2) := by
  have hafter : ∀ l, l ∈ enteredAfter [] steps → l ∈ steps.map (·.2) := by
    intro l hl
    exact (mem_enteredAfter.mp hl).resolve_right List.not_mem_nil
  obtain ⟨hstart,hclosed⟩ := h.covers hdeep
  induction hr with
  | start => exact hafter _ (hstart start List.mem_cons_self origin hs)
  | step _ hm hn hl ih =>
    obtain ⟨s,hmem,rfl⟩ := List.mem_map.mp ih
    have hlocated := h.located s hmem
    have hcontents := hfs.mem_contents_of_leads hlocated (hu s hmem) hm hl
    have hstatus := status_child_of_leads hlocated (hu s hmem) hm (hfs.isFile_of_leads hm hl)
      (fun _ => hn) hl
    exact hafter _ (hclosed s hmem _ (mem_ownDirectories.mpr ⟨_,hcontents,hn,rfl⟩) _ hstatus)

theorem WellFormed.mem_ownFiles_iff (hfs : fs.WellFormed) {dir p : Path}
    (hs : fs.status dir = .ok (loc,.directory)) (hu : fs.Unrefused ignored dir loc) :
    p ∈ fs.ownFiles dir loc ↔ ∃ name listed target bytes links, (name,listed) ∈ fs.listing loc ∧
      fs.Leads loc [name] target (.file bytes) links ∧ p = dir.child name := by
  rw [mem_ownFiles]
  constructor
  · rintro ⟨name,bytes,hc,rfl⟩
    obtain ⟨listed,target,links,hm,hl⟩ := hfs.leads_of_mem_contents hs hc
    exact ⟨name,listed,target,bytes,links,hm,hl,rfl⟩
  · rintro ⟨name,listed,target,bytes,links,hm,hl,rfl⟩
    exact ⟨name,bytes,hfs.mem_contents_of_leads hs hu hm hl,rfl⟩

theorem WellFormed.mem_files_iff (hfs : fs.WellFormed)
    (h : Tour fs ignored levels entered dirs visits steps)
    (hu : ∀ s ∈ steps, fs.Unrefused ignored s.1 s.2) {p : Path} :
    p ∈ visits.filterMap Visit.file? ↔ ∃ s ∈ steps, ∃ name listed target bytes links,
      (name,listed) ∈ fs.listing s.2 ∧ fs.Leads s.2 [name] target (.file bytes) links ∧
      p = s.1.child name := by
  rw [h.files, List.mem_flatMap]
  constructor
  · rintro ⟨s,hmem,hp⟩
    exact ⟨s,hmem,(hfs.mem_ownFiles_iff (h.located s hmem) (hu s hmem)).mp hp⟩
  · rintro ⟨s,hmem,hp⟩
    exact ⟨s,hmem,(hfs.mem_ownFiles_iff (h.located s hmem) (hu s hmem)).mpr hp⟩

theorem WellFormed.files_nodup (hfs : fs.WellFormed)
    (h : Tour fs ignored levels [] dirs visits steps) :
    (visits.filterMap Visit.file?).Nodup := by
  rw [h.files, List.nodup_flatMap]
  refine ⟨fun s _ => hfs.ownFiles_nodup s.1 s.2,
    (List.pairwise_map.mp h.locations_nodup).imp_of_mem ?_⟩
  intro s s' hs hs' hne p hp hp'
  obtain ⟨name,_,-,rfl⟩ := mem_ownFiles.mp hp
  obtain ⟨name',_,-,heq⟩ := mem_ownFiles.mp hp'
  have hlocated := h.located s hs
  rw [(Path.child_injective heq).1, h.located s' hs'] at hlocated
  exact hne (Prod.mk.inj (Except.ok.inj hlocated)).1.symm

end WebAtlas.FileSystem

namespace WebAtlas.Walk
open FileSystem
variable {fs : FileSystem} {policy : WalkPolicy} {start : Path}

namespace Goes
variable {room : Nat} {course : Course} {visits : List Visit} {steps : List Step}
  (h : Goes fs policy room start course visits steps)
include h

/-- The stack does not overflow when it has room for all locations. -/
theorem not_overflows (hroom : fs.locations.length < room) : course.overflows = false := by
  by_contra ho
  obtain ⟨hlevels,dir,hdeep⟩ := h.overflows.mp (Bool.not_eq_false _ ▸ ho)
  exact h.tour.not_tooDeep (by omega) dir hdeep

theorem not_tooDeep (hlevels : fs.locations.length < levelsOf policy.maxDepth) (dir : Path) :
    .tooDeep dir ∉ course.visits := by
  cases ho : course.overflows with
  | true => exact (h.broken ho).1 dir
  | false =>
    rw [h.whole ho]
    intro hdeep
    rcases Nat.lt_or_ge (levelsOf policy.maxDepth) room with hroom | hroom
    · exact h.tour.not_tooDeep (by omega) dir hdeep
    · exact Bool.false_ne_true (ho.symm.trans (h.overflows.mpr ⟨hroom,dir,hdeep⟩))

theorem files_initial : course.files <+: steps.flatMap fun s => fs.ownFiles s.1 s.2 := by
  rw [← h.tour.files]
  exact h.initial.filterMap _

end Goes

/-- A walk ends, by a stack overflow only where a directory lies deeper than the stack has room for.
It enters no real directory twice and yields no path twice or below an ignored name, and with more
levels than locations it reports nothing as too deep. A walk that does not overflow the stack and gives
no warning enters exactly the directories reached and yields exactly their files, where no look-up is
refused. -/
theorem files_cover_tree {origin : Location} (hfs : fs.WellFormed)
    (hs : fs.status start = .ok (origin,.directory)) (room : Nat) :
    ∃ course visits steps log, Goes fs policy room start course visits steps ∧
      fs.visit policy.ignored (min (levelsOf policy.maxDepth) room) [] start =
        (visits,(steps.map (·.2)).reverse) ∧
      (filesOn fs policy room (fun _ => true) start).outcome =
        (if course.overflows then .error .stackOverflow else .ok course.files,log) ∧
      (course.overflows = true → room ≤ levelsOf policy.maxDepth ∧
        ∃ names, .tooDeep (start.descend names) ∈ visits ∧ names.length = room ∧
          ∀ n ∈ names, n ∉ policy.ignored) ∧
      (fs.locations.length < room → course.overflows = false) ∧
      (∀ s ∈ steps, fs.status s.1 = .ok (s.2,.directory) ∧ Reaches fs policy.ignored origin s.2) ∧
      (steps.map (·.2)).Nodup ∧ steps.length ≤ fs.locations.length ∧
      (fs.locations.length < levelsOf policy.maxDepth → log = []) ∧
      course.files <+: (steps.flatMap fun s => fs.ownFiles s.1 s.2) ∧ course.files.Nodup ∧
      (∀ p ∈ course.files, ∃ names name, p = start.descend (names ++ [name]) ∧
        ∀ n ∈ names, n ∉ policy.ignored) ∧
      (course.overflows = false →
        course.files = (steps.flatMap fun s => fs.ownFiles s.1 s.2) ∧
        (log = [] → (∀ s ∈ steps, fs.Unrefused policy.ignored s.1 s.2) →
          (∀ loc, loc ∈ steps.map (·.2) ↔ Reaches fs policy.ignored origin loc) ∧
          ∀ p, p ∈ course.files ↔ ∃ s ∈ steps, ∃ name listed target bytes links,
            (name,listed) ∈ fs.listing s.2 ∧ fs.Leads s.2 [name] target (.file bytes) links ∧
            p = s.1.child name)) := by
  obtain ⟨course,visits,steps,hgoes,hvisit⟩ := goes_of_status hs policy room
  have htour := hgoes.tour
  have hreach : ∀ s ∈ steps, Reaches fs policy.ignored origin s.2 := by
    refine htour.reaches ?_
    intro dir hd loc hloc
    rw [List.mem_singleton.mp hd, hs] at hloc
    cases hloc
    exact .start
  have hmet : course.files.Sublist (visits.filterMap Visit.file?) :=
    hgoes.initial.sublist.filterMap _
  refine ⟨course,visits,steps,course.visits.filterMap depthWarning?,hgoes,hvisit,
    by rw [filesOn_outcome hgoes.run, List.filter_true],hgoes.exists_deep,hgoes.not_overflows,
    fun s hmem => ⟨htour.located s hmem,hreach s hmem⟩,htour.locations_nodup,htour.length_le,
    fun hlevels => depthWarnings_eq_nil_iff.mpr (hgoes.not_tooDeep hlevels),hgoes.files_initial,
    hmet.nodup (hfs.files_nodup htour),?_,?_⟩
  · intro p hp
    obtain ⟨names,name,heq,hnames,-⟩ := hfs.file_named htour p (hmet.subset hp)
    exact ⟨names,name,heq,fun n hn => (hnames n hn).1⟩
  intro ho
  have hwhole := hgoes.whole ho
  have hfiles : course.files = visits.filterMap Visit.file? := by rw [Course.files, hwhole]
  refine ⟨hfiles.trans htour.files,fun hempty hu => ⟨fun loc => ⟨?_,?_⟩,?_⟩⟩
  · intro hloc
    obtain ⟨s,hmem,rfl⟩ := List.mem_map.mp hloc
    exact hreach s hmem
  · rw [hwhole] at hempty
    exact hfs.mem_of_reaches htour hs (depthWarnings_eq_nil_iff.mp hempty) hu
  · rw [hfiles]
    exact fun p => hfs.mem_files_iff htour hu

def defaultPolicy : WalkPolicy := ({} : Settings).walkPolicy

def projectDirectory : Path := Path.mk .root ["p"]

/-- A directory `a` that is also linked as `b` and, under an ignored name, as `dist`; a link in it
leads back up. -/
def knot : FileSystem where
  entries := [(["p"],.directory), (["p","a"],.directory), (["p","a","f.ts"],.file []),
    (["p","a","up"],.link ".."), (["p","b"],.link "a"), (["p","dist"],.link "a")]
  workingDirectory := []

theorem knot_tour : Tour knot defaultPolicy.ignored 65 [] [projectDirectory]
    [.file (projectDirectory.descend ["a","f.ts"])]
    [(projectDirectory,["p"]), (projectDirectory.child "a",["p","a"])] := by
  have htop : knot.contents projectDirectory ["p"] =
      [("a",.directory), ("b",.directory), ("dist",.directory)] :=
    contents_of_pairwise (by decide) rfl
  have hinner : knot.contents (projectDirectory.child "a") ["p","a"] =
      [("f.ts",.file []), ("up",.directory)] := contents_of_pairwise (by decide) rfl
  have hup : Tour knot defaultPolicy.ignored 63 [["p","a"],["p"]]
      [projectDirectory.descend ["a","up"]] [] [] := by
    refine .passOver ?_ .done
    intro loc hloc
    cases hloc
    decide
  have hb : Tour knot defaultPolicy.ignored 64 [["p","a"],["p"]] [projectDirectory.child "b"]
      [] [] := by
    refine .passOver ?_ .done
    intro loc hloc
    cases hloc
    decide
  have hstatus : knot.status projectDirectory = .ok (["p"],.directory) := rfl
  have hstatusInner : knot.status (projectDirectory.child "a") = .ok (["p","a"],.directory) := rfl
  have ha := Tour.enter_contents hstatusInner (by decide : ["p","a"] ∉ [["p"]]) hinner hup hb
  exact .enter_contents hstatus List.not_mem_nil htop ha .done

/-- In a knot of links each directory is entered once, and so the one file is yielded once. -/
theorem files_knot : knot.WellFormed ∧ knot.status projectDirectory = .ok (["p"],.directory) ∧
    (filesOn knot defaultPolicy 900 (fun _ => true) projectDirectory).outcome =
      (.ok [projectDirectory.descend ["a","f.ts"]],[]) ∧
    ∀ loc, loc ∈ [["p"],["p","a"]] ↔ Reaches knot defaultPolicy.ignored ["p"] loc := by
  have hfs : knot.WellFormed := wellFormed_of_getLast? (by decide) (by decide)
  have hs : knot.status projectDirectory = .ok (["p"],.directory) := rfl
  obtain ⟨course,visits,steps,log,hgoes,-,hrun,-,hroom,-,-,-,hlog,-,-,-,hcover⟩ :=
    @files_cover_tree knot defaultPolicy projectDirectory ["p"] hfs hs 900
  obtain ⟨rfl,rfl⟩ := hgoes.tour.unique knot_tour
  have ho := hroom (by decide)
  obtain rfl := hlog (by decide)
  obtain ⟨hyielded,hcover⟩ := hcover ho
  have hu : ∀ s ∈ [(projectDirectory,["p"]), (projectDirectory.child "a",["p","a"])],
      knot.Unrefused defaultPolicy.ignored s.1 s.2 := by
    intro s hmem
    apply unrefused_of_status
    rcases List.mem_cons.mp hmem with rfl | hmem
    · decide
    · obtain rfl := List.mem_singleton.mp hmem
      decide
  refine ⟨hfs,hs,?_,(hcover rfl hu).1⟩
  rw [hrun, ho, hyielded, ← knot_tour.files]
  rfl

/-- A directory that links to itself as `l` and to another directory `q` as `k`. -/
def selfLinked : FileSystem where
  entries := [(["p"],.directory), (["p","k"],.link "/q"), (["p","l"],.link "."), (["q"],.directory),
    (["q","f.ts"],.file [])]
  workingDirectory := []

/-- The directory by a path that follows as many links as a look-up may. -/
def longWay : Path := projectDirectory.descend (List.replicate 40 "l")

/-- By a path on which no more links are followed a walk hides, without a warning, a directory that
is reached. -/
theorem files_longWay : selfLinked.WellFormed ∧
    selfLinked.status longWay = .ok (["p"],.directory) ∧
    (files selfLinked defaultPolicy (fun _ => true) longWay).outcome = (.ok [],[]) ∧
    (selfLinked.visit defaultPolicy.ignored (levelsOf defaultPolicy.maxDepth) [] longWay).2 = [["p"]] ∧
    Reaches selfLinked defaultPolicy.ignored ["p"] ["q"] ∧
    ("f.ts",.file []) ∈ selfLinked.listing ["q"] := by
  have hs : selfLinked.status longWay = .ok (["p"],.directory) := rfl
  have hcontents : selfLinked.contents longWay ["p"] = [] := contents_of_pairwise (by decide) rfl
  have hvisit : selfLinked.visit defaultPolicy.ignored 65 [] longWay = ([],[["p"]]) := by
    rw [visit_enter hs List.not_mem_nil, ownFiles, ownDirectories, hcontents]
    rfl
  have hwalk : selfLinked.walk defaultPolicy longWay = .ok [] := by
    have hlevels : levelsOf defaultPolicy.maxDepth = 65 := rfl
    rw [walk_eq hs, hlevels, hvisit]
  have hq : selfLinked.Leads ["p"] ["k"] ["q"] .directory [["p","k"]] :=
    .link (by decide) rfl (.void (by decide) (.enter (by decide) rfl (.here _)))
  refine ⟨wellFormed_of_getLast? (by decide) (by decide),hs,?_,congrArg Prod.snd hvisit,?_,by decide⟩
  · rw [files_outcome hwalk]
    rfl
  · have hlisted : ("k",.link "/q") ∈ selfLinked.listing ["p"] := by decide
    exact Reaches.start.step hlisted (by decide) hq

end WebAtlas.Walk
