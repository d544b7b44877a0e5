import WebAtlas.Proofs.FileSystem.Overlong
import WebAtlas.Proofs.Walk.Sources
import WebAtlas.Proofs.Source.RelativeName

/-! # Walks below several directories

Handlers and components are looked for below a few directories of a project, one walk after the other.
The walks give what each of them gives alone, and they all end unless one of the directories cannot
even be tested. No file is met twice as long as no directory lies below another as written.
-/
namespace WebAtlas.FileSystem
variable {fs : FileSystem} {policy : WalkPolicy} {root start p : Path}

def Slashless (fs : FileSystem) : Prop := ∀ e ∈ fs.entries, ∀ name ∈ e.1, '/' ∉ name.toList

/-- The files that a walk yields; none when it does not start at a directory. -/
def filesUnder (fs : FileSystem) (policy : WalkPolicy) (start : Path) : List Path :=
  match fs.walk policy start with
  | .ok visits => visits.filterMap Visit.file?
  | .error _ => []

theorem sources_subset {maxFiles : Int} {files : List Path} {log : Log}
    (h : (Walk.sources fs policy maxFiles root).outcome = (.ok files,log)) :
    files ⊆ fs.filesUnder policy root := by
  obtain ⟨visits,hwalk,hsub⟩ := Walk.sources_eq_ok h
  intro file hfile
  rw [filesUnder, hwalk]
  exact hsub.subset hfile

theorem WellFormed.listed_plain (hfs : fs.WellFormed) (hslash : fs.Slashless) {loc : Location}
    {name : String} {entry : Entry} (hm : (name,entry) ∈ fs.listing loc) : Path.Plain [name] := by
  obtain ⟨hv,hu,-⟩ := (hfs.listed hm).1
  exact Path.plain_singleton hv hu (hslash _ (mem_listing_iff.mp hm) name (by simp))

theorem WellFormed.filesUnder_nodup (hfs : fs.WellFormed) (start : Path) :
    (fs.filesUnder policy start).Nodup := by
  unfold filesUnder
  split
  · rename_i visits h
    exact hfs.walk_files_nodup h
  · exact List.nodup_nil

/-- A file that a walk yields lies below the start by plain names, those of its directories not
ignored. -/
theorem WellFormed.filesUnder_spared (hfs : fs.WellFormed) (hslash : fs.Slashless)
    (h : p ∈ fs.filesUnder policy start) : ∃ names name, p = start.descend (names ++ [name]) ∧
      Path.Plain (names ++ [name]) ∧ ∀ n ∈ names, n ∉ policy.ignored := by
  unfold filesUnder at h
  split at h
  · rename_i visits hwalk
    obtain ⟨visits',steps,htour,hvisit⟩ :=
      @visit_tour fs policy.ignored (levelsOf policy.maxDepth) [] start
    rcases walk_eq_ok hwalk with rfl | rfl
    · cases h
    · rw [hvisit] at h
      obtain ⟨names,name,heq,hnames,hname⟩ :=
        htour.file_named (P := fun n => Path.Plain [n]) (fun _ _ _ => hfs.listed_plain hslash) p h
      refine ⟨names,name,heq,Path.Plain.append ?_ hname,fun n hn => (hnames n hn).1⟩
      exact fun n hn => (hnames n hn).2 n List.mem_cons_self
  · cases h

theorem WellFormed.filesUnder_named (hfs : fs.WellFormed) (hslash : fs.Slashless)
    (h : p ∈ fs.filesUnder policy start) : ∃ names name, p = start.descend (names ++ [name]) ∧
      Path.Plain (names ++ [name]) := by
  obtain ⟨names,name,heq,hn,-⟩ := hfs.filesUnder_spared hslash h
  exact ⟨names,name,heq,hn⟩

theorem status_of_mem_filesUnder (h : p ∈ fs.filesUnder policy start) :
    ∃ origin, fs.status start = .ok (origin,.directory) := by
  unfold filesUnder at h
  split at h
  · rename_i visits hwalk
    unfold walk at hwalk
    cases hd : fs.isDirectory? start with
    | error e => rw [hd] at hwalk; cases hwalk
    | ok isDirectory =>
      rw [hd] at hwalk
      cases hwalk
      cases isDirectory with
      | false => cases h
      | true =>
        obtain ⟨origin,entry,hs,hentry⟩ := test_eq_true_iff.mp hd
        rw [isDirectory_iff.mp hentry] at hs
        exact ⟨origin,hs⟩
  · cases h

theorem Slashless.of_leads (h : fs.Slashless) {dir loc : Location} {pieces : List String}
    {entry : Entry} {links : List Location} (hl : fs.Leads dir pieces loc entry links) :
    ∀ s ∈ pieces, Path.isVoid s = false → s ≠ ".." → '/' ∉ s.toList := by
  have hname {dir : Location} {piece : String} {entry : Entry}
      (he : fs.entry? (dir ++ [piece]) = some entry) : '/' ∉ piece.toList :=
    h _ (mem_entries_of_eq he (by simp)) piece (by simp)
  induction hl with
  | here dir => exact fun s hs => absurd hs List.not_mem_nil
  | void hp _ ih =>
    intro s hs hv hu
    rcases List.mem_cons.mp hs with rfl | hs
    · rw [hp] at hv
      cases hv
    · exact ih s hs hv hu
  | up _ ih =>
    intro s hs hv hu
    exact ih s ((List.mem_cons.mp hs).resolve_left hu) hv hu
  | enter _ he _ ih =>
    intro s hs hv hu
    rcases List.mem_cons.mp hs with rfl | hs
    · exact hname he
    · exact ih s hs hv hu
  | file _ he =>
    intro s hs _ _
    exact List.mem_singleton.mp hs ▸ hname he
  | link _ he _ ih =>
    intro s hs hv hu
    rcases List.mem_cons.mp hs with rfl | hs
    · exact hname he
    · exact ih s (List.mem_append_right _ hs) hv hu

/-- A file that a walk from a real path yields has plain names all along. -/
theorem WellFormed.filesUnder_plain (hfs : fs.WellFormed) (hslash : fs.Slashless) {q : Path}
    (hq : q.isAbsolute = true) (hstart : fs.resolve q = .ok start)
    (h : p ∈ fs.filesUnder policy start) : p.isAbsolute = true ∧ Path.Plain p.segments := by
  obtain ⟨origin,hs⟩ := status_of_mem_filesUnder h
  obtain ⟨-,links,-,hleads⟩ := status_eq_ok_iff.mp hs
  have hfirm := resolve_firm hq hstart
  have hplain : Path.Plain start.segments := fun s hs =>
    ⟨hfirm.segments s hs,resolve_ne_dotdot hstart s hs,
      hslash.of_leads hleads s hs (hfirm.segments s hs) (resolve_ne_dotdot hstart s hs)⟩
  obtain ⟨names,name,rfl,hnames⟩ := hfs.filesUnder_named hslash h
  exact ⟨hfirm.isAbsolute,hplain.append hnames⟩

/-- The files that walks below several directories of a project yield and a test accepts. -/
def filesMet (fs : FileSystem) (policy : WalkPolicy) (accepts : Path → Bool) (root : Path)
    (starts : List (List String)) : List Path :=
  starts.flatMap fun segments => (fs.filesUnder policy (root.descend segments)).filter accepts

variable {accepts : Path → Bool} {starts : List (List String)}

/-- A walk below the directory at `segments` yields a readable file that a test accepts. -/
structure Yields (fs : FileSystem) (policy : WalkPolicy) (accepts : Path → Bool) (root : Path)
    (starts : List (List String)) (segments names : List String) (fileName text : String) : Prop where
  start : segments ∈ starts
  walked : root.descend (segments ++ names ++ [fileName]) ∈
    fs.filesUnder policy (root.descend segments)
  accepted : accepts (root.descend (segments ++ names ++ [fileName])) = true
  readable : Source.read? fs (root.descend (segments ++ names ++ [fileName])) = some text

/-- What holds of a file met and its text holds of a file that a walk yields. -/
theorem WellFormed.exists_yields_iff (hfs : fs.WellFormed) (hslash : fs.Slashless)
    {P : Path → String → Prop} :
    (∃ p ∈ fs.filesMet policy accepts root starts, ∃ text, Source.read? fs p = some text ∧ P p text) ↔
      ∃ segments names fileName text,
        fs.Yields policy accepts root starts segments names fileName text ∧
        P (root.descend (segments ++ names ++ [fileName])) text := by
  constructor
  · rintro ⟨p,hp,text,hread,h⟩
    obtain ⟨segments,hs,hp⟩ := List.mem_flatMap.mp hp
    obtain ⟨hw,ha⟩ := List.mem_filter.mp hp
    obtain ⟨names,fileName,rfl,-⟩ := hfs.filesUnder_named hslash hw
    have heq : (root.descend segments).descend (names ++ [fileName]) =
        root.descend (segments ++ names ++ [fileName]) := by
      simp [Path.descend]
    rw [heq] at hw ha hread h
    exact ⟨segments,names,fileName,text,⟨hs,hw,ha,hread⟩,h⟩
  · rintro ⟨segments,names,fileName,text,⟨hs,hw,ha,hread⟩,h⟩
    exact ⟨_,List.mem_flatMap.mpr ⟨segments,hs,List.mem_filter.mpr ⟨hw,ha⟩⟩,text,hread,h⟩

/-- No file is met twice when no directory lies below another as written. -/
theorem WellFormed.filesMet_nodup (hfs : fs.WellFormed) (hslash : fs.Slashless)
    (h : starts.Pairwise fun a b => ¬ a <+: b ∧ ¬ b <+: a) :
    (fs.filesMet policy accepts root starts).Nodup := by
  refine List.nodup_flatMap.mpr ⟨fun _ _ => (hfs.filesUnder_nodup _).filter _,h.imp ?_⟩
  intro a b hab p ha hb
  obtain ⟨names,name,rfl,-⟩ := hfs.filesUnder_named hslash (List.mem_filter.mp ha).1
  obtain ⟨names',name',heq,-⟩ := hfs.filesUnder_named hslash (List.mem_filter.mp hb).1
  have hsegments := (Path.mk.inj heq).2
  simp only [Path.descend, List.append_assoc, List.append_cancel_left_eq] at hsegments
  rcases List.append_eq_append_iff.mp hsegments with ⟨rest,hb,-⟩ | ⟨rest,ha,-⟩
  · exact hab.1 ⟨rest,hb.symm⟩
  · exact hab.2 ⟨rest,ha.symm⟩

section Names
variable (hfs : fs.WellFormed) (hslash : fs.Slashless) (hstarts : ∀ segments ∈ starts, Path.Plain segments)
include hfs hslash hstarts

theorem Yields.plain {segments names : List String} {fileName text : String}
    (h : fs.Yields policy accepts root starts segments names fileName text) :
    Path.Plain (segments ++ names ++ [fileName]) := by
  obtain ⟨names',fileName',heq,hn⟩ := hfs.filesUnder_named hslash h.walked
  have hsame : names ++ [fileName] = names' ++ [fileName'] := by
    simpa [Path.descend] using heq
  rw [List.append_assoc, hsame]
  exact (hstarts segments h.start).append hn

theorem WellFormed.filesMet_named (h : p ∈ fs.filesMet policy accepts root starts) :
    ∃ names, names ≠ [] ∧ Path.Plain names ∧ p = root.descend names := by
  obtain ⟨segments,hs,hp⟩ := List.mem_flatMap.mp h
  obtain ⟨names,fileName,rfl,hn⟩ := hfs.filesUnder_named hslash (List.mem_filter.mp hp).1
  exact ⟨segments ++ (names ++ [fileName]),by simp,(hstarts segments hs).append hn,
    by simp [Path.descend]⟩

/-- Different files met have different relative names. -/
theorem WellFormed.relativeName_nodup (hapart : starts.Pairwise fun a b => ¬ a <+: b ∧ ¬ b <+: a)
    (ha : root.isAbsolute = true) (hroot : ∀ s ∈ root.segments, s ≠ "..") :
    ((fs.filesMet policy accepts root starts).map (Source.relativeName fs root)).Nodup := by
  refine (hfs.filesMet_nodup hslash hapart).map_on ?_
  intro p hp q hq h
  obtain ⟨names,hne,hplain,rfl⟩ := hfs.filesMet_named hslash hstarts hp
  obtain ⟨names',hne',hplain',rfl⟩ := hfs.filesMet_named hslash hstarts hq
  rw [Source.relativeName_descend ha hroot hplain hne,
    Source.relativeName_descend ha hroot hplain' hne'] at h
  rw [Path.intercalate_inj hplain hplain' h]

end Names

end WebAtlas.FileSystem

namespace WebAtlas.Walk
open FileSystem
variable {fs : FileSystem} {policy : WalkPolicy} {accepts : Path → Bool} {root start : Path}

/-- What a walk gives does not depend on what was reported before it. -/
theorem run_filesIfDirectory (log : Log) :
    ((filesIfDirectory fs policy accepts start).run.run log).1 =
      ((fs.isDirectory? start).mapError Fault.file).map fun _ =>
        (fs.filesUnder policy start).filter accepts := by
  unfold filesIfDirectory filesUnder
  cases hd : fs.isDirectory? start with
  | error e => rfl
  | ok isDirectory =>
    have hwalk : fs.walk policy start = .ok (if isDirectory then
        (fs.visit policy.ignored (levelsOf policy.maxDepth) [] start).1 else []) := by
      rw [walk, hd]
      rfl
    cases isDirectory with
    | false =>
      rw [hwalk]
      rfl
    | true =>
      dsimp only
      rw [hwalk, files, run_filesOn (course_of_levels_lt (levels_lt_roomFor policy) hwalk)]
      rfl

/-- All walks end when every directory can be tested, and then give what each of them gives. -/
theorem filesBelow_eq_ok_iff {starts : List (List String)} {found : List Path} :
    (filesBelow fs policy accepts root starts).outcome.1 = .ok found ↔
      (∀ segments ∈ starts, fs.Clear (root.descend segments)) ∧
      found = fs.filesMet policy accepts root starts := by
  suffices h : ∀ (starts : List (List String)) (before : List Path) (log : Log),
      ((starts.foldlM (fun files segments => do
        return files ++ (← filesIfDirectory fs policy accepts (root.descend segments))) before :
          Reporting Fault (List Path)).run.run log).1 = .ok found ↔
        (∀ segments ∈ starts, fs.Clear (root.descend segments)) ∧
        found = before ++ starts.flatMap fun segments =>
          (fs.filesUnder policy (root.descend segments)).filter accepts from h starts [] []
  intro starts
  induction starts with
  | nil =>
    intro before log
    change Except.ok before = Except.ok found ↔ _
    simp [eq_comm]
  | cons segments starts ih =>
    intro before log
    have hfirst := @run_filesIfDirectory fs policy accepts (root.descend segments) log
    rw [List.foldlM_cons, Reporting.run_bind, Reporting.run_bind, List.forall_mem_cons, clear_iff,
      List.flatMap_cons, ← List.append_assoc]
    rcases hr : (filesIfDirectory fs policy accepts (root.descend segments)).run.run log with
      ⟨outcome,later⟩
    rw [hr] at hfirst
    cases hd : fs.isDirectory? (root.descend segments) with
    | error e =>
      rw [hd] at hfirst
      obtain rfl : outcome = .error (.file e) := hfirst
      simp
    | ok isDirectory =>
      rw [hd] at hfirst
      obtain rfl : outcome = .ok _ := hfirst
      refine (ih (before ++ _) later).trans ?_
      simp

theorem map_filesBelow_eq_ok_iff {β : Type} {starts : List (List String)} {f : List Path → β} {b : β} :
    (filesBelow fs policy accepts root starts).outcome.1.map f = .ok b ↔
      (∀ segments ∈ starts, fs.Clear (root.descend segments)) ∧
      b = f (fs.filesMet policy accepts root starts) := by
  constructor
  · intro h
    cases hf : (filesBelow fs policy accepts root starts).outcome.1 with
    | error fault => rw [hf] at h; cases h
    | ok found =>
      rw [hf] at h
      cases h
      obtain ⟨hclear,rfl⟩ := filesBelow_eq_ok_iff.mp hf
      exact ⟨hclear,rfl⟩
  · rintro ⟨hclear,rfl⟩
    rw [filesBelow_eq_ok_iff.mpr ⟨hclear,rfl⟩]
    rfl

end WebAtlas.Walk
