import WebAtlas.Proofs.Walk.Contents
import Mathlib.Data.List.Perm.Subperm

/-! # Tours of a directory tree

A walk as a relation that also keeps each directory entered, as the path taken and the real directory
it leads to. What holds of every walk is read off the steps of its tour by induction.
-/
namespace WebAtlas.FileSystem
variable {fs : FileSystem} {ignored : List String}

abbrev Step := Path × Location

/-- The real directories entered when some steps have followed on those entered before. -/
def enteredAfter (entered : List Location) (steps : List Step) : List Location :=
  (steps.map (·.2)).reverse ++ entered

/-- Going through directories in order with `levels` levels left, given the real directories entered
before: what is visited, and the steps taken. -/
inductive Tour (fs : FileSystem) (ignored : List String) :
    Nat → List Location → List Path → List Visit → List Step → Prop
  | done {levels : Nat} {entered : List Location} : Tour fs ignored levels entered [] [] []
  | tooDeep {entered : List Location} {dir : Path} {dirs : List Path} {visits : List Visit}
      {steps : List Step} (beside : Tour fs ignored 0 entered dirs visits steps) :
      Tour fs ignored 0 entered (dir :: dirs) (.tooDeep dir :: visits) steps
  | passOver {levels : Nat} {entered : List Location} {dir : Path} {dirs : List Path}
      {visits : List Visit} {steps : List Step}
      (hpass : ∀ loc, fs.status dir = .ok (loc,.directory) → loc ∈ entered)
      (beside : Tour fs ignored (levels + 1) entered dirs visits steps) :
      Tour fs ignored (levels + 1) entered (dir :: dirs) visits steps
  | enter {levels : Nat} {entered : List Location} {dir : Path} {loc : Location} {dirs : List Path}
      {below beside : List Visit} {stepsBelow stepsBeside : List Step}
      (hs : fs.status dir = .ok (loc,.directory)) (hnew : loc ∉ entered)
      (hbelow : Tour fs ignored levels (loc :: entered) (fs.ownDirectories ignored dir loc) below
        stepsBelow)
      (hbeside : Tour fs ignored (levels + 1) (enteredAfter (loc :: entered) stepsBelow) dirs beside
        stepsBeside) :
      Tour fs ignored (levels + 1) entered (dir :: dirs)
        ((fs.ownFiles dir loc).map .file ++ below ++ beside)
        ((dir,loc) :: stepsBelow ++ stepsBeside)

/-- Entering a directory of which the contents are known. -/
theorem Tour.enter_contents {levels : Nat} {entered : List Location} {dir : Path} {loc : Location}
    {dirs : List Path} {below beside : List Visit} {stepsBelow stepsBeside : List Step}
    {found : List (String × Entry)} (hs : fs.status dir = .ok (loc,.directory)) (hnew : loc ∉ entered)
    (hfound : fs.contents dir loc = found)
    (hbelow : Tour fs ignored levels (loc :: entered) ((found.filter fun (name,entry) =>
      entry.isDirectory && !ignored.contains name).map (dir.child ·.1)) below stepsBelow)
    (hbeside : Tour fs ignored (levels + 1) (enteredAfter (loc :: entered) stepsBelow) dirs beside
      stepsBeside) :
    Tour fs ignored (levels + 1) entered (dir :: dirs)
      (((found.filter (·.2.isFile)).map (dir.child ·.1)).map .file ++ below ++ beside)
      ((dir,loc) :: stepsBelow ++ stepsBeside) := by
  subst hfound
  exact .enter hs hnew hbelow hbeside

theorem enteredAfter_append (entered : List Location) (before after : List Step) :
    enteredAfter entered (before ++ after) = enteredAfter (enteredAfter entered before) after := by
  simp [enteredAfter]

theorem enteredAfter_cons (entered : List Location) (dir : Path) (loc : Location)
    (steps : List Step) :
    enteredAfter entered ((dir,loc) :: steps) = enteredAfter (loc :: entered) steps := by
  simp [enteredAfter]

theorem mem_enteredAfter {entered : List Location} {steps : List Step} {loc : Location} :
    loc ∈ enteredAfter entered steps ↔ loc ∈ steps.map (·.2) ∨ loc ∈ entered := by
  rw [enteredAfter, List.mem_append, List.mem_reverse]

def visitAll (fs : FileSystem) (ignored : List String) (levels : Nat)
    (before : List Visit × List Location) (dirs : List Path) : List Visit × List Location :=
  dirs.foldl (fun soFar dir => (soFar.1 ++ (fs.visit ignored levels soFar.2 dir).1,
    (fs.visit ignored levels soFar.2 dir).2)) before

theorem visit_enter {levels : Nat} {entered : List Location} {dir : Path} {loc : Location}
    (hs : fs.status dir = .ok (loc,.directory)) (hnew : loc ∉ entered) :
    fs.visit ignored (levels + 1) entered dir = fs.visitAll ignored levels
      ((fs.ownFiles dir loc).map .file,loc :: entered) (fs.ownDirectories ignored dir loc) := by
  rw [visit, hs]
  exact if_neg hnew

theorem visit_pass {levels : Nat} {entered : List Location} {dir : Path}
    (hpass : ∀ loc, fs.status dir = .ok (loc,.directory) → loc ∈ entered) :
    fs.visit ignored (levels + 1) entered dir = ([],entered) := by
  rw [visit]
  split
  · rename_i loc hs
    exact if_pos (hpass loc hs)
  · rfl

theorem visitAll_tour (levels : Nat) (entered : List Location) (dirs : List Path) :
    ∃ visits steps, Tour fs ignored levels entered dirs visits steps ∧
      ∀ before, fs.visitAll ignored levels (before,entered) dirs =
        (before ++ visits,enteredAfter entered steps) := by
  induction levels generalizing entered dirs with
  | zero =>
    induction dirs with
    | nil => exact ⟨[],[],.done,fun before => by simp [visitAll, enteredAfter]⟩
    | cons dir dirs ih =>
      obtain ⟨visits,steps,htour,heq⟩ := ih
      refine ⟨_,steps,.tooDeep htour,fun before => ?_⟩
      rw [visitAll, List.foldl_cons, ← visitAll, visit, heq]
      simp
  | succ levels ihLevels =>
    induction dirs generalizing entered with
    | nil => exact ⟨[],[],.done,fun before => by simp [visitAll, enteredAfter]⟩
    | cons dir dirs ih =>
      by_cases hnew : ∃ loc, fs.status dir = .ok (loc,.directory) ∧ loc ∉ entered
      · obtain ⟨loc,hs,hnew⟩ := hnew
        obtain ⟨below,stepsBelow,hbelow,heqBelow⟩ :=
          ihLevels (loc :: entered) (fs.ownDirectories ignored dir loc)
        obtain ⟨beside,stepsBeside,hbeside,heqBeside⟩ := ih (enteredAfter (loc :: entered) stepsBelow)
        refine ⟨_,_,.enter hs hnew hbelow hbeside,fun before => ?_⟩
        rw [visitAll, List.foldl_cons, ← visitAll, visit_enter hs hnew, heqBelow, heqBeside,
          List.cons_append, enteredAfter_cons, enteredAfter_append]
        simp
      · have hpass : ∀ loc, fs.status dir = .ok (loc,.directory) → loc ∈ entered := by
          intro loc hs
          by_contra hn
          exact hnew ⟨loc,hs,hn⟩
        obtain ⟨visits,steps,htour,heq⟩ := ih entered
        refine ⟨visits,steps,.passOver hpass htour,fun before => ?_⟩
        rw [visitAll, List.foldl_cons, ← visitAll, visit_pass hpass, heq]
        simp

/-- Every visit is a tour: the steps are the real directories that it gives back, last one first. -/
theorem visit_tour (levels : Nat) (entered : List Location) (dir : Path) :
    ∃ visits steps, Tour fs ignored levels entered [dir] visits steps ∧
      fs.visit ignored levels entered dir = (visits,enteredAfter entered steps) := by
  obtain ⟨visits,steps,htour,heq⟩ := @visitAll_tour fs ignored levels entered [dir]
  exact ⟨visits,steps,htour,heq []⟩

namespace Tour
variable {levels : Nat} {entered : List Location} {dirs : List Path} {visits : List Visit}
  {steps : List Step}

theorem unique (h : Tour fs ignored levels entered dirs visits steps) {visits' : List Visit}
    {steps' : List Step} (h' : Tour fs ignored levels entered dirs visits' steps') :
    visits = visits' ∧ steps = steps' := by
  induction h generalizing visits' steps' with
  | done => cases h'; exact ⟨rfl,rfl⟩
  | tooDeep _ ih =>
    cases h' with
    | tooDeep h' =>
      obtain ⟨rfl,rfl⟩ := ih h'
      exact ⟨rfl,rfl⟩
  | passOver hpass _ ih =>
    cases h' with
    | passOver _ h' => exact ih h'
    | enter hs hnew => exact absurd (hpass _ hs) hnew
  | enter hs hnew _ _ ihBelow ihBeside =>
    cases h' with
    | passOver hpass => exact absurd (hpass _ hs) hnew
    | enter hs' _ hbelow hbeside =>
      rw [hs] at hs'
      cases hs'
      obtain ⟨rfl,rfl⟩ := ihBelow hbelow
      obtain ⟨rfl,rfl⟩ := ihBeside hbeside
      exact ⟨rfl,rfl⟩

theorem located (h : Tour fs ignored levels entered dirs visits steps) :
    ∀ s ∈ steps, fs.status s.1 = .ok (s.2,.directory) := by
  induction h with
  | done => exact fun s hs => absurd hs List.not_mem_nil
  | tooDeep _ ih | passOver _ _ ih => exact ih
  | enter hs _ _ _ ihBelow ihBeside =>
    intro s hmem
    rcases List.mem_append.mp hmem with hmem | hmem
    · rcases List.mem_cons.mp hmem with rfl | hmem
      · exact hs
      · exact ihBelow s hmem
    · exact ihBeside s hmem

theorem nodup (h : Tour fs ignored levels entered dirs visits steps) (he : entered.Nodup) :
    (enteredAfter entered steps).Nodup := by
  induction h with
  | done => exact he
  | tooDeep _ ih | passOver _ _ ih => exact ih he
  | enter _ hnew _ _ ihBelow ihBeside =>
    rw [List.cons_append, enteredAfter_cons, enteredAfter_append]
    exact ihBeside (ihBelow (List.nodup_cons.mpr ⟨hnew,he⟩))

theorem locations_nodup (h : Tour fs ignored levels [] dirs visits steps) :
    (steps.map (·.2)).Nodup := by
  have hafter := h.nodup List.nodup_nil
  rwa [enteredAfter, List.append_nil, List.nodup_reverse] at hafter

/-- The files visited are those of the directories entered, in the order in which they are. -/
theorem files (h : Tour fs ignored levels entered dirs visits steps) :
    visits.filterMap Visit.file? = steps.flatMap fun s => fs.ownFiles s.1 s.2 := by
  induction h with
  | done => rfl
  | tooDeep _ ih => exact (List.filterMap_cons_none rfl).trans ih
  | passOver _ _ ih => exact ih
  | enter _ _ _ _ ihBelow ihBeside =>
    have hown : ∀ paths : List Path, (paths.map Visit.file).filterMap Visit.file? = paths := by
      intro paths
      rw [List.filterMap_map]
      exact List.filterMap_some
    simp [hown, ihBelow, ihBeside]

/-- A path entered comes from one of the directories by listed names that are not ignored. -/
theorem named {P : String → Prop} (h : Tour fs ignored levels entered dirs visits steps)
    (hP : ∀ loc name entry, (name,entry) ∈ fs.listing loc → P name) :
    ∀ s ∈ steps, ∃ dir ∈ dirs, ∃ names, s.1 = dir.descend names ∧
      ∀ n ∈ names, n ∉ ignored ∧ P n := by
  induction h with
  | done => exact fun s hs => absurd hs List.not_mem_nil
  | tooDeep _ ih | passOver _ _ ih =>
    intro s hs
    obtain ⟨dir,hdir,hnames⟩ := ih s hs
    exact ⟨dir,List.mem_cons_of_mem _ hdir,hnames⟩
  | @enter _ _ dir _ _ _ _ _ _ _ _ _ _ ihBelow ihBeside =>
    intro s hmem
    rcases List.mem_append.mp hmem with hmem | hmem
    · refine ⟨dir,List.mem_cons_self,?_⟩
      rcases List.mem_cons.mp hmem with rfl | hmem
      · exact ⟨[],by simp [Path.descend],fun n hn => absurd hn List.not_mem_nil⟩
      · obtain ⟨sub,hsub,names,heq,hnames⟩ := ihBelow s hmem
        obtain ⟨name,hc,hn,rfl⟩ := mem_ownDirectories.mp hsub
        obtain ⟨_,hm,-⟩ := mem_contents.mp hc
        exact ⟨name :: names,by simp [heq, Path.descend, Path.child],
          List.forall_mem_cons.mpr ⟨⟨hn,hP _ _ _ hm⟩,hnames⟩⟩
    · obtain ⟨dir',hdir,hnames⟩ := ihBeside s hmem
      exact ⟨dir',List.mem_cons_of_mem _ hdir,hnames⟩

/-- When nothing lies too deep, every directory gone through is entered by the end, and so is every
directory found in one that is entered. -/
theorem covers (h : Tour fs ignored levels entered dirs visits steps)
    (hdeep : ∀ dir, .tooDeep dir ∉ visits) :
    (∀ dir ∈ dirs, ∀ loc, fs.status dir = .ok (loc,.directory) → loc ∈ enteredAfter entered steps) ∧
    ∀ s ∈ steps, ∀ dir ∈ fs.ownDirectories ignored s.1 s.2, ∀ loc,
      fs.status dir = .ok (loc,.directory) → loc ∈ enteredAfter entered steps := by
  induction h with
  | done => simp
  | tooDeep _ _ => exact absurd List.mem_cons_self (hdeep _)
  | passOver hpass _ ih =>
    obtain ⟨hdirs,hsteps⟩ := ih hdeep
    refine ⟨?_,hsteps⟩
    intro d hd l hl
    rcases List.mem_cons.mp hd with rfl | hd
    · exact mem_enteredAfter.mpr (.inr (hpass l hl))
    · exact hdirs d hd l hl
  | @enter _ entered dir loc _ _ _ stepsBelow stepsBeside hs _ _ _ ihBelow ihBeside =>
    obtain ⟨hsubs,hbelow⟩ := ihBelow fun d hd => hdeep d (by simp [hd])
    obtain ⟨hdirs,hbeside⟩ := ihBeside fun d hd => hdeep d (by simp [hd])
    rw [List.cons_append, enteredAfter_cons, enteredAfter_append]
    have hlater : ∀ l ∈ enteredAfter (loc :: entered) stepsBelow,
        l ∈ enteredAfter (enteredAfter (loc :: entered) stepsBelow) stepsBeside :=
      fun l hl => mem_enteredAfter.mpr (.inr hl)
    constructor
    · intro d hd l hl
      rcases List.mem_cons.mp hd with rfl | hd
      · rw [hs] at hl
        cases hl
        exact hlater loc (mem_enteredAfter.mpr (.inr List.mem_cons_self))
      · exact hdirs d hd l hl
    · intro s hmem d hd l hl
      rcases List.mem_cons.mp hmem with rfl | hmem
      · exact hlater l (hsubs d hd l hl)
      · rcases List.mem_append.mp hmem with hmem | hmem
        · exact hlater l (hbelow s hmem d hd l hl)
        · exact hbeside s hmem d hd l hl

/-- A tour has a level left for each real directory not entered yet before anything lies too deep. -/
theorem levels_add_length_le (h : Tour fs ignored levels entered dirs visits steps)
    {all : List Location} (hall : ∀ dir loc, fs.status dir = .ok (loc,.directory) → loc ∈ all)
    (he : entered.Nodup) (hsub : entered ⊆ all) {dir : Path} (hdeep : .tooDeep dir ∈ visits) :
    levels + entered.length ≤ all.length := by
  induction h with
  | done => cases hdeep
  | tooDeep _ _ =>
    rw [Nat.zero_add]
    exact (List.subperm_of_subset he hsub).length_le
  | passOver _ _ ih => exact ih he hsub hdeep
  | @enter _ entered _ loc _ _ _ stepsBelow _ hs hnew hbelow _ ihBelow ihBeside =>
    have he' : (loc :: entered).Nodup := List.nodup_cons.mpr ⟨hnew,he⟩
    have hsub' : loc :: entered ⊆ all := List.cons_subset.mpr ⟨hall _ _ hs,hsub⟩
    rcases List.mem_append.mp hdeep with hdeep | hdeep
    · rcases List.mem_append.mp hdeep with hdeep | hdeep
      · simp at hdeep
      · have hle := ihBelow he' hsub' hdeep
        rw [List.length_cons] at hle
        omega
    · have hafter : enteredAfter (loc :: entered) stepsBelow ⊆ all := by
        intro l hl
        rcases mem_enteredAfter.mp hl with hl | hl
        · obtain ⟨s,hs,rfl⟩ := List.mem_map.mp hl
          exact hall _ _ (hbelow.located s hs)
        · exact hsub' hl
      have hle := ihBeside (hbelow.nodup he') hafter hdeep
      rw [enteredAfter, List.length_append, List.length_cons] at hle
      omega

end Tour

end WebAtlas.FileSystem
