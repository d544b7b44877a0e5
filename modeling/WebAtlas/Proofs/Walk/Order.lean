import WebAtlas.Proofs.Walk.Coverage
import Mathlib.Data.List.Sort
import Mathlib.Data.String.Basic

/-! # The order of a walk

A directory lists its entries in any order, and a walk goes through them by name. So a walk enters
directories in the lexicographic order of the names on the way, each before all that lies below it,
and yields the files of each by name.
-/
namespace WebAtlas.FileSystem
variable {fs : FileSystem} {ignored : List String} {dir : Path} {loc : Location}

theorem WellFormed.contents_sorted (h : fs.WellFormed) (dir : Path) (loc : Location) :
    (fs.contents dir loc).Pairwise (·.1 < ·.1) := by
  have hle : (fs.sortedListing loc).Pairwise (·.1 ≤ ·.1) := by
    refine (List.pairwise_mergeSort ?_ ?_ (fs.listing loc)).imp of_decide_eq_true
    · intro a b c hab hbc
      exact decide_eq_true ((of_decide_eq_true hab).trans (of_decide_eq_true hbc))
    · intro a b
      simpa using le_total a.1 b.1
  have hne : (fs.sortedListing loc).Pairwise (·.1 ≠ ·.1) :=
    List.pairwise_map.mp (((List.mergeSort_perm ..).map _).nodup_iff.mpr (h.listing_nodup loc))
  refine List.Pairwise.filterMap _ ?_ (hle.and hne)
  rintro ⟨n,listed⟩ ⟨n',listed'⟩ ⟨hle,hne⟩ found hf found' hf'
  obtain ⟨_,-,rfl⟩ := Option.map_eq_some_iff.mp hf
  obtain ⟨_,-,rfl⟩ := Option.map_eq_some_iff.mp hf'
  exact lt_of_le_of_ne hle hne

theorem name_child (dir : Path) (name : String) : (dir.child name).name = name := by
  simp [Path.name, Path.child]

theorem parent_child (dir : Path) (name : String) : (dir.child name).parent = dir := by
  simp [Path.parent, Path.child]

theorem WellFormed.ownFiles_sorted (h : fs.WellFormed) (dir : Path) (loc : Location) :
    (fs.ownFiles dir loc).Pairwise (·.name < ·.name) := by
  refine List.pairwise_map.mpr (((h.contents_sorted dir loc).filter _).imp ?_)
  intro a b hlt
  rwa [name_child, name_child]

/-- All that lies below one of these directories comes before all that lies below a later one. -/
def Spread (dirs : List Path) : Prop := dirs.Pairwise fun d d' =>
  ∀ names names', d.segments ++ names < d'.segments ++ names'

theorem WellFormed.ownDirectories_spread (h : fs.WellFormed) (ignored : List String) (dir : Path)
    (loc : Location) : Spread (fs.ownDirectories ignored dir loc) := by
  refine List.pairwise_map.mpr (((h.contents_sorted dir loc).filter _).imp ?_)
  intro a b hlt names names'
  simp only [Path.child, List.append_assoc]
  exact List.append_left_lt (.rel hlt)

/-- Directories are entered in the order of the names on the way to them. -/
theorem Tour.sorted (hfs : fs.WellFormed) {levels : Nat} {entered : List Location} {dirs : List Path}
    {visits : List Visit} {steps : List Step} (h : Tour fs ignored levels entered dirs visits steps)
    (hdirs : Spread dirs) : steps.Pairwise (·.1.segments < ·.1.segments) := by
  have hbelow : ∀ {levels entered dirs visits steps}, Tour fs ignored levels entered dirs visits steps →
      ∀ s ∈ steps, ∃ d ∈ dirs, ∃ names, s.1.segments = d.segments ++ names := by
    intro levels entered dirs visits steps h s hs
    obtain ⟨d,hd,names,heq,-⟩ := h.named (fun _ _ _ _ => trivial) s hs
    exact ⟨d,hd,names,congrArg Path.segments heq⟩
  induction h with
  | done => exact .nil
  | tooDeep _ ih | passOver _ _ ih => exact ih hdirs.of_cons
  | @enter _ _ dir loc dirs _ _ stepsBelow stepsBeside _ _ htourBelow htourBeside ihBelow ihBeside =>
    obtain ⟨hfirst,hrest⟩ := List.pairwise_cons.mp hdirs
    have hunder : ∀ s ∈ stepsBelow, ∃ name names, s.1.segments = dir.segments ++ name :: names := by
      intro s hs
      obtain ⟨sub,hsub,names,heq⟩ := hbelow htourBelow s hs
      obtain ⟨name,-,-,rfl⟩ := mem_ownDirectories.mp hsub
      exact ⟨name,names,by rw [heq, Path.child, List.append_assoc]; rfl⟩
    have hbeside : ∀ names, ∀ s ∈ stepsBeside, dir.segments ++ names < s.1.segments := by
      intro names s hs
      obtain ⟨d,hd,names',heq⟩ := hbelow htourBeside s hs
      rw [heq]
      exact hfirst d hd names names'
    rw [List.cons_append, List.pairwise_cons, List.pairwise_append]
    refine ⟨?_,ihBelow (hfs.ownDirectories_spread ignored dir loc),ihBeside hrest,?_⟩
    · intro s hs
      rcases List.mem_append.mp hs with hs | hs
      · obtain ⟨name,names,heq⟩ := hunder s hs
        have hlt := @List.append_left_lt _ _ dir.segments _ _ (List.Lex.nil (a := name) (l := names))
        rwa [List.append_nil, ← heq] at hlt
      · simpa using hbeside [] s hs
    · intro s hs s' hs'
      obtain ⟨name,names,heq⟩ := hunder s hs
      rw [heq]
      exact hbeside (name :: names) s' hs'

/-- Files are yielded by the names on the way to their directory, and within it by their own. -/
theorem Tour.files_sorted (hfs : fs.WellFormed) {levels : Nat} {start : Path} {visits : List Visit}
    {steps : List Step} (h : Tour fs ignored levels [] [start] visits steps) :
    (visits.filterMap Visit.file?).Pairwise fun p q => p.parent.segments < q.parent.segments ∨
      p.parent = q.parent ∧ p.name < q.name := by
  have hparent : ∀ s : Step, ∀ p ∈ fs.ownFiles s.1 s.2, p.parent = s.1 := by
    intro s p hp
    obtain ⟨name,_,-,rfl⟩ := mem_ownFiles.mp hp
    exact parent_child s.1 name
  rw [h.files, List.pairwise_flatMap]
  constructor
  · intro s _
    refine (hfs.ownFiles_sorted s.1 s.2).imp_of_mem ?_
    intro p q hp hq hlt
    exact .inr ⟨by rw [hparent s p hp, hparent s q hq],hlt⟩
  · refine (h.sorted hfs (List.pairwise_singleton _ _)).imp ?_
    intro s s' hlt p hp q hq
    rw [hparent s p hp, hparent s' q hq]
    exact .inl hlt

/-- A walk by name: the directories entered, each with its own files, before what lies below it. -/
structure ByName (fs : FileSystem) (policy : WalkPolicy) (start : Path) (visits : List Visit)
    (steps : List Step) : Prop where
  walk : fs.walk policy start = .ok visits
  tour : Tour fs policy.ignored (levelsOf policy.maxDepth) [] [start] visits steps
  files : visits.filterMap Visit.file? = steps.flatMap fun s => fs.ownFiles s.1 s.2
  own : ∀ s ∈ steps, (fs.ownFiles s.1 s.2).Pairwise (·.name < ·.name)
  directories : steps.Pairwise (·.1.segments < ·.1.segments)
  sorted : (visits.filterMap Visit.file?).Pairwise fun p q =>
    p.parent.segments < q.parent.segments ∨ p.parent = q.parent ∧ p.name < q.name

theorem WellFormed.walk_byName (hfs : fs.WellFormed) (policy : WalkPolicy) {start : Path}
    {origin : Location} (hs : fs.status start = .ok (origin,.directory)) :
    ∃ visits steps, ByName fs policy start visits steps := by
  obtain ⟨visits,steps,htour,hvisit⟩ :=
    @visit_tour fs policy.ignored (levelsOf policy.maxDepth) [] start
  refine ⟨visits,steps,by rw [walk_eq hs, hvisit],htour,htour.files,?_,?_,htour.files_sorted hfs⟩
  · exact fun s _ => hfs.ownFiles_sorted s.1 s.2
  · exact htour.sorted hfs (List.pairwise_singleton _ _)

end WebAtlas.FileSystem
