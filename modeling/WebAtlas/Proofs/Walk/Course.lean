import WebAtlas.Proofs.Walk.Tour
import WebAtlas.Proofs.Reporting
import Mathlib.Data.List.TakeWhile

/-! # The course of a walk

A walk goes through a tour with as many levels as the depth limit allows and the stack has room for. It
breaks off at the first directory that the limit would let it enter and the stack does not. A stack
with more room than the limit has levels is never too small.
-/
namespace WebAtlas.FileSystem
variable {fs : FileSystem} {ignored : List String} {policy : WalkPolicy} {room : Nat} {start : Path}

theorem walk_eq {origin : Location} (hs : fs.status start = .ok (origin,.directory)) :
    fs.walk policy start =
      .ok (fs.visit policy.ignored (levelsOf policy.maxDepth) [] start).1 := by
  have hd : fs.isDirectory? start = .ok true := test_eq_true_iff.mpr ⟨origin,_,hs,rfl⟩
  rw [walk, hd]
  rfl

theorem walk_eq_error_iff {e : FileError} :
    fs.walk policy start = .error e ↔ fs.isDirectory? start = .error e := by
  unfold walk
  cases fs.isDirectory? start <;> simp [Except.map]

/-- A directory that lies too deep is as many names below one of those gone through as there are
levels, none of the names ignored. -/
theorem Tour.tooDeep_named {levels : Nat} {entered : List Location} {dirs : List Path}
    {visits : List Visit} {steps : List Step} {deep : Path}
    (h : Tour fs ignored levels entered dirs visits steps) (hdeep : .tooDeep deep ∈ visits) :
    ∃ dir ∈ dirs, ∃ names, deep = dir.descend names ∧ names.length = levels ∧
      ∀ n ∈ names, n ∉ ignored := by
  induction h with
  | done => cases hdeep
  | @tooDeep _ dir _ _ _ _ ih =>
    rcases List.mem_cons.mp hdeep with heq | hdeep
    · cases heq
      exact ⟨_,List.mem_cons_self,[],by simp [Path.descend],rfl,nofun⟩
    · obtain ⟨d,hd,hnames⟩ := ih hdeep
      exact ⟨d,List.mem_cons_of_mem _ hd,hnames⟩
  | passOver _ _ ih =>
    obtain ⟨d,hd,hnames⟩ := ih hdeep
    exact ⟨d,List.mem_cons_of_mem _ hd,hnames⟩
  | @enter _ _ dir _ _ _ _ _ _ _ _ _ _ ihBelow ihBeside =>
    rcases List.mem_append.mp hdeep with hdeep | hdeep
    · rcases List.mem_append.mp hdeep with hdeep | hdeep
      · simp at hdeep
      · obtain ⟨sub,hsub,names,rfl,hlength,hnames⟩ := ihBelow hdeep
        obtain ⟨name,-,hn,rfl⟩ := mem_ownDirectories.mp hsub
        exact ⟨dir,List.mem_cons_self,name :: names,by simp [Path.descend, Path.child],
          congrArg (· + 1) hlength,List.forall_mem_cons.mpr ⟨hn,hnames⟩⟩
    · obtain ⟨d,hd,hnames⟩ := ihBeside hdeep
      exact ⟨d,List.mem_cons_of_mem _ hd,hnames⟩

end WebAtlas.FileSystem

namespace WebAtlas.Walk
open FileSystem
variable {fs : FileSystem} {policy : WalkPolicy} {room : Nat} {start : Path} {visits : List Visit}
  {course : Course} {accepts : Path → Bool}

/-- The record of a directory that a walk did not enter for its depth. -/
def depthWarning? : Visit → Option LogRecord
  | .file _ => none
  | .tooDeep dir => some ⟨.warning,component,s!"Maximum depth reached at {dir.text}"⟩

theorem run_reportDepth (visits : List Visit) (log : Log) :
    (visits.forM reportDepth).run.run log = (.ok (),log ++ visits.filterMap depthWarning?) := by
  induction visits generalizing log with
  | nil => simp only [List.filterMap_nil, List.append_nil]; rfl
  | cons visit visits ih =>
    change (reportDepth visit >>= fun _ => visits.forM reportDepth).run.run log = _
    rw [Reporting.run_bind]
    cases visit with
    | file p => exact ih log
    | tooDeep dir => exact (ih _).trans (by simp [depthWarning?])

theorem depthWarnings_eq_nil_iff :
    visits.filterMap depthWarning? = [] ↔ ∀ dir, .tooDeep dir ∉ visits := by
  rw [List.filterMap_eq_nil_iff]
  constructor
  · intro h dir hdir
    cases h _ hdir
  · intro h visit hvisit
    cases visit with
    | file p => rfl
    | tooDeep dir => exact absurd hvisit (h dir)

theorem levelsOf_within (policy : WalkPolicy) (room : Nat) :
    levelsOf (within policy room).maxDepth = min (levelsOf policy.maxDepth) room := by
  unfold within levelsOf
  dsimp only
  omega

theorem within_eq (h : levelsOf policy.maxDepth < room) : within policy room = policy := by
  have hdepth : min policy.maxDepth (room - 1) = policy.maxDepth := by
    unfold levelsOf at h
    omega
  rw [within, hdepth]

theorem course_of_error {e : FileError} (h : fs.isDirectory? start = .error e) :
    Walk.course fs policy room start = throw (.file e) := by
  rw [Walk.course, walk_eq_error_iff.mpr h]

/-- A stack with more room than there are levels does not overflow. -/
theorem course_of_levels_lt (h : levelsOf policy.maxDepth < room)
    (hw : fs.walk policy start = .ok visits) :
    Walk.course fs policy room start = pure ⟨visits,false⟩ := by
  rw [Walk.course, within_eq h, hw]
  exact if_pos h

theorem any_isNone_iff : visits.any (·.file?.isNone) = true ↔ ∃ dir, .tooDeep dir ∈ visits := by
  rw [List.any_eq_true]
  constructor
  · rintro ⟨visit,hvisit,hnone⟩
    cases visit with
    | file p => cases hnone
    | tooDeep dir => exact ⟨dir,hvisit⟩
  · rintro ⟨dir,hdir⟩
    exact ⟨_,hdir,rfl⟩

/-- Visits up to the first directory that lies too deep. -/
theorem exists_append_tooDeep (h : ∃ dir, .tooDeep dir ∈ visits) : ∃ dir rest,
    visits = visits.takeWhile (·.file?.isSome) ++ .tooDeep dir :: rest := by
  induction visits with
  | nil => simp at h
  | cons visit visits ih =>
    cases visit with
    | tooDeep dir => exact ⟨dir,visits,rfl⟩
    | file p =>
      obtain ⟨dir,rest,heq⟩ := ih (by simpa using h)
      exact ⟨dir,rest,congrArg (_ :: ·) heq⟩

theorem tooDeep_not_mem_takeWhile (visits : List Visit) (dir : Path) :
    .tooDeep dir ∉ visits.takeWhile (·.file?.isSome) := fun h => by
  cases List.mem_takeWhile_imp h

/-- How a walk goes that starts at a directory: what a tour visits with as many levels as the depth
limit and the stack leave, and the first part of this that the walk meets, which is all of it unless
the stack overflows. -/
structure Goes (fs : FileSystem) (policy : WalkPolicy) (room : Nat) (start : Path) (course : Course)
    (visits : List Visit) (steps : List Step) : Prop where
  run : Walk.course fs policy room start = pure course
  tour : Tour fs policy.ignored (min (levelsOf policy.maxDepth) room) [] [start] visits steps
  overflows : course.overflows = true ↔
    room ≤ levelsOf policy.maxDepth ∧ ∃ dir, .tooDeep dir ∈ visits
  whole : course.overflows = false → course.visits = visits
  broken : course.overflows = true → (∀ dir, .tooDeep dir ∉ course.visits) ∧
    ∃ dir rest, visits = course.visits ++ .tooDeep dir :: rest

theorem goes_of_status {origin : Location} (hs : fs.status start = .ok (origin,.directory))
    (policy : WalkPolicy) (room : Nat) :
    ∃ course visits steps, Goes fs policy room start course visits steps ∧
      fs.visit policy.ignored (min (levelsOf policy.maxDepth) room) [] start =
        (visits,(steps.map (·.2)).reverse) := by
  obtain ⟨visits,steps,htour,hvisit⟩ :=
    @visit_tour fs policy.ignored (min (levelsOf policy.maxDepth) room) [] start
  have hwalk : fs.walk (within policy room) start = .ok visits := by
    rw [walk_eq hs, levelsOf_within]
    exact congrArg (Except.ok ·.1) hvisit
  rw [enteredAfter, List.append_nil] at hvisit
  rcases Nat.lt_or_ge (levelsOf policy.maxDepth) room with hroom | hroom
  · rw [within_eq hroom] at hwalk
    exact ⟨⟨visits,false⟩,visits,steps,⟨course_of_levels_lt hroom hwalk,htour,
      iff_of_false Bool.false_ne_true fun h => Nat.not_le.mpr hroom h.1,fun _ => rfl,
      fun h => absurd h Bool.false_ne_true⟩,hvisit⟩
  · refine ⟨⟨visits.takeWhile (·.file?.isSome),visits.any (·.file?.isNone)⟩,visits,steps,
      ⟨?_,htour,?_,?_,?_⟩,hvisit⟩
    · rw [Walk.course, hwalk]
      exact if_neg (Nat.not_lt.mpr hroom)
    · rw [any_isNone_iff]
      exact ⟨fun h => ⟨hroom,h⟩,And.right⟩
    · intro hnone
      have hall : ∀ visit ∈ visits, visit.file?.isSome = true := by
        simpa [List.any_eq_false, Option.ne_none_iff_isSome] using hnone
      exact List.takeWhile_eq_self_iff.mpr hall
    · intro hsome
      exact ⟨tooDeep_not_mem_takeWhile visits,exists_append_tooDeep (any_isNone_iff.mp hsome)⟩

namespace Goes
variable {steps : List Step} (h : Goes fs policy room start course visits steps)
include h

theorem initial : course.visits <+: visits := by
  cases ho : course.overflows with
  | false => exact h.whole ho ▸ List.prefix_rfl
  | true =>
    obtain ⟨-,dir,rest,heq⟩ := h.broken ho
    exact ⟨_,heq.symm⟩

/-- The stack overflows at a directory that lies as many names deep as it has room for. -/
theorem exists_deep (ho : course.overflows = true) : room ≤ levelsOf policy.maxDepth ∧
    ∃ names, .tooDeep (start.descend names) ∈ visits ∧ names.length = room ∧
      ∀ n ∈ names, n ∉ policy.ignored := by
  obtain ⟨hroom,dir,hdeep⟩ := h.overflows.mp ho
  obtain ⟨d,hd,names,rfl,hlength,hnames⟩ := h.tour.tooDeep_named hdeep
  obtain rfl := List.mem_singleton.mp hd
  exact ⟨hroom,names,hdeep,hlength.trans (Nat.min_eq_right hroom),hnames⟩

end Goes

theorem run_filesOn (h : Walk.course fs policy room start = pure course) (log : Log) :
    (filesOn fs policy room accepts start).run.run log =
      (if course.overflows then .error .stackOverflow else .ok (course.files.filter accepts),
        log ++ course.visits.filterMap depthWarning?) := by
  rw [filesOn, h, pure_bind, Reporting.run_bind, run_reportDepth]
  cases course.overflows <;> rfl

theorem filesOn_outcome (h : Walk.course fs policy room start = pure course) :
    (filesOn fs policy room accepts start).outcome =
      (if course.overflows then .error .stackOverflow else .ok (course.files.filter accepts),
        course.visits.filterMap depthWarning?) := run_filesOn h []

theorem filesOn_outcome_error {e : FileError} (h : fs.isDirectory? start = .error e) :
    (filesOn fs policy room accepts start).outcome = (.error (.file e),[]) := by
  rw [filesOn, course_of_error h]
  rfl

theorem levels_lt_roomFor (policy : WalkPolicy) : levelsOf policy.maxDepth < roomFor policy :=
  Nat.lt_succ_self _

theorem files_outcome (h : fs.walk policy start = .ok visits) :
    (files fs policy accepts start).outcome =
      (.ok ((visits.filterMap Visit.file?).filter accepts),visits.filterMap depthWarning?) :=
  filesOn_outcome (course_of_levels_lt (levels_lt_roomFor policy) h)

end WebAtlas.Walk
