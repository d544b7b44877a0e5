import WebAtlas.Proofs.Walk.Coverage
import WebAtlas.Proofs.Path.Lexical

/-! # The source files of a walk

A cap keeps a first part of what a walk meets, so the source files found are among the files of the
walk, in its order. Below a normalised start they are normalised and distinct.
-/
namespace WebAtlas.FileSystem
variable {fs : FileSystem} {policy : WalkPolicy} {start : Path} {visits : List Visit}

theorem walk_eq_ok (h : fs.walk policy start = .ok visits) :
    visits = [] ∨ visits = (fs.visit policy.ignored (levelsOf policy.maxDepth) [] start).1 := by
  unfold walk at h
  cases hd : fs.isDirectory? start with
  | error e => rw [hd] at h; cases h
  | ok isDirectory =>
    rw [hd] at h
    cases h
    cases isDirectory with
    | false => exact .inl rfl
    | true => exact .inr rfl

theorem WellFormed.walk_files_nodup (hfs : fs.WellFormed) (h : fs.walk policy start = .ok visits) :
    (visits.filterMap Visit.file?).Nodup := by
  obtain ⟨visits',steps,htour,hvisit⟩ :=
    @visit_tour fs policy.ignored (levelsOf policy.maxDepth) [] start
  rcases walk_eq_ok h with rfl | rfl
  · exact List.nodup_nil
  · rw [hvisit]
    exact hfs.files_nodup htour

theorem WellFormed.walk_files_normal (hfs : fs.WellFormed) (hstart : ∀ s ∈ start.segments, s ≠ "..")
    (h : fs.walk policy start = .ok visits) :
    ∀ p ∈ visits.filterMap Visit.file?, p.normalize = p := by
  obtain ⟨visits',steps,htour,hvisit⟩ :=
    @visit_tour fs policy.ignored (levelsOf policy.maxDepth) [] start
  rcases walk_eq_ok h with rfl | rfl
  · exact fun p hp => absurd hp List.not_mem_nil
  · rw [hvisit]
    intro p hp
    obtain ⟨names,name,rfl,hnames,hname⟩ := hfs.file_named htour p hp
    apply Path.normalize_of_forall_ne
    intro s hs
    rcases List.mem_append.mp hs with hs | hs
    · exact hstart s hs
    · rcases List.mem_append.mp hs with hs | hs
      · exact (hnames s hs).2.2.1
      · exact List.mem_singleton.mp hs ▸ hname.2.1

end WebAtlas.FileSystem

namespace WebAtlas.Walk
open FileSystem
variable {fs : FileSystem} {policy : WalkPolicy} {start : Path} {cap : Int} {log : Log}
  {found : List Path}

theorem beforeCap_initial (cap : Int) (taken : Nat) (visits : List Visit) :
    (beforeCap cap taken visits).1 <+: visits := by
  induction visits generalizing taken with
  | nil => exact List.prefix_rfl
  | cons visit visits ih =>
    cases visit with
    | tooDeep dir => exact List.prefix_cons_inj _ |>.mpr (ih taken)
    | file p =>
      rw [beforeCap]
      split
      · exact List.nil_prefix
      · exact List.prefix_cons_inj _ |>.mpr (ih _)

def capWarning (cap : Int) : LogRecord :=
  ⟨.warning,component,s!"File cap of {cap} reached, remaining files are not scanned"⟩

variable {room : Nat} {course : Course}

/-- A stack that overflows is only met before the cap is. -/
theorem sourcesOn_outcome (h : Walk.course fs policy room start = pure course) :
    (sourcesOn fs policy room cap start).outcome =
      (if (beforeCap cap 0 course.visits).2 = false ∧ course.overflows = true then
          .error .stackOverflow
        else .ok (((beforeCap cap 0 course.visits).1.filterMap Visit.file?).filter Source.isSource),
        (beforeCap cap 0 course.visits).1.filterMap depthWarning? ++
          if (beforeCap cap 0 course.visits).2 = true then [capWarning cap] else []) := by
  rw [sourcesOn, h, pure_bind, Reporting.outcome]
  rcases hb : beforeCap cap 0 course.visits with ⟨before,capped⟩
  dsimp only
  rw [Reporting.run_bind, run_reportDepth]
  cases capped with
  | true => rfl
  | false =>
    have hlog := (List.append_nil (before.filterMap depthWarning?)).symm
    cases course.overflows with
    | true => exact congrArg (Prod.mk _) hlog
    | false => exact congrArg (Prod.mk _) hlog

theorem sourcesOn_outcome_error {e : FileError} (h : fs.isDirectory? start = .error e) :
    (sourcesOn fs policy room cap start).outcome = (.error (.file e),[]) := by
  rw [sourcesOn, course_of_error h]
  rfl

theorem sources_outcome {visits : List Visit} (h : fs.walk policy start = .ok visits) :
    (sources fs policy cap start).outcome =
      (.ok (((beforeCap cap 0 visits).1.filterMap Visit.file?).filter Source.isSource),
        (beforeCap cap 0 visits).1.filterMap depthWarning? ++
          if (beforeCap cap 0 visits).2 = true then [capWarning cap] else []) := by
  rw [sources, sourcesOn_outcome (course_of_levels_lt (levels_lt_roomFor policy) h)]
  exact congrArg (·, _) (if_neg fun h => Bool.false_ne_true h.2)

theorem sources_outcome_error {e : FileError} (h : fs.walk policy start = .error e) :
    (sources fs policy cap start).outcome = (.error (.file e),[]) :=
  sourcesOn_outcome_error (walk_eq_error_iff.mp h)

theorem sources_eq_ok (h : (sources fs policy cap start).outcome = (.ok found,log)) :
    ∃ visits, fs.walk policy start = .ok visits ∧
      found.Sublist (visits.filterMap Visit.file?) := by
  cases hw : fs.walk policy start with
  | error e => rw [sources_outcome_error hw] at h; cases h
  | ok visits =>
    rw [sources_outcome hw] at h
    cases h
    exact ⟨visits,rfl,List.filter_sublist.trans ((beforeCap_initial cap 0 visits).sublist.filterMap _)⟩

/-- A cap keeps the first source files, whatever other files lie between them. -/
theorem beforeCap_sources (cap : Int) (taken : Nat) (visits : List Visit) :
    ((beforeCap cap taken visits).1.filterMap Visit.file?).filter Source.isSource =
      ((visits.filterMap Visit.file?).filter Source.isSource).take (cap - taken).toNat := by
  induction visits generalizing taken with
  | nil => simp [beforeCap]
  | cons visit visits ih =>
    cases visit with
    | tooDeep dir => exact ih taken
    | file p =>
      rw [beforeCap]
      split
      · rename_i hfull
        have hnone : (cap - taken).toNat = 0 := by omega
        simp [hnone]
      · rename_i hfree
        cases hp : Source.isSource p with
        | false => simpa [Visit.file?, hp] using ih taken
        | true =>
          have hleft : (cap - taken).toNat = (cap - (taken + 1 : Nat)).toNat + 1 := by omega
          simpa [Visit.file?, hp, hleft] using ih (taken + 1)

/-- A smaller cap gives a first part of what a larger one gives, and fails where it fails. -/
theorem sources_take {small large : Int} (h : small ≤ large) :
    (sources fs policy small start).outcome.1 =
      (sources fs policy large start).outcome.1.map (·.take small.toNat) := by
  cases hw : fs.walk policy start with
  | error e => rw [sources_outcome_error hw, sources_outcome_error hw]; rfl
  | ok visits =>
    have hmin : min small.toNat large.toNat = small.toNat := by omega
    rw [sources_outcome hw, sources_outcome hw]
    simp [beforeCap_sources, Except.map, List.take_take, hmin]

/-- The source files of a walk from a normalised start are normalised and distinct. -/
theorem sources_distinct (hfs : fs.WellFormed) (hstart : ∀ s ∈ start.segments, s ≠ "..")
    (h : (sources fs policy cap start).outcome = (.ok found,log)) :
    found.map Path.normalize = found ∧ found.Nodup := by
  obtain ⟨visits,hwalk,hsub⟩ := sources_eq_ok h
  refine ⟨?_,hsub.nodup (hfs.walk_files_nodup hwalk)⟩
  have hnormal : ∀ p ∈ found, p.normalize = id p := fun p hp =>
    hfs.walk_files_normal hstart hwalk p (hsub.subset hp)
  rw [List.map_congr_left hnormal, List.map_id]

end WebAtlas.Walk
