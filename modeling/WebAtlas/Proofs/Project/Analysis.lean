import WebAtlas.Project.Analysis
import WebAtlas.Proofs.FileSystem.RealPath
import WebAtlas.Proofs.Reporting

/-! # How an analysis is put together

Each pass runs on its own. What it gives, or that it gives nothing, is its part of the analysis, and
nothing else of it is seen.
-/
namespace WebAtlas
variable {fs : FileSystem} {room : Nat} {settings : Settings} {stamp : String} {root project : Path}

/-- What becomes of the handler files once a project and its files are found. -/
theorem Route.scan_outcome : (scan fs settings stamp project).outcome.1 =
    match fs.resolve project with
    | .error fault => .error fault
    | .ok root => (handlers fs settings root).outcome.1.map fun files =>
        ⟨(files.flatMap (ofFile fs root)).mergeSort before,root.text,stamp⟩ := by
  unfold scan Project.root
  cases fs.resolve project with
  | error fault => rfl
  | ok root => exact congrArg Prod.fst (Reporting.outcome_bind_pure (handlers fs settings root) _)

/-- What becomes of the component files once a project and its files are found. -/
theorem Component.scanUnder_outcome {policy : WalkPolicy} {aliasPrefix : String} :
    (scanUnder fs policy aliasPrefix stamp project).outcome.1 =
      match fs.resolve project with
      | .error fault => .error fault
      | .ok root => (files fs policy root).outcome.1.map fun found =>
          ⟨(found.filterMap (ofFile? fs aliasPrefix root)).mergeSort before,
            DirectoryCount.ofComponents (found.filterMap (ofFile? fs aliasPrefix root)),
            root.text,stamp⟩ := by
  unfold scanUnder Project.root
  cases fs.resolve project with
  | error fault => rfl
  | ok root => exact congrArg Prod.fst (Reporting.outcome_bind_pure (files fs policy root) _)

/-- What becomes of the schema file once a project is found. -/
theorem Schema.scan_outcome {keywords : List String} :
    (scan fs keywords stamp project).outcome.1 = match fs.resolve project with
      | .error fault => .error fault
      | .ok root => match file? fs root with
        | .error e => .error (.file e)
        | .ok none => .ok none
        | .ok (some file) => .ok ((Source.read? fs file).map (reportOn keywords stamp fs root file)) := by
  unfold scan Project.root
  cases fs.resolve project with
  | error fault => rfl
  | ok root =>
    change (match file? fs root with
      | .error e => throw (.file e)
      | .ok none => pure none
      | .ok (some file) => pure ((Source.read? fs file).map (reportOn keywords stamp fs root file)) :
        Reporting Fault (Option SchemaReport)).outcome.1 = _
    dsimp only
    rcases file? fs root with e | _ | file <;> rfl

theorem Schema.scan_of_refused {keywords : List String} {e : FileError}
    (hroot : fs.resolve project = .ok root) (hfile : file? fs root = .error e) :
    (scan fs keywords stamp project).outcome.1 = .error (.file e) := by
  rw [scan_outcome, hroot]
  dsimp only
  rw [hfile]

/-- A project that passes the check is named by its real path from then on. -/
theorem Project.resolve_of_validate {text : String} (h : validate fs (some text) = .ok root) :
    fs.resolve (Path.parse text) = .ok root := by
  unfold validate at h
  split at h
  · cases h
  · cases h
  · rename_i path hpath
    cases hpath
    cases hr : fs.resolve (Path.parse text) with
    | error fault => simp [hr] at h
    | ok real =>
      simp only [hr] at h
      split at h <;> cases h
      rfl

/-- A text with a null byte is not even looked up. -/
theorem Project.validate_of_null {text : String} (ht : text ≠ "")
    (hz : (Path.parse text).segments.any Path.holdsNull = true) :
    validate fs (some text) = .error .nullByte := by
  unfold validate
  split
  · cases ‹some text = none›
  · rename_i hempty
    exact absurd (Option.some.inj hempty) ht
  · rename_i path hpath
    cases hpath
    rw [FileSystem.resolve_of_null hz]

/-- What becomes of a path once it is resolved depends on what lies there. -/
theorem Project.validate_of_resolve {text : String} (ht : text ≠ "")
    (hr : fs.resolve (Path.parse text) = .ok root) : validate fs (some text) =
      match fs.status root with
      | .ok (_,entry) =>
        if entry.isDirectory then .ok root else .error (.projectPath (.notDirectory root))
      | .error .nameTooLong =>
        if root.segments.any Path.holdsNull then .error (.projectPath (.missing root))
        else .error (.file ⟨.nameTooLong,root⟩)
      | .error _ => .error (.projectPath (.missing root)) := by
  unfold validate
  split
  · cases ‹some text = none›
  · rename_i hempty
    exact absurd (Option.some.inj hempty) ht
  · rename_i path hpath
    cases hpath
    simp only [hr, FileSystem.exists?, FileSystem.isDirectory?, FileSystem.test]
    rcases fs.status root with fault | ⟨loc,entry⟩
    · cases root.segments.any Path.holdsNull <;> cases fault <;> rfl
    · cases entry <;> rfl

theorem Project.validate_of_directory {text : String} {loc : Location} (ht : text ≠ "")
    (hr : fs.resolve (Path.parse text) = .ok root) (hs : fs.status root = .ok (loc,.directory)) :
    validate fs (some text) = .ok root := by
  rw [validate_of_resolve ht hr, hs]
  rfl

theorem Project.name_of_absent (h : fs.status (root.child "package.json") = .error .missing) :
    name fs room root = .ok root.name := by
  have hfile : fs.isFile? (root.child "package.json") = .ok false := FileSystem.isFile?_of_absent h
  unfold name
  simp only [hfile]

namespace Analysis
variable {options : Options}

/-- What a pass adds to the log besides its own records. -/
def failureLog {α : Type} (name : String) : Except Fault α → Log
  | .ok _ => []
  | .error fault => [⟨.error,"analyzer",s!"{name} pass failed: {fault.message}"⟩]

theorem run_attempt {α : Type} (name : String) (pass : Reporting Fault α) (log : Log) :
    (attempt name pass).run.run log =
      (.ok pass.outcome.1.toOption,log ++ pass.outcome.2 ++ failureLog name pass.outcome.1) := by
  unfold attempt
  rcases pass.outcome with ⟨_ | value,records⟩
  · rfl
  · exact Prod.ext rfl (List.append_nil _).symm

/-- The parts of an analysis are the results of the passes, each as if it ran alone. -/
theorem run_outcome {name : CodePoints} (hname : Project.name fs room root = .ok name) :
    (run fs room settings options stamp root).outcome.1 = .ok {
      projectPath := root.text
      projectName := name
      generatedAt := stamp
      routes := (Route.scan fs settings stamp root).outcome.1.toOption.filter (!·.routes.isEmpty)
      components := (Component.scan fs settings (options.aliasPrefix.getD settings.aliasPrefix) stamp
        root).outcome.1.toOption.filter (!·.components.isEmpty)
      schema := (Schema.scan fs settings.entityKeywordList stamp root).outcome.1.toOption.join.filter
        (!·.entities.isEmpty)
      graph := (Graph.build fs settings (options.aliasPrefix.getD settings.aliasPrefix)
        (options.maxFiles.getD settings.maxFiles) stamp root).outcome.1.toOption.filter
          (!·.nodes.isEmpty) } := by
  unfold run Reporting.outcome
  simp only [Reporting.run_bind, run_attempt, hname]
  rfl

theorem run_outcome_error {fault : Fault} (hname : Project.name fs room root = .error fault) :
    (run fs room settings options stamp root).outcome.1 = .error fault := by
  unfold run Reporting.outcome
  simp only [Reporting.run_bind, run_attempt, hname]
  rfl

theorem toOption_eq_some {ε α : Type} {e : Except ε α} {a : α} (h : e.toOption = some a) : e = .ok a := by
  cases e with
  | error _ => cases h
  | ok _ => cases h; rfl

/-- An analysis that succeeds has a name for its project and the parts of its passes. -/
theorem ofPath_runs {text : String} {analysis : Analysis CodePoints}
    (h : (ofPath fs room settings options stamp (some text)).outcome.1 = .ok analysis) :
    ∃ root name, Project.validate fs (some text) = .ok root ∧ Project.name fs room root = .ok name ∧
      (run fs room settings options stamp root).outcome.1 = .ok analysis := by
  unfold ofPath at h
  cases hv : Project.validate fs (some text) with
  | error fault => rw [hv] at h; cases h
  | ok root =>
    rw [hv] at h
    cases hname : Project.name fs room root with
    | ok name => exact ⟨root,name,rfl,hname,h⟩
    | error fault =>
      unfold run Reporting.outcome at h
      simp only [Reporting.run_bind, run_attempt, hname] at h
      cases h

theorem ofPath_eq_ok {text : String} {analysis : Analysis CodePoints} {root : Path}
    (hroot : fs.resolve (Path.parse text) = .ok root)
    (h : (ofPath fs room settings options stamp (some text)).outcome.1 = .ok analysis) :
    ∃ name, Project.name fs room root = .ok name ∧
      (run fs room settings options stamp root).outcome.1 = .ok analysis := by
  obtain ⟨real,name,hv,hname,hrun⟩ := ofPath_runs h
  have hreal := Project.resolve_of_validate hv
  rw [hroot] at hreal
  cases hreal
  exact ⟨name,hname,hrun⟩

end Analysis
end WebAtlas
