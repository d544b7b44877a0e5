import WebAtlas.Log

/-! # Runs of reporting computations

A computation that goes on after another starts from the records that the first has left.
-/
namespace WebAtlas.Reporting
variable {ε α β : Type}

theorem run_bind (task : Reporting ε α) (next : α → Reporting ε β) (log : Log) :
    (task >>= next).run.run log = match task.run.run log with
      | (.ok a, log') => (next a).run.run log'
      | (.error e, log') => (.error e, log') := by
  change (ExceptT.bind task next).run.run log = _
  simp only [ExceptT.bind, ExceptT.mk, ExceptT.run, StateT.run, bind, StateT.bind]
  rcases task log with ⟨_ | a,log'⟩
  · rfl
  · rfl

/-- What is made of the value of a computation changes neither its failures nor its records. -/
theorem outcome_bind_pure (task : Reporting ε α) (f : α → β) :
    (task >>= fun a => pure (f a)).outcome = (task.outcome.1.map f,task.outcome.2) := by
  unfold outcome
  rw [run_bind]
  rcases task.run.run [] with ⟨_ | a,log⟩
  · rfl
  · rfl

/-- Whatever was reported before, a computation keeps it and adds records that satisfy `P`. -/
def Adds (P : LogRecord → Prop) (task : Reporting ε α) : Prop :=
  ∀ log, ∃ added, (task.run.run log).2 = log ++ added ∧ ∀ r ∈ added, P r

section Adds
variable {P : LogRecord → Prop} {task : Reporting ε α} {next : α → Reporting ε β}

theorem adds_pure (a : α) : Adds P (pure a : Reporting ε α) := fun log =>
  ⟨[],(List.append_nil log).symm,fun _ hr => absurd hr List.not_mem_nil⟩

theorem adds_throw (e : ε) : Adds P (throw e : Reporting ε α) := fun log =>
  ⟨[],(List.append_nil log).symm,fun _ hr => absurd hr List.not_mem_nil⟩

theorem adds_report {severity : Severity} {component message : String}
    (h : P ⟨severity,component,message⟩) :
    Adds P (report severity component message : Reporting ε Unit) := fun _ =>
  ⟨_,rfl,List.forall_mem_singleton.mpr h⟩

theorem Adds.bind (h : Adds P task) (hn : ∀ a, Adds P (next a)) : Adds P (task >>= next) := by
  intro log
  obtain ⟨added,hadded,hP⟩ := h log
  rw [run_bind]
  rcases hr : task.run.run log with ⟨_ | a,mid⟩
  · rw [hr] at hadded
    exact ⟨added,hadded,hP⟩
  · rw [hr] at hadded
    obtain rfl : mid = log ++ added := hadded
    obtain ⟨later,hlater,hP'⟩ := hn a (log ++ added)
    refine ⟨added ++ later,hlater.trans (List.append_assoc ..),?_⟩
    intro r hmem
    rcases List.mem_append.mp hmem with hmem | hmem
    · exact hP r hmem
    · exact hP' r hmem

theorem adds_forM {each : α → Reporting ε Unit} (h : ∀ a, Adds P (each a)) (items : List α) :
    Adds P (items.forM each) := by
  induction items with
  | nil => exact adds_pure ()
  | cons a items ih => exact (h a).bind fun _ => ih

theorem adds_foldlM {each : β → α → Reporting ε β} (h : ∀ b a, Adds P (each b a)) (items : List α)
    (b : β) : Adds P (items.foldlM each b) := by
  induction items generalizing b with
  | nil => exact adds_pure b
  | cons a items ih => exact (h b a).bind ih

theorem Adds.outcome (h : Adds P task) : ∀ r ∈ task.outcome.2, P r := by
  obtain ⟨added,hadded,hP⟩ := h []
  intro r hr
  exact hP r (by rwa [Reporting.outcome, hadded, List.nil_append] at hr)

end Adds

end WebAtlas.Reporting
