/-! # Log records

What a run reports besides its answer, in the order of the reports, and the computations that report
while they run: one may fail, and keeps its records when it does.
-/
namespace WebAtlas

inductive Severity
  | warning
  | error
deriving DecidableEq, Repr

def Severity.name : Severity → String
  | .warning => "WARNING"
  | .error => "ERROR"

structure LogRecord where
  severity : Severity
  component : String
  message : String
deriving DecidableEq, Repr

abbrev Log := List LogRecord

/-- A computation that reports and may fail with an `ε`. -/
abbrev Reporting (ε α : Type) := ExceptT ε (StateM Log) α

namespace Reporting

def report {ε : Type} (severity : Severity) (component message : String) : Reporting ε Unit :=
  modify (· ++ [⟨severity, component, message⟩])

/-- The outcome and all that was reported. -/
def outcome {ε α : Type} (task : Reporting ε α) : Except ε α × Log := task.run.run []

/-- Takes in the reports of a computation that ran on its own. -/
def absorb {ε : Type} (log : Log) : Reporting ε Unit := modify (· ++ log)

end Reporting

end WebAtlas
