import ClientGen.Failure

/-!
# Log records

A step of the program gives an outcome and the records it left on the way; the records are there
even if the outcome is a failure. `Logged` is a monad, whose steps leave their records one after
another until the first failure.
-/
namespace ClientGen

inductive Severity where
  | debug
  | info
  | warning
  deriving DecidableEq, Repr

inductive Activity where
  | models
  | operations
  | filter
  | compilation
  | generation
  | writing
  deriving DecidableEq, Repr

structure Record where
  severity : Severity
  activity : Activity
  message : String
  deriving DecidableEq, Repr

/-- The word for a severity in a log line. -/
def Severity.label : Severity → String
  | .debug => "DEBUG"
  | .info => "INFO"
  | .warning => "WARNING"

/-- The name of an activity in a log line. -/
def Activity.label : Activity → String
  | .models => "swagger_to_code.pipeline.analyzer.model_builder"
  | .operations => "swagger_to_code.pipeline.analyzer.operation_builder"
  | .filter => "swagger_to_code.pipeline.analyzer.tag_filter"
  | .compilation => "swagger_to_code.pipeline.analyzer.compiler"
  | .generation => "swagger_to_code.pipeline.generator"
  | .writing => "swagger_to_code.pipeline.output.atomic_writer"

def Record.line (r : Record) : String :=
  r.severity.label ++ " " ++ r.activity.label ++ ": " ++ r.message ++ "\n"

/-- The outcome of a step, and the records that the step left. -/
structure Logged (α : Type) where
  records : List Record
  outcome : Outcome α

namespace Logged

def ofOutcome {α : Type} (outcome : Outcome α) : Logged α := ⟨[], outcome⟩

def bind {α β : Type} (step : Logged α) (next : α → Logged β) : Logged β :=
  match step.outcome with
  | .ok a => ⟨step.records ++ (next a).records, (next a).outcome⟩
  | .error e => ⟨step.records, .error e⟩

instance : Monad Logged where
  pure a := ⟨[], .ok a⟩
  bind := bind

instance : MonadLift (Except Failure) Logged := ⟨ofOutcome⟩

/-- A step that leaves one record. -/
def note (severity : Severity) (activity : Activity) (message : String) : Logged Unit :=
  ⟨[⟨severity, activity, message⟩], .ok ()⟩

@[simp] theorem outcome_pure {α : Type} (a : α) : (pure a : Logged α).outcome = .ok a := rfl

/-- The outcome of two steps is that of the second run on the outcome of the first. -/
@[simp] theorem outcome_bind {α β : Type} (step : Logged α) (next : α → Logged β) :
    (step >>= next).outcome = step.outcome >>= fun a => (next a).outcome := by
  show (bind step next).outcome = _
  unfold bind
  cases step.outcome <;> rfl

@[simp] theorem outcome_ofOutcome {α : Type} (outcome : Outcome α) :
    (ofOutcome outcome).outcome = outcome := rfl

@[simp] theorem outcome_note (s : Severity) (a : Activity) (m : String) :
    (note s a m).outcome = .ok () := rfl

end Logged

end ClientGen
