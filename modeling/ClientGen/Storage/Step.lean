import ClientGen.Log
import ClientGen.Storage.Disk

/-!
# Steps on a disk

A step may change a disk, leave records, and fail. What it has changed until then stays, and so
do its records. `OnDisk` is a monad, whose steps find the disk as the steps before have left it.
-/
namespace ClientGen

structure Run (α : Type) where
  disk : Disk
  records : List Record
  outcome : Outcome α

/-- A step that finds a disk and leaves one. -/
def OnDisk (α : Type) := Disk → Run α

namespace OnDisk

variable {α β : Type}

def bind (step : OnDisk α) (next : α → OnDisk β) : OnDisk β := fun d =>
  match step d with
  | ⟨d, records, .ok a⟩ =>
    let after := next a d
    ⟨after.disk, records ++ after.records, after.outcome⟩
  | ⟨d, records, .error e⟩ => ⟨d, records, .error e⟩

instance : Monad OnDisk where
  pure a := fun d => ⟨d, [], .ok a⟩
  bind := bind

def ofLogged (step : Logged α) : OnDisk α := fun d => ⟨d, step.records, step.outcome⟩

instance : MonadLift Logged OnDisk := ⟨ofLogged⟩

def look (f : Disk → Outcome α) : OnDisk α := fun d => ⟨d, [], f d⟩

/-- A step that takes a file away again if it fails. -/
def removingOnFailure (l : Location) (step : OnDisk α) : OnDisk α := fun d =>
  match step d with
  | ⟨after, records, .error e⟩ => ⟨after.erase l, records, .error e⟩
  | run => run

theorem run_pure (a : α) (d : Disk) : (pure a : OnDisk α) d = ⟨d, [], .ok a⟩ := rfl

theorem run_bind (step : OnDisk α) (next : α → OnDisk β) (d : Disk) :
    (step >>= next) d =
      match step d with
      | ⟨d, records, .ok a⟩ =>
        ⟨(next a d).disk, records ++ (next a d).records, (next a d).outcome⟩
      | ⟨d, records, .error e⟩ => ⟨d, records, .error e⟩ := rfl

/-- After a step that fails, nothing more happens. -/
theorem run_bind_of_error {step : OnDisk α} {d after : Disk} {records : List Record} {e : Failure}
    (h : step d = ⟨after, records, .error e⟩) (next : α → OnDisk β) :
    (step >>= next) d = ⟨after, records, .error e⟩ := by
  simp [run_bind, h]

end OnDisk

end ClientGen
