import GeistServe.App.Observe

/-!
# The CPU share of the child: `app_resource_update`

Every reader of the status takes a sample of the child, or finds none, and passes it on to the
one window. A reader without a sample, or without a processor count, passes a null pointer or
a zero.
-/

namespace GeistServe.Observe

/-- The arguments of one call. -/
structure ResourceCall where
  sample : Option ProcessSample
  logicalCpus : Nat
  deriving DecidableEq

/-- `app_resource_update`. -/
def resourceUpdate (w : Window) (c : ResourceCall) : Window :=
  match c.sample with
  | none => {}
  | some p => appResourceUpdate w p c.logicalCpus

/-- The window after a sequence of calls. -/
def resourceRun (calls : List ResourceCall) : Window := calls.foldl resourceUpdate {}

/-- The monitor's samples of a request are such calls. -/
theorem sampleProcess_window (o : AppObserve) (r : Perf.Record) (p : ProcessSample) (n : Nat) :
    (sampleProcess o r p (some n)).window = resourceUpdate o.window ⟨some p, n⟩ := by
  simp only [sampleProcess, resourceUpdate]
  split
  · rfl
  · rfl

end GeistServe.Observe
