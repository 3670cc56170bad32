import GeistServe.Supervisor.Child

/-!
# The app's state

Everything that app.mutex guards, and the atomics beside it. The threads are
the main thread, the monitor, the one model job, the one comparison and the
HTTP workers; `Pc` says where a thread is between two of its locked sections.

What is only there for the proofs is said so at its field. An atomic flag keeps
the cancel call that has set it.
-/

namespace GeistServe.Supervisor

abbrev WORKER_CAP : Nat := 8

instance : NeZero WORKER_CAP := ⟨by decide⟩

inductive Thread where
  | main | monitor | job | comparison
  | worker (i : Fin WORKER_CAP)
  deriving DecidableEq

inductive Mode where
  | auto | cpu | gpu
  deriving DecidableEq

/-- An entry of `app_models`. -/
structure Model where
  id : Nat
  sha256 : Nat
  file : Nat
  bytes : Nat
  backends : Nat
  unsupportedFormat : Bool
  deriving DecidableEq

inductive Outcome where
  | completed | failed | cancelled
  deriving DecidableEq

/-- `id` is 0 before the first one. -/
structure Activity where
  id : Nat
  generation : Nat
  outcome : Option Outcome
  deriving DecidableEq

/-- `activity_end`. -/
def Activity.finish (a : Activity) (o : Outcome) : Activity :=
  if a.id = 0 ∨ a.outcome.isSome then a else { a with outcome := some o }

/-- An atomic flag, with the operation that the cancel call named which has set
it; a flag that is set otherwise names none. -/
inductive Flag where
  | clear
  | set (cause : Option Nat)
  deriving DecidableEq

def Flag.isSet : Flag → Bool
  | .clear => false
  | .set _ => true

def Flag.cause : Flag → Option Nat
  | .clear => none
  | .set c => c

inductive RecordOutcome where
  | completed | noAnswer | cancelled | disconnected | error | interrupted
  deriving DecidableEq

/-- A performance record: the figures of the process and the processes that its
samples were taken from. `op` is the request activity it belongs to; `answeredBy`
is kept for the proofs, the process that generated the answer. -/
structure Record where
  generation : Nat
  backend : Processor
  engine : Nat
  contention : Bool
  rss : List Nat
  memory : List Nat
  outcome : Option RecordOutcome
  op : Nat
  answeredBy : Option Nat
  deriving DecidableEq

/-- The model job. `model` is a copy: the table is not replaced while a job
runs. `op` is the activity it works under, at last the one of its start; `switch` is
the selection it found when it was to replace a running model. Both are kept for
the proofs. -/
structure Job where
  model : Option Model
  running : Bool
  download : Bool
  activate : Bool
  op : Nat
  switch : Option (Option Nat)
  deriving DecidableEq

/-- The comparison with the locals of its thread. `ops` is kept for the proofs:
the operations it has begun. -/
structure Compare where
  running : Bool
  path : Nat
  id : Option Nat
  previous : Mode
  gpu : Bool
  ops : List Nat
  deriving DecidableEq

/-- What a comparison found and left: the saved preferences, the mode, and
whether it was restored. -/
structure Compared where
  before : Nat → Option Mode
  after : Nat → Option Mode
  mode : Mode
  modeAfter : Mode
  restored : Bool

/-- A start by `poll_child`: the process that failed, the one started for it,
and the generation of the load activity there was. -/
structure Fallback where
  failed : Nat
  started : Nat
  load : Nat
  deriving DecidableEq

/-- What a cancel call has led to: the operation it named, and those it may
concern. -/
structure Hit where
  named : Nat
  among : List Nat
  deriving DecidableEq

/-- `app` and the atomics, and the preferences on disk: `selection` is the one
named selected, and `selected` what the app keeps of it. `gpuBit` is the bit of the
probed GPU in `backends`, `packaged` the identity of the packaged engine. An
`activeId` that is no model's is `none`. The fields behind `loadCancelled` are kept for the
proofs: the records handed to `perf_submit`, the model switches that ended
failed or cancelled with the selection they found and the one they left, the
starts of `poll_child`, the comparisons, and what the cancel calls have led
to. -/
structure AppState where
  child : Child
  activeId : Option Nat
  chosen : Nat
  mode : Mode
  save : Bool
  gpuAvailable : Bool
  gpuBit : Nat
  packaged : Nat
  models : List Model
  revision : Nat
  generating : Bool
  job : Job
  compare : Compare
  observe : Option Thread
  records : Thread → Record
  load : Activity
  request : Activity
  download : Activity
  operationId : Nat
  selected : Option Nat
  selection : Option Nat
  preference : Nat → Option Mode
  closing : Bool
  cancelled : Flag
  compareCancelled : Flag
  requestCancelled : Flag
  loadCancelled : Flag
  submitted : List Record
  ended : List (Option Nat × Option Nat)
  fallbacks : List Fallback
  begun : (Nat → Option Mode) × Mode
  compared : List Compared
  hits : List Hit

/-- `app_model_find`. -/
def AppState.find (s : AppState) (id : Option Nat) : Option Model :=
  s.models.find? fun m => decide (some m.id = id)

def APP_GIB : Nat := 2 ^ 30

/-- `gpu_supported`. -/
def AppState.gpuSupported (s : AppState) (m : Option Model) : Bool :=
  match m with
  | some m => s.gpuAvailable && decide (m.backends &&& s.gpuBit ≠ 0)
  | none => false

/-- `recommend_gpu`. -/
def AppState.recommendGpu (s : AppState) (m : Option Model) : Bool :=
  match m with
  | some model => s.gpuSupported m && decide (APP_GIB ≤ model.bytes)
  | none => false

/-! ## Where the threads are -/

/-- What a start is asked for: the arguments, the processor that follows from
them, and the selection of the switch it belongs to. -/
structure Start where
  path : Nat
  id : Option Nat
  mode : Mode
  processor : Processor
  switch : Option (Option Nat)
  deriving DecidableEq

/-- How an inference ended: the final code, and what the statistics say. -/
structure Answer where
  rc : Nat
  noAnswer : Bool
  tokens : Bool
  deriving DecidableEq

/-- Whose inference it is: a request's, or the `repeat`-th of a slot of the
comparison. -/
inductive Origin where
  | request
  | repetition (slot repeat_ : Nat)
  deriving DecidableEq

/-- Who has called `start_child_mode`, and is to go on behind it. -/
inductive Caller where
  | boot
  | job
  | execution (path : Nat) (id : Option Nat)
  | slot (n : Nat)
  | restore (ok : Bool)
  deriving DecidableEq

/-- What follows a `stop_child` that waits. -/
inductive Cont where
  | loadCancelled (k : Nat) (cause : Option Nat)
  | timedOut (k : Nat)
  | mismatch (k : Nat)
  | start (r : Start) (c : Caller)
  | refused (c : Caller)
  | observation (o : Origin) (a : Answer) (path : Nat) (id : Option Nat) (mode : Mode)
  | stopRoute
  | removeRoute (m : Model) (unlinks saves : Bool)
  | exit
  deriving DecidableEq

/-- A thread between two locked sections. -/
inductive Pc where
  | idle
  | starting | serving | draining | gone
  | accepted
  | waiting (w : Wait) (k : Cont)
  | working
  | admitted (o : Origin)
  | inferring (o : Origin) (k : Nat)
  | answered (o : Origin) (a : Answer)
  | observed (o : Origin) (a : Answer) (rc : Nat)
  | slot (n : Nat)
  | slotWait (n : Nat)
  | slotCheck (n : Nat)
  | repetition (n r : Nat)
  | restore (ok : Bool)
  | restoreWait (ok : Bool)
  | finish (ok restored : Bool)
  deriving DecidableEq

/-- What the calls of a locked section answer. `strikes` is a cancel or a signal
that comes after the section has first looked at the flags, `late` one that
comes behind a look outside of the lock. -/
structure World where
  fault : Option Fault := none
  again : Option Fault := none
  engine : Nat := 0
  archives : Bool := true
  saves : Bool := true
  reads : Bool := true
  samples : Bool := false
  strikes : Bool := false
  late : Bool := false

/-- The app and its threads. -/
structure Sys where
  app : AppState
  pc : Thread → Pc

end GeistServe.Supervisor
