import Mathlib.Algebra.Order.Field.Rat
import GeistServe.Perf.Record

/-!
# The log of one activity: `activity.c`

A load, a request or a download keeps one `struct activity`: which operation it
is, the phases it has gone through, and in the end its outcome. The calls come
from several threads and may be late, so each checks by itself whether it is
still about this activity. The phases in use are a list here, oldest first; a
time is a number of milliseconds, without the rounding of a `double`.
-/

namespace GeistServe.App

open GeistServe.Geistd GeistServe.Perf

def ACTIVITY_PHASES : Nat := 16

/-- `enum activity_stage`. A C `enum` admits other values too. -/
inductive ActivityStage where
  | none | receipt | hash | download | stopping | starting | loading | backend | model
  | metadata | warmup | ready | connect | «open» | tokenize | prefill | generate | preparing
  | answer
  | other (value : Nat)
  deriving DecidableEq

/-- `stage > ACT_NONE && stage <= ACT_ANSWER`. -/
def ActivityStage.listed : ActivityStage → Bool
  | .none | .other _ => false
  | _ => true

/-- `struct activity_phase`. -/
structure ActivityPhase where
  stage : ActivityStage
  start : Rat
  duration : Rat := 0
  deriving DecidableEq

/-- `struct activity`. -/
structure Activity where
  id : UInt64
  generation : UInt64
  sequence : UInt64
  progress : UInt64 := 0
  started : Rat
  eventAt : Rat
  ended : Rat := 0
  stage : ActivityStage
  outcome : CStr := []
  backend : CStr := []
  model : CStr := []
  error : Int := 0
  phases : List ActivityPhase
  engine : AppEngine := {}
  deriving DecidableEq

/-- `activity_begin`. -/
def activityBegin (id generation : UInt64) (stage : ActivityStage) (now : Rat) : Activity where
  id := id
  generation := generation
  sequence := 1
  started := now
  eventAt := now
  stage := stage
  phases := [{ stage := stage, start := now }]

/-- `a->phase[a->phases - 1].duration = now - a->phase[a->phases - 1].start`. -/
def closePhase (now : Rat) (phases : List ActivityPhase) : List ActivityPhase :=
  phases.modify (phases.length - 1) fun p => { p with duration := now - p.start }

/-- `activity_step`. -/
def activityStep (a : Activity) (id generation : UInt64) (stage : ActivityStage) (now : Rat) :
    Activity × Bool :=
  if a.id = 0 ∨ a.id ≠ id ∨ a.generation ≠ generation ∨ a.outcome ≠ [] ∨ stage.listed = false ∨
      a.stage = stage ∨ now < a.eventAt then (a, false)
  else if ACTIVITY_PHASES ≤ a.phases.length then (a, false)
  else
    ({ a with
        phases := closePhase now a.phases ++ [{ stage := stage, start := now }]
        stage := stage
        eventAt := now
        sequence := a.sequence + 1 }, true)

/-- `activity_progress`. It returns nothing; the answer here is whether it got past
its checks. -/
def activityProgress (a : Activity) (progress : UInt64) (now : Rat) : Activity × Bool :=
  if a.id = 0 ∨ a.outcome ≠ [] ∨ progress ≤ a.progress ∨ now < a.eventAt then (a, false)
  else ({ a with progress := progress, eventAt := now, sequence := a.sequence + 1 }, true)

/-- `activity_end`. -/
def activityEnd (a : Activity) (outcome : CStr) (error : Int) (now : Rat) : Activity × Bool :=
  if a.id = 0 ∨ a.outcome ≠ [] ∨ now < a.eventAt then (a, false)
  else
    ({ a with
        ended := now
        eventAt := now
        error := error
        sequence := a.sequence + 1
        phases := closePhase now a.phases
        outcome := fit 16 outcome }, true)

/-! ## A sequence of calls -/

inductive ActivityCall where
  | step (id generation : UInt64) (stage : ActivityStage) (now : Rat)
  | progress (progress : UInt64) (now : Rat)
  | «end» (outcome : CStr) (error : Int) (now : Rat)

/-- The state behind a call, and whether it was accepted. -/
def Activity.call (a : Activity) : ActivityCall → Activity × Bool
  | .step id generation stage now => activityStep a id generation stage now
  | .progress progress now => activityProgress a progress now
  | .end outcome error now => activityEnd a outcome error now

def Activity.calls (a : Activity) (cs : List ActivityCall) : Activity :=
  cs.foldl (fun a c => (a.call c).1) a

/-- The time that a call is given. -/
def ActivityCall.time : ActivityCall → Rat
  | .step _ _ _ now | .progress _ now | .end _ _ now => now

/-- An end has an outcome. -/
def ActivityCall.Named : ActivityCall → Prop
  | .end outcome _ _ => outcome ≠ []
  | _ => True

/-- A step names this activity. -/
def ActivityCall.names (a : Activity) : ActivityCall → Prop
  | .step id generation _ _ => id = a.id ∧ generation = a.generation
  | _ => True

end GeistServe.App
