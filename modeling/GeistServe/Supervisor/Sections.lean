import GeistServe.App.Held
import GeistServe.Supervisor.State

/-!
# The locked sections

What a thread does from taking app.mutex to giving it up: in `stop_child`, while
it waits, or at the end of the section. A section answers the new state and the
place where its thread stands then.

A section that waits goes on in `afterStop`. Only the first `stop_child` of a
section can find a process, so those behind it, and the starts behind it
(`startIdle`), are done at once.
-/

namespace GeistServe.Supervisor

/-! ## Activities -/

/-- `begin_activity` for the load activity. -/
def AppState.beginLoad (s : AppState) (generation : Nat) : AppState :=
  { s with operationId := s.operationId + 1, load := ⟨s.operationId + 1, generation, none⟩ }

def AppState.beginRequest (s : AppState) (generation : Nat) : AppState :=
  { s with operationId := s.operationId + 1, request := ⟨s.operationId + 1, generation, none⟩ }

def AppState.beginDownload (s : AppState) (generation : Nat) : AppState :=
  { s with operationId := s.operationId + 1, download := ⟨s.operationId + 1, generation, none⟩ }

def AppState.own (s : AppState) (c : Child) : AppState := { s with child := c }

def AppState.endLoad (s : AppState) (o : Outcome) : AppState := { s with load := s.load.finish o }

/-! ## start_child_mode -/

/-- The processor that a mode means for a model. -/
def AppState.processorOf (s : AppState) (id : Option Nat) (mode : Mode) : Processor :=
  if mode = .gpu ∨ (mode = .auto ∧ s.recommendGpu (s.find id)) then .gpu else .cpu

/-- The GPU is asked for and not supported. -/
def AppState.refuses (s : AppState) (id : Option Nat) (mode : Mode) : Bool :=
  decide (s.processorOf id mode = .gpu) && !s.gpuSupported (s.find id)

/-- `start_child_mode_impl` in front of its `stop_child`. -/
def AppState.prepare (s : AppState) : AppState :=
  let s := if s.load.id = 0 ∨ s.load.outcome.isSome then s.beginLoad (s.child.generation + 1)
    else s
  { s with loadCancelled := .clear }

/-- `start_child_mode` behind the `stop_child` of `start_child_mode_impl`. -/
def AppState.launch (s : AppState) (r : Start) (fault : Option Fault) (engine : Nat) : AppState × Bool :=
  let p : Process := ⟨r.processor, engine, s.load.id, r.switch, false, .running⟩
  let started := s.child.launch s.packaged p fault
  if started.2 then
    ({ s with
      child := started.1
      chosen := r.path
      activeId := r.id
      mode := r.mode
      save := true
      load := { s.load with generation := started.1.generation } }, true)
  else ((s.own (started.1.beginStop none).1).endLoad .failed, false)

/-- `start_child_mode` when there is no process. -/
def AppState.startIdle (s : AppState) (path : Nat) (id : Option Nat) (mode : Mode)
    (switch : Option (Option Nat)) (fault : Option Fault) (engine : Nat) : AppState × Bool :=
  if s.refuses id mode then
    ((s.own (s.child.beginStop none).1).endLoad .failed, false)
  else
    let s := s.prepare
    (s.own (s.child.beginStop none).1).launch
      ⟨path, id, mode, s.processorOf id mode, switch⟩ fault engine

/-- The mode `start_child` finds: what is saved for the model, if it can be
read and is possible. -/
def AppState.savedMode (s : AppState) (m : Option Model) (reads : Bool) : Mode :=
  match m with
  | some model =>
      match if reads then s.preference model.sha256 else none with
      | some .cpu => .cpu
      | some .gpu => if s.gpuSupported m then .gpu else .auto
      | _ => .auto
  | none => .auto

/-! ## Observation -/

/-- `observation_sample`, when it is due and the process can be read. The memory
sample counts for the generation of the record only. -/
def AppState.sample (s : AppState) (reads : Bool) : AppState :=
  { s with records := match s.observe, s.child.pid, reads with
    | some t, some k, true =>
        let r := s.records t
        Function.update s.records t { r with
          rss := r.rss ++ [k]
          memory := if !s.child.stopping && decide (r.generation = s.child.generation)
            then r.memory ++ [k] else r.memory }
    | _, _, _ => s.records }

/-- `observation_begin`. -/
def AppState.observationBegin (s : AppState) (t : Thread) (w : World) : AppState :=
  let s := s.beginRequest s.child.generation
  { s with
    requestCancelled := .clear
    observe := some t
    records := Function.update s.records t {
      generation := s.child.generation
      backend := s.child.active
      engine := s.child.engine
      contention := s.job.running && !s.job.activate
      rss := [], memory := [], outcome := none
      op := s.request.id, answeredBy := none } }.sample w.samples

/-- The outcome of a record. -/
def outcomeOf (rc : Nat) (noAnswer : Bool) : RecordOutcome :=
  if rc = 499 then .cancelled
  else if rc = 498 then .disconnected
  else if rc = 422 ∧ noAnswer then .noAnswer
  else if rc = 400 then .error
  else if rc ≠ 0 then .interrupted
  else if noAnswer then .noAnswer
  else .completed

def AppState.hit (s : AppState) (cause : Option Nat) (among : List Nat) : AppState :=
  { s with hits := cause.toList.map (⟨·, among⟩) ++ s.hits }

/-- `observation_end` up to `perf_submit`; a disconnection behind a cancellation
counts as cancelled. -/
def AppState.observationEnd (s : AppState) (t : Thread) (a : Answer) (w : World) : AppState × Nat :=
  let s := s.sample w.samples
  let turned := decide (a.rc = 498) && s.requestCancelled.isSet
  let s := if turned then s.hit s.requestCancelled.cause [(s.records t).op] else s
  let rc := if turned then 499 else a.rc
  let r := { s.records t with outcome := some (outcomeOf rc a.noAnswer) }
  ({ s with
    observe := none
    records := Function.update s.records t r
    request := s.request.finish (if rc = 499 then .cancelled else if rc = 0 then .completed
      else .failed)
    submitted := r :: s.submitted }, rc)

/-- Behind `observation_end`. The comparison goes on with the code that it had
itself. -/
def afterObservation (s : AppState) (o : Origin) (a : Answer) : AppState × Pc :=
  match o with
  | .request => (s, .idle)
  | .repetition n r =>
      (s, if a.rc = 0 ∧ a.tokens then
        if r + 1 < 4 then .repetition n (r + 1)
        else if n + 1 < (if s.compare.gpu then 2 else 1) then .slot (n + 1)
        else .restore true
      else .restore false)

/-! ## Failures -/

/-- A model switch has ended failed or cancelled. -/
def AppState.switchEnds (s : AppState) (switch : Option (Option Nat)) : AppState :=
  { s with ended := switch.toList.map (·, s.selection) ++ s.ended }

/-- `poll_child` goes back to the CPU, if the log can be archived. -/
def AppState.fallBack (s : AppState) (k : Nat) (switch : Option (Option Nat)) (w : World) :
    AppState :=
  if s.child.active ≠ .cpu ∧ w.archives then
    let started := s.startIdle s.chosen s.activeId .cpu switch w.fault w.engine
    if started.2 then
      { started.1 with
        fallbacks := ⟨k, started.1.child.generation, s.load.generation⟩ :: started.1.fallbacks }
    else started.1.switchEnds switch
  else s.switchEnds switch

/-- `poll_child` behind the reaping, or the stopping, of a process that failed.
`loading` says that it had not been ready. -/
def AppState.childFailed (s : AppState) (k : Nat) (loading : Bool) (w : World) : AppState :=
  let s := s.own s.child.gone
  let switch := if loading then (s.child.procs k).bind (·.switch) else none
  if s.load.generation > s.child.generation then s.switchEnds switch
  else (s.endLoad .failed).fallBack k switch w

/-! ## Selections -/

/-- `save_selection`, when the preference can be saved. -/
def AppState.saveSelection (s : AppState) (id : Option Nat) : AppState :=
  { s with selection := id, selected := id }

/-- The removal of a model's files, behind the `stop_child`: whether they could
be unlinked, and whether the preference can be saved. -/
def AppState.removed (s : AppState) (m : Model) (unlinks saves : Bool) : AppState :=
  if unlinks then
    let s := if s.selected = some m.id ∧ saves then s.saveSelection none else s
    if s.selected ≠ some m.id ∧ s.activeId = some m.id then { s with activeId := none } else s
  else s

/-! ## The model job -/

/-- The end of `model_job`, behind the start if there is one. -/
def AppState.jobDone (s : AppState) (ok : Bool) (w : World) : AppState :=
  let s := if w.strikes ∧ s.cancelled = .clear then { s with cancelled := .set none } else s
  let stopped := s.cancelled.isSet || s.closing
  let failed := !ok || (s.job.activate && s.child.pid.isNone)
  let outcome : Option Outcome :=
    if stopped then some .cancelled
    else if failed then some .failed
    else if s.job.activate then none else some .completed
  let s := s.hit s.cancelled.cause [s.job.op]
  let s := match outcome with
    | some o =>
        if s.job.activate then s.endLoad o else { s with download := s.download.finish o }
    | none => s
  let s := if stopped || failed then s.switchEnds s.job.switch else s
  { s with job := { s.job with running := false } }

/-! ## Behind a start and behind a stop -/

def afterStart (c : Caller) (s : AppState) (ok : Bool) (w : World) : AppState × Pc :=
  match c with
  | .boot => (s, .serving)
  | .job =>
      let s := { s with job := { s.job with op := s.load.id } }
      let s := if ok ∧ w.saves then s.saveSelection (s.job.model.map (·.id)) else s
      (s.jobDone true w, .idle)
  | .execution path id =>
      (if ok then s else (s.startIdle path id .cpu none w.again w.engine).1, .idle)
  | .slot n => ({ s with save := false }, if ok then .slotWait n else .restore false)
  | .restore done =>
      ({ s with save := false }, if ok then .restoreWait done else .finish done false)

/-- What follows a `stop_child` that is done. -/
def afterStop (k : Cont) (s : AppState) (w : World) : AppState × Pc :=
  match k with
  | .loadCancelled p cause =>
      let s := s.hit cause [s.load.id]
      ((s.endLoad .cancelled).switchEnds ((s.child.procs p).bind (·.switch)), .idle)
  | .timedOut p => (s.childFailed p true w, .idle)
  | .mismatch p =>
      ((s.endLoad .failed).switchEnds ((s.child.procs p).bind (·.switch)), .idle)
  | .start r c =>
      let started := s.launch r w.fault w.engine
      afterStart c started.1 started.2 w
  | .refused c => afterStart c (s.endLoad .failed) false w
  | .observation o a path id mode =>
      let s := if w.archives then (s.startIdle path id mode none w.fault w.engine).1
        else s.endLoad .failed
      afterObservation { s with generating := false } o a
  | .stopRoute => ({ s with activeId := none }, .idle)
  | .removeRoute m unlinks saves =>
      (s.removed m unlinks saves, .idle)
  | .exit => (s, .gone)

/-- `stop_child`, and what follows it if it does not have to wait. -/
def stopChild (s : AppState) (cause : Option Nat) (k : Cont) (w : World) : AppState × Pc :=
  let stop := s.child.beginStop cause
  match stop.2 with
  | some wait => (s.own stop.1, .waiting wait k)
  | none => afterStop k (s.own stop.1) w

/-- A thread wakes up in `stop_child`. -/
def wakes (s : AppState) (wait : Wait) (k : Cont) (w : World) : AppState × Pc :=
  let stop := s.child.stopLook wait
  match stop.2 with
  | some wait => (s.own stop.1, .waiting wait k)
  | none => afterStop k (s.own stop.1) w

/-- `start_child_mode`. -/
def startChildMode (s : AppState) (path : Nat) (id : Option Nat) (mode : Mode)
    (switch : Option (Option Nat)) (c : Caller) (w : World) : AppState × Pc :=
  if s.refuses id mode then stopChild s none (.refused c) w
  else
    let s := s.prepare
    stopChild s none (.start ⟨path, id, mode, s.processorOf id mode, switch⟩ c) w

/-! ## poll_child -/

/-- What `poll_child` finds besides the state: whether 120 s of loading have
passed, and whether the handshake is tried and answered, with the processor
reported if one is. -/
structure Round where
  timedOut : Bool := false
  answers : Option (Option Processor) := none

/-- The process has become ready. -/
def AppState.published (s : AppState) (saves : Bool) : AppState :=
  let s := (s.own s.child.publish).endLoad .completed
  { s with
    preference := match s.find s.activeId, s.save && saves with
      | some m, true => Function.update s.preference m.sha256 (some s.mode)
      | _, _ => s.preference
    save := false }

/-- `poll_child`. -/
def pollChild (s : AppState) (r : Round) (w : World) : AppState × Pc :=
  match s.child.pid with
  | none => (s, .idle)
  | some k =>
      if s.child.stopping then (s, .idle)
      else if s.loadCancelled.isSet ∧ s.child.ready = false then
        stopChild s s.loadCancelled.cause (.loadCancelled k s.loadCancelled.cause) w
      else
        let ended := s.child.waitpid.2
        let s := s.own s.child.waitpid.1
        if r.timedOut ∧ s.child.ready = false then stopChild s none (.timedOut k) w
        else if ended then
          ((s.own s.child.dropped).childFailed k (!s.child.ready) w, .idle)
        else if s.child.ready then (s, .idle)
        else
          match r.answers with
          | none => (s, .idle)
          | some reported =>
              let s := s.own s.child.identified
              if reported.any (· ≠ s.child.active) then stopChild s none (.mismatch k) w
              else (s.published w.saves, .idle)

/-- The monitor takes its samples when `poll_child` has returned. -/
def roundEnd (t : Thread) (r : AppState × Pc) (w : World) : AppState × Pc :=
  if t = .monitor ∧ r.2 = .idle then (r.1.sample w.samples, .idle) else r

/-- A round of the monitor. -/
def monitorRound (s : AppState) (r : Round) (w : World) : AppState × Pc :=
  roundEnd .monitor (pollChild s r w) w

end GeistServe.Supervisor
