import GeistServe.Lib.Machine
import GeistServe.Supervisor.Sections

/-!
# Requests, the comparison, and the app as a machine

A step of the machine is one locked section of one thread, or one thing a thread
does between two sections: an inference begins or ends, a socket path is read.
Every thread moves only itself. A thread that is created stands at `idle` with
its flag `running` set, and begins from there.
-/

namespace GeistServe.Supervisor

open GeistServe.Lib

/-! ## Requests -/

inductive Choice where
  | setup | preview | download | remove | select
  deriving DecidableEq

/-- What a request for a model finds: whether its path fits, the file is
installed and has a receipt that matches, the hardware is known and takes the
model, `app_recommend` chooses it, it can be removed safely and its files be
unlinked, and whether a thread can be created. -/
structure Facts where
  valid : Bool := true
  installed : Bool := true
  stamped : Bool := false
  known : Bool := true
  fits : Bool := true
  chosen : Bool := true
  safe : Bool := true
  unlinks : Bool := true
  thread : Bool := true

/-- The requests whose handlers touch what is modelled. -/
inductive Req where
  | other
  | generate (passes : Bool)
  | completions (passes : Bool)
  | compare (thread : Bool)
  | execution (mode : Mode)
  | catalog (revision : Nat) (models : List Model) (conflict : Bool)
  | activityCancel (instance_ : Bool) (id generation : Nat)
  | cancel | performanceCancel | quit | quitIfIdle | stop
  | choose (c : Choice) (id : Option Nat) (f : Facts)

/-- The admission of `generate` and of `completions`; `passes` says that the
request itself is right for the loaded model. -/
def admission (s : AppState) (t : Thread) (passes : Bool) (w : World) : AppState × Pc :=
  if s.closing ∨ s.child.ready = false ∨ s.compare.running ∨ s.generating ∨
      (s.job.running ∧ s.job.activate) ∨ passes = false then (s, .idle)
  else ({ s with generating := true }.observationBegin t w, .admitted .request)

/-- `comparison_start`. -/
def comparisonStart (s : AppState) (thread : Bool) : AppState :=
  if s.child.ready = false ∨ s.generating ∨ s.job.running ∨ s.compare.running ∨
      (s.find s.activeId).isNone then s
  else { s with
    compare := { s.compare with running := thread, ops := [] }
    compareCancelled := .clear
    begun := (s.preference, s.mode) }

/-- `execution_response`. -/
def execution (s : AppState) (mode : Mode) (w : World) : AppState × Pc :=
  let model := s.find s.activeId
  if s.child.ready = false ∨ s.compare.running ∨ s.generating ∨ s.job.running then (s, .idle)
  else if mode = .gpu ∧ s.gpuSupported model = false then (s, .idle)
  else if s.processorOf s.activeId mode = s.child.active then
    match model with
    | some m =>
        (if w.saves then { s with
            preference := Function.update s.preference m.sha256 (some mode)
            mode := mode }
          else s, .idle)
    | none => ({ s with mode := mode }, .idle)
  else startChildMode s s.chosen s.activeId mode none (.execution s.chosen s.activeId) w

/-- `import_catalog`, for a catalog that parses. -/
def importCatalog (s : AppState) (revision : Nat) (models : List Model) (conflict : Bool)
    (w : World) : AppState :=
  let changed (o n : Model) : Bool :=
    decide (o.sha256 ≠ n.sha256 ∨ o.file ≠ n.file ∨ o.backends ≠ n.backends ∨ o.bytes ≠ n.bytes)
  let next := models.find? fun m => decide (some m.id = s.activeId)
  let moves := s.child.ready && (s.find s.activeId).any fun o => next.all (changed o)
  if s.compare.running ∨ s.job.running ∨ s.generating ∨
      (s.child.pid.isSome ∧ s.child.ready = false) then s
  else if revision ≤ s.revision then s
  else if moves ∨ conflict ∨ w.saves = false then s
  else
    let s := { s with models := models, revision := revision }
    if (s.find s.selected).isNone then { s with selected := none } else s

/-- The activity that a cancel call has to name. -/
def AppState.cancellable (s : AppState) : Activity := if s.generating then s.request else s.load

/-- `/app/activity/cancel`. -/
def activityCancel (s : AppState) (instance_ : Bool) (id generation : Nat) : AppState :=
  if instance_ ∧ generation = s.cancellable.generation ∧ 0 < id ∧ id = s.cancellable.id ∧
      s.cancellable.outcome = none ∧
      (s.generating ∨ s.job.running ∨ (s.child.pid.isSome ∧ s.child.ready = false)) then
    if s.generating then { s with
      requestCancelled := .set (some id)
      compareCancelled := if s.compare.running then .set (some id) else s.compareCancelled }
    else { s with
      loadCancelled := .set (some id)
      cancelled := if s.job.activate then .set (some id) else s.cancelled }
  else s

/-- `begin_job`. An earlier job thread is joined; it is at its end. -/
def beginJob (s : AppState) (m : Model) (download activate thread : Bool) : AppState :=
  if m.unsupportedFormat ∨ m.backends = 0 then s
  else
    let s := if activate then
        { s.beginLoad (s.child.generation + 1) with loadCancelled := .clear }
      else s.beginDownload s.child.generation
    let s := { s with
      job := {
        model := some m, running := thread, download := download, activate := activate
        op := s.operationId
        switch := if activate ∧ s.child.pid.isSome then some s.selection else none }
      records := match s.observe with
        | some t => if download then
            Function.update s.records t { s.records t with contention := true } else s.records
        | none => s.records
      cancelled := .clear }
    if thread then s
    else if activate then s.endLoad .failed
    else { s with download := s.download.finish .failed }

/-- The requests that name a model: setup, preview, download, remove, select. -/
def choose (s : AppState) (c : Choice) (id : Option Nat) (f : Facts) (w : World) :
    AppState × Pc :=
  match s.find id with
  | none => (s, .idle)
  | some m =>
      let active := decide (s.activeId = some m.id)
      let background := decide (c = .download) && s.child.pid.isSome && !active
      if s.closing ∨ s.child.stopping ∨ s.compare.running ∨ (c ≠ .preview ∧ s.job.running) ∨
          (s.generating ∧ c ≠ .preview ∧ background = false) ∨
          (c = .download ∧ s.child.pid.isSome ∧ active) then (s, .idle)
      else if c = .preview then (s, .idle)
      else if c = .remove then
        if f.valid = false then (s, .idle)
        else if f.safe ∧ s.child.pid.isSome ∧ (active ∨ s.chosen = m.file) then
          stopChild s none (.removeRoute m f.unlinks w.saves) w
        else (s.removed m (f.safe && f.unlinks) w.saves, .idle)
      else if c ≠ .download ∧ f.installed ∧ s.child.ready ∧ active ∧ s.chosen = m.file ∧
          f.stamped then (s, .idle)
      else if c = .setup ∧ f.chosen = false then (s, .idle)
      else
        let download := if c = .setup then !f.installed else decide (c = .download)
        if f.known = false ∨ f.fits = false ∨ (download = false ∧ f.installed = false) then
          (s, .idle)
        else
          let activate := !download || s.child.pid.isNone
          if activate = false ∨ s.child.pid.isSome then
            (beginJob s m download activate f.thread, .idle)
          else if w.saves then
            (beginJob (s.saveSelection (some m.id)) m download activate f.thread, .idle)
          else (s, .idle)

/-- `handle`, for an authorized request. -/
def handle (s : AppState) (t : Thread) (r : Req) (w : World) : AppState × Pc :=
  match r with
  | .other => (s, .idle)
  | .generate passes | .completions passes => admission s t passes w
  | .compare thread => (comparisonStart s thread, .idle)
  | .execution mode => execution s mode w
  | .catalog revision models conflict => (importCatalog s revision models conflict w, .idle)
  | .activityCancel instance_ id generation => (activityCancel s instance_ id generation, .idle)
  | .cancel => ({ s with cancelled := .set none }, .idle)
  | .performanceCancel => ({ s with compareCancelled := .set none }, .idle)
  | .quit => ({ s with closing := true }, .idle)
  | .quitIfIdle =>
      (if s.compare.running ∨ s.generating ∨ s.job.running ∨
          (s.child.pid.isSome ∧ s.child.ready = false) then s
        else { s with closing := true }, .idle)
  | .stop =>
      if s.child.stopping ∨ s.compare.running ∨ s.generating ∨ s.job.running then (s, .idle)
      else stopChild s none .stopRoute w
  | .choose c id f => choose s c id f w

/-! ## Inference -/

/-- `app_daemon_chat` reads the socket path, outside of the lock, and connects. -/
def connects (s : AppState) (o : Origin) (succeeds : Bool) (a : Answer) : Pc :=
  match s.child.socketPath with
  | some k =>
      if succeeds ∧ s.child.sockets k ∧ s.child.runs k then .inferring o k
      else .answered o { a with rc := if a.rc = 0 then 502 else a.rc }
  | none => .answered o { a with rc := if a.rc = 0 then 502 else a.rc }

/-- The inference ends. The answer is complete only if the process has lived to
send its end. -/
def answers (s : AppState) (t : Thread) (o : Origin) (k : Nat) (a : Answer) :
    Option (AppState × Pc) :=
  if a.rc = 0 then
    if s.child.runs k then
      let r := { s.records t with answeredBy := some k }
      some ({ s with records := Function.update s.records t r }, .answered o a)
    else none
  else
    let s := if a.rc = 499 then s.hit s.requestCancelled.cause [(s.records t).op] else s
    some (s, .answered o a)

/-- `observation_end` behind `perf_submit`. -/
def conclude (s : AppState) (o : Origin) (a : Answer) (rc : Nat) (w : World) : AppState × Pc :=
  if (rc = 499 ∨ rc = 498 ∨ rc = 502 ∨ rc = 504) ∧ s.closing = false then
    stopChild (s.beginLoad (s.child.generation + 1)) none
      (.observation o a s.chosen s.activeId s.mode) w
  else afterObservation { s with generating := false } o a

/-! ## The comparison -/

/-- `comparison_cancel`, as it is seen outside of the lock. -/
def comparisonCancel (s : AppState) (w : World) : Bool :=
  (s.compareCancelled.isSet || s.closing) && !w.late

/-- What a cancel call that set the flag has led to. -/
def AppState.compareHit (s : AppState) : AppState := s.hit s.compareCancelled.cause s.compare.ops

/-- `comparison_ready`: one look, that may be the last. -/
def comparisonReady (s : AppState) (restoring expired : Bool) (w : World) : Option Bool :=
  if (s.closing ∧ w.late = false) ∨ (restoring = false ∧ comparisonCancel s w) then some false
  else if s.child.ready then some true
  else if s.child.pid.isNone ∨ expired then some false
  else none

/-- The next section of `comparison_main`. -/
def comparisonMain (s : AppState) (pc : Pc) (expired : Bool) (w : World) :
    Option (AppState × Pc) :=
  match pc with
  | .idle =>
      if s.compare.running then
        some ({ s with
          compare := { s.compare with
            path := s.chosen
            id := s.activeId
            previous := s.mode
            gpu := s.gpuSupported (s.find s.activeId) } }, .slot 0)
      else none
  | .slot n =>
      if s.compareCancelled.isSet ∨ s.closing then
        some ({ s.compareHit with save := false }, .restore false)
      else some (startChildMode s s.compare.path s.compare.id (if n = 0 then .cpu else .gpu) none
        (.slot n) w)
  | .slotWait n =>
      match comparisonReady s false expired w with
      | none => some (s, pc)
      | some true => some (s, .slotCheck n)
      | some false => some (s, .restore false)
  | .slotCheck n =>
      some (s, if s.child.active = (if n = 0 then .cpu else .gpu) then .repetition n 0
        else .restore false)
  | .repetition n r =>
      if comparisonCancel s w then some (s.compareHit, .restore false)
      else
        let s := { s with generating := true }.observationBegin .comparison w
        some ({ s with compare := { s.compare with ops := s.request.id :: s.compare.ops } },
          .admitted (.repetition n r))
  | .restore ok =>
      if s.closing then some ({ s with save := false }, .finish ok false)
      else some (startChildMode s s.compare.path s.compare.id s.compare.previous none
        (.restore ok) w)
  | .restoreWait ok =>
      match comparisonReady s true expired w with
      | none => some (s, pc)
      | some restored => some (s, .finish ok restored)
  | .finish _ restored =>
      some ({ s.compareHit with
        compare := { s.compare with running := false }
        compared := ⟨s.begun.1, s.preference, s.begun.2, s.mode, restored⟩ :: s.compared }, .idle)
  | _ => none

/-! ## Startup -/

/-- What the app starts with: nothing, a model of the user's own, or the
selected one, which is started only if its file is installed. -/
inductive Boot where
  | nothing
  | custom (path : Nat)
  | selected (thread : Bool)

def startup (s : AppState) (b : Boot) (w : World) : AppState × Pc :=
  match b with
  | .nothing => (s, .serving)
  | .custom path => startChildMode s path none .auto none .boot w
  | .selected thread =>
      match s.find s.selected with
      | some m => (beginJob s m false true thread, .serving)
      | none => (s, .serving)

/-! ## The machine -/

inductive Act where
  | startup (b : Boot) (w : World)
  | exit (k : Nat)
  | accept (i : Fin WORKER_CAP)
  | handle (i : Fin WORKER_CAP) (r : Req) (w : World)
  | poll (r : Round) (w : World)
  | wake (t : Thread) (w : World)
  | jobStart
  | jobEnd (ok : Bool) (w : World)
  | connect (t : Thread) (succeeds : Bool) (a : Answer)
  | answer (t : Thread) (a : Answer)
  | observed (t : Thread) (w : World)
  | conclude (t : Thread) (w : World)
  | compare (expired : Bool) (w : World)
  | monitorEnd
  | drain
  | leave (w : World)

/-- The thread that moves; a process ends by itself. -/
def Act.thread : Act → Option Thread
  | .startup .. | .drain | .leave _ => some .main
  | .exit _ => none
  | .accept i | .handle i _ _ => some (.worker i)
  | .poll .. | .monitorEnd => some .monitor
  | .wake t _ | .connect t _ _ | .answer t _ | .observed t _ | .conclude t _ => some t
  | .jobStart | .jobEnd .. => some .job
  | .compare .. => some .comparison

def Sys.put (s : Sys) (t : Thread) (r : AppState × Pc) : Sys :=
  ⟨r.1, Function.update s.pc t r.2⟩

/-- The last section of `model_job`. -/
def jobEnd (s : AppState) (ok : Bool) (w : World) : AppState × Pc :=
  if s.cancelled.isSet ∨ s.closing then (s.jobDone ok w, .idle)
  else
    match s.job.model with
    | some m =>
        if ok ∧ s.job.activate then
          startChildMode s m.file (some m.id) (s.savedMode (s.find (some m.id)) w.reads)
            s.job.switch .job w
        else (s.jobDone ok w, .idle)
    | none => (s.jobDone ok w, .idle)

def Sys.step (s : Sys) : Act → Option Sys
  | .startup b w =>
      if s.pc .main = .starting then some (s.put .main (Supervisor.startup s.app b w)) else none
  | .exit k => some ⟨s.app.own (s.app.child.exit k), s.pc⟩
  | .accept i =>
      if s.pc .main = .serving ∧ s.pc (.worker i) = .idle then
        some ⟨s.app, Function.update s.pc (.worker i) .accepted⟩
      else none
  | .handle i r w =>
      if s.pc (.worker i) = .accepted then
        some (s.put (.worker i) (Supervisor.handle s.app (.worker i) r w))
      else none
  | .poll r w =>
      if s.pc .monitor = .idle ∧ s.pc .main ≠ .starting then
        some (s.put .monitor (monitorRound s.app r w))
      else none
  | .wake t w =>
      match s.pc t with
      | .waiting wait k => some (s.put t (roundEnd t (wakes s.app wait k w) w))
      | _ => none
  | .jobStart =>
      if s.pc .job = .idle ∧ s.app.job.running then some (s.put .job (s.app, .working)) else none
  | .jobEnd ok w =>
      if s.pc .job = .working then some (s.put .job (Supervisor.jobEnd s.app ok w)) else none
  | .connect t succeeds a =>
      match s.pc t with
      | .admitted o => some (s.put t (s.app, connects s.app o succeeds a))
      | _ => none
  | .answer t a =>
      match s.pc t with
      | .inferring o k => (answers s.app t o k a).map (s.put t)
      | _ => none
  | .observed t w =>
      match s.pc t with
      | .answered o a =>
          let r := s.app.observationEnd t a w
          some (s.put t (r.1, .observed o a r.2))
      | _ => none
  | .conclude t w =>
      match s.pc t with
      | .observed o a rc => some (s.put t (Supervisor.conclude s.app o a rc w))
      | _ => none
  | .compare expired w =>
      (comparisonMain s.app (s.pc .comparison) expired w).map (s.put .comparison)
  | .monitorEnd =>
      if s.pc .monitor = .idle ∧ s.app.closing then some (s.put .monitor (s.app, .gone)) else none
  | .drain =>
      if s.pc .main = .serving then
        some (s.put .main ({ s.app with
          closing := true
          cancelled := if s.app.cancelled.isSet then s.app.cancelled else .set none }, .draining))
      else none
  | .leave w =>
      if s.pc .main = .draining ∧ s.pc .monitor = .gone ∧ (∀ i, s.pc (.worker i) = .idle) ∧
          s.pc .comparison = .idle ∧ s.app.compare.running = false ∧
          s.pc .job = .idle ∧ s.app.job.running = false then
        some (s.put .main (stopChild s.app none .exit w))
      else none

/-- The app at its start, with whatever is on disk: nothing has been started,
and every static field is 0. -/
structure Sys.Initial (s : Sys) : Prop where
  main : s.pc .main = .starting
  others : ∀ t, t ≠ .main → s.pc t = .idle
  pid : s.app.child.pid = none
  socketPath : s.app.child.socketPath = none
  runtimeDir : s.app.child.runtimeDir = none
  lifecycle : s.app.child.lifecycle = none
  ready : s.app.child.ready = false
  stopping : s.app.child.stopping = false
  generation : s.app.child.generation = 0
  procs : ∀ k, s.app.child.procs k = none
  touched : s.app.child.touched = []
  activeId : s.app.activeId = none
  save : s.app.save = false
  generating : s.app.generating = false
  job : s.app.job = ⟨none, false, false, false, 0, none⟩
  compare : s.app.compare.running = false
  observe : s.app.observe = none
  load : s.app.load = ⟨0, 0, none⟩
  request : s.app.request = ⟨0, 0, none⟩
  download : s.app.download = ⟨0, 0, none⟩
  operationId : s.app.operationId = 0
  closing : s.app.closing = false
  cancelled : s.app.cancelled = .clear
  compareCancelled : s.app.compareCancelled = .clear
  requestCancelled : s.app.requestCancelled = .clear
  loadCancelled : s.app.loadCancelled = .clear
  submitted : s.app.submitted = []
  ended : s.app.ended = []
  fallbacks : s.app.fallbacks = []
  compared : s.app.compared = []
  hits : s.app.hits = []

/-- The runs of the app. -/
def appMachine : Machine Sys Act where
  init := Sys.Initial
  step := Sys.step

end GeistServe.Supervisor
