import Mathlib.Algebra.GroupWithZero.Nat
import Mathlib.Logic.Function.Basic

/-!
# The owned process

`Child` is what the app keeps of the one geistd process it owns, with what the
system keeps of the processes the app has spawned: which of them run, have
ended or are reaped, and which runtime directories and sockets are on disk.

Processes are numbered in the order of their starts, and `pid` holds the number
of the process that the C code holds the pid of. Every reaping sets `pid` to 0
under the same lock, so a pid that the system hands out again is never stale
here. A runtime directory has the number of the process it is made for.

`stop_child` gives up the lock while it waits, so it is cut there: `beginStop`
goes up to the first look that finds the process alive, `stopLook` from one
look to the next.
-/

namespace GeistServe.Supervisor

inductive Processor where
  | cpu | gpu
  deriving DecidableEq

/-- A zombie has ended and is not reaped. -/
inductive Life where
  | running | zombie | reaped
  deriving DecidableEq

/-- A spawned process: the processor of `GEIST_BACKEND` and the identity of its
handshake. Three fields are kept for the proofs: the load activity it was
started under, the selection that the model switch found which started it, and
whether the app has seen it ready. -/
structure Process where
  processor : Processor
  engine : Nat
  load : Nat
  switch : Option (Option Nat)
  published : Bool
  life : Life
  deriving DecidableEq

/-- A signal, a reaping or an unlinking: how many processes had been started
when the call began that does it, the process it hits, and the cancellation it
goes back to. -/
structure Touch where
  since : Nat
  proc : Nat
  cause : Option Nat
  deriving DecidableEq

/-- `ready`, `stopping` and the rest as in `app`; `procs`, `dirs` and `sockets` are
the system's: the processes, and the runtime directories and sockets on disk.
`touched` is kept for the proofs. -/
structure Child where
  pid : Option Nat
  runtimeDir : Option Nat
  socketPath : Option Nat
  lifecycle : Option Nat
  ready : Bool
  stopping : Bool
  generation : Nat
  engine : Nat
  active : Processor
  procs : Nat → Option Process
  dirs : Nat → Bool
  sockets : Nat → Bool
  touched : List Touch

/-! ## What the system does -/

def Child.setLife (c : Child) (k : Nat) (l : Life) : Child :=
  { c with procs := Function.update c.procs k ((c.procs k).map ({ · with life := l })) }

def Child.runs (c : Child) (k : Nat) : Bool :=
  match c.procs k with
  | some p => decide (p.life = .running)
  | none => false

/-- A process ends by itself. -/
def Child.exit (c : Child) (k : Nat) : Child := if c.runs k then c.setLife k .zombie else c

/-- `waitpid` with `WNOHANG`: whether it finds that the process has ended, or
that there is none. -/
def Child.waitpid (c : Child) : Child × Bool :=
  match c.pid with
  | some k => if c.runs k then (c, false) else (c.setLife k .reaped, true)
  | none => (c, true)

/-! ## stop_child -/

/-- A `stop_child` that waits: how many processes had been started when it
began, the looks that are left, and the cancellation it goes back to. -/
structure Wait where
  since : Nat
  looks : Nat
  cause : Option Nat
  deriving DecidableEq

def Child.touch (c : Child) (w : Wait) (k : Option Nat) : Child :=
  { c with touched := k.toList.map (⟨w.since, ·, w.cause⟩) ++ c.touched }

/-- The process that has the socket of the app's socket path, if one was
started for it. -/
def Child.peer (c : Child) : Option Nat :=
  match c.socketPath with
  | some n => if (c.procs n).isSome then some n else none
  | none => none

/-- `runtime_paths_close`. -/
def Child.runtimePathsClose (c : Child) (w : Wait) : Child :=
  let c := c.touch w c.peer
  { c with
    lifecycle := none
    sockets := fun n => c.sockets n && !decide (c.socketPath = some n)
    dirs := fun n => c.dirs n && !decide (c.runtimeDir = some n)
    socketPath := none
    runtimeDir := none }

/-- Readiness is revoked in front of the wait. -/
def Child.revoke (c : Child) : Child := { c with ready := false, stopping := true }

def Child.release (c : Child) : Child := { c with stopping := false, ready := false }

/-- The end of `stop_child`, behind its loop: a process that is still there is
killed and waited for. -/
def Child.stopEnd (c : Child) (w : Wait) : Child :=
  let c := match c.pid with
    | some k => { (c.touch w (some k)).setLife k .reaped with pid := none }
    | none => c
  (c.runtimePathsClose w).release

/-- One look of the loop. A `pid` that another thread has set to 0 in the
meantime makes `waitpid` fail, which ends the loop as well. -/
def Child.stopLook (c : Child) (w : Wait) : Child × Option Wait :=
  if w.looks = 0 then (c.stopEnd w, none)
  else
    match c.waitpid with
    | (c, true) => ({ c.touch w c.pid with pid := none }.stopEnd w, none)
    | (c, false) => (c, some { w with looks := w.looks - 1 })

/-- `stop_child` up to the point where it gives up the lock, if it does. -/
def Child.beginStop (c : Child) (cause : Option Nat) : Child × Option Wait :=
  let w : Wait := ⟨c.generation, 20, cause⟩
  match c.pid with
  | some k => (c.revoke.touch w (some k)).stopLook w
  | none => ((c.revoke.runtimePathsClose w).release, none)

/-! ## Starting -/

/-- Where `start_child_mode_impl` can fail behind its `stop_child`. A socket
that could not be listened on may be bound. -/
inductive Fault where
  | hardware | runtimeDir
  | socket (bound : Bool)
  | log | memory | lifecycle | spawn
  deriving DecidableEq

/-- The runtime directory is made, and the socket path set. -/
def Child.directory (c : Child) : Child :=
  { c with
    runtimeDir := some (c.generation + 1)
    socketPath := some (c.generation + 1)
    dirs := Function.update c.dirs (c.generation + 1) true }

/-- The socket is bound. -/
def Child.bind (c : Child) (bound : Bool) : Child :=
  { c with sockets := Function.update c.sockets (c.generation + 1) bound }

/-- The process is spawned. -/
def Child.spawn (c : Child) (p : Process) : Child :=
  { c with
    lifecycle := some (c.generation + 1)
    pid := some (c.generation + 1)
    generation := c.generation + 1
    active := p.processor
    procs := Function.update c.procs (c.generation + 1) (some p) }

/-- `start_child_mode_impl` behind its `stop_child`, as far as the process goes:
the identity of the packaged engine stands until the handshake. A socket that
fails is cleaned up with a `stop_child`, and there is no process. -/
def Child.launch (c : Child) (packaged : Nat) (p : Process) (fault : Option Fault) :
    Child × Bool :=
  let c := { c with engine := packaged }
  match fault with
  | some .hardware => (c, false)
  | some .runtimeDir => ({ c with runtimeDir := none }, false)
  | some (.socket bound) => (((c.directory.bind bound).beginStop none).1, false)
  | some .log | some .memory | some .lifecycle => (c.directory.bind true, false)
  | some .spawn =>
      ({ c.directory.bind true with lifecycle := some (c.generation + 1), pid := none }, false)
  | none => ((c.directory.bind true).spawn p, true)

/-! ## The parts of poll_child -/

/-- The process has been reaped by `poll_child` itself. -/
def Child.dropped (c : Child) : Child :=
  let w : Wait := ⟨c.generation, 0, none⟩
  { (c.touch w c.pid).runtimePathsClose w with pid := none, ready := false }

/-- `poll_child` forgets the process. -/
def Child.gone (c : Child) : Child := { c with pid := none, ready := false }

/-- The handshake's identity. -/
def Child.identified (c : Child) : Child :=
  { c with engine := ((c.pid.bind c.procs).map (·.engine)).getD c.engine }

def Child.publish (c : Child) : Child :=
  { c with
    ready := true
    procs := fun n =>
      if c.pid = some n then (c.procs n).map ({ · with published := true }) else c.procs n }

end GeistServe.Supervisor
