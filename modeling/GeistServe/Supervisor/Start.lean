import GeistServe.Supervisor.Sections

/-!
# `start_child_mode`, call by call

The machine has a start in one piece: `Child.launch` with the place where it fails.
Here it is cut into the calls that can fail, with the descriptors that are open in
between and with the message that is left for the user. No other thread acts
meanwhile, so `stop_child` is run through to its end.
-/

namespace GeistServe.Supervisor

/-- What a start holds while it is under way. -/
inductive Held where
  | socket | log | environment | page
  deriving DecidableEq

/-- The app with `app.message` and with what the thread holds. -/
structure Desk where
  app : AppState
  message : String
  held : List Held

/-- What the calls of a start answer. `ends n` says that the process to be stopped
ends in the pause with `n` looks left, `spawn` is the error of `posix_spawn` or of
its file actions, if there is one. -/
structure Attempts where
  ends : Nat → Bool := fun _ => false
  hardware : Bool := true
  mkdtemp : Bool := true
  socket : Bool := true
  cloexec : Bool := true
  bind : Bool := true
  chmod : Bool := true
  listen : Bool := true
  logpath : Bool := true
  log : Bool := true
  calloc : Bool := true
  page : Bool := true
  spawn : Option String := none
  engine : Nat := 0

/-! ## stop_child without a break -/

/-- A pause of `stop_child`, in which the process may end. -/
def Child.paused (c : Child) (ended : Bool) : Child :=
  match c.pid with
  | some k => if ended then c.exit k else c
  | none => c

/-- The looks of `stop_child` one after the other. -/
def Child.stopRun (ends : Nat → Bool) : Nat → Child → Wait → Child
  | 0, c, w => (c.stopLook w).1
  | n + 1, c, w =>
      let look := (c.paused (ends n)).stopLook w
      match look.2 with
      | none => look.1
      | some w => stopRun ends n look.1 w

/-- `stop_child`, with no other thread in between. -/
def Child.stopAlone (c : Child) (ends : Nat → Bool) : Child :=
  let stop := c.beginStop none
  match stop.2 with
  | none => stop.1
  | some w => stop.1.stopRun ends w.looks w

/-! ## The desk -/

def Desk.child (d : Desk) (f : Child → Child) : Desk := { d with app := d.app.own (f d.app.child) }

def Desk.stopChild (d : Desk) (ends : Nat → Bool) : Desk := d.child (·.stopAlone ends)

def Desk.say (d : Desk) (text : String) : Desk := { d with message := text }

def Desk.hold (d : Desk) (x : Held) : Desk := { d with held := x :: d.held }

def Desk.close (d : Desk) (x : Held) : Desk := { d with held := d.held.erase x }

@[simp] theorem Desk.child_app (d : Desk) (f : Child → Child) :
    (d.child f).app = d.app.own (f d.app.child) := rfl

@[simp] theorem Desk.child_held (d : Desk) (f : Child → Child) : (d.child f).held = d.held := rfl

@[simp] theorem Desk.say_app (d : Desk) (text : String) : (d.say text).app = d.app := rfl

@[simp] theorem Desk.say_held (d : Desk) (text : String) : (d.say text).held = d.held := rfl

@[simp] theorem Desk.hold_app (d : Desk) (x : Held) : (d.hold x).app = d.app := rfl

@[simp] theorem Desk.close_app (d : Desk) (x : Held) : (d.close x).app = d.app := rfl

@[simp] theorem Desk.hold_held (d : Desk) (x : Held) : (d.hold x).held = x :: d.held := rfl

@[simp] theorem Desk.close_held (d : Desk) (x : Held) : (d.close x).held = d.held.erase x := rfl

/-- The socket is made, closed on exec, bound, restricted and listened on. -/
def Attempts.listens (a : Attempts) : Bool :=
  a.socket && a.cloexec && a.bind && a.chmod && a.listen

/-- The part of `start_child_mode_impl` behind the `lifecycle_create`: the file
actions, the spawn, and what is closed behind it. -/
def Desk.spawn (d : Desk) (path : Nat) (id : Option Nat) (mode : Mode) (p : Process)
    (a : Attempts) : Desk × Bool :=
  let d := (((d.close .environment).close .page).close .socket).close .log
  match a.spawn with
  | some why => ((d.child ({ · with pid := none })).say ("Cannot start geistd: " ++ why), false)
  | none =>
      let d := d.child (·.spawn p)
      (({ d with app := { d.app with
        chosen := path
        activeId := id
        mode := mode
        save := true
        load := { d.app.load with generation := d.app.child.generation } } }).say
          "Loading the model into memory…", true)

/-- `start_child_mode_impl` from its runtime directory on. -/
def Desk.prepared (d : Desk) (path : Nat) (id : Option Nat) (mode : Mode) (p : Process)
    (a : Attempts) : Desk × Bool :=
  if a.mkdtemp = false then (d.child ({ · with runtimeDir := none }), false)
  else
    let d := d.child Child.directory
    let d := if a.socket then d.hold .socket else d
    let d := d.child (·.bind (a.socket && a.cloexec && a.bind))
    if a.listens = false then
      ((if a.socket then d.close .socket else d).stopChild a.ends, false)
    else if a.logpath = false then (d.close .socket, false)
    else if a.log = false then (d.close .socket, false)
    else
      let d := d.hold .log
      if a.calloc = false then ((d.close .socket).close .log, false)
      else
        let d := d.hold .environment
        if a.page = false then (((d.close .environment).close .socket).close .log, false)
        else
          let d := (d.hold .page).child fun c => { c with lifecycle := some (c.generation + 1) }
          d.spawn path id mode p a

/-- `start_child_mode_impl`. -/
def Desk.startChildModeImpl (d : Desk) (path : Nat) (id : Option Nat) (mode : Mode)
    (switch : Option (Option Nat)) (a : Attempts) : Desk × Bool :=
  if d.app.refuses id mode then
    (d.say "GPU is not supported by this model and packaged engine.", false)
  else
    let d := ({ d with app := d.app.prepare }).stopChild a.ends
    let d := d.child ({ · with engine := d.app.packaged })
    if a.hardware = false then
      (d.say "This CPU/platform does not support the bundled inference engine.", false)
    else
      d.prepared path id mode
        ⟨d.app.processorOf id mode, a.engine, d.app.load.id, switch, false, .running⟩ a

/-- `start_child_mode`. -/
def Desk.startChildMode (d : Desk) (path : Nat) (id : Option Nat) (mode : Mode)
    (switch : Option (Option Nat)) (a : Attempts) : Desk × Bool :=
  let started := d.startChildModeImpl path id mode switch a
  if started.2 then started
  else
    let d := started.1.stopChild a.ends
    let d := if d.message = "" then
      d.say "Cannot start the model process. See server.log in the app data folder."
      else d
    ({ d with app := d.app.endLoad .failed }, false)

/-- Where the machine has the start fail. -/
def Attempts.fault (a : Attempts) : Option Fault :=
  if a.hardware = false then some .hardware
  else if a.mkdtemp = false then some .runtimeDir
  else if a.listens = false then some (.socket (a.socket && a.cloexec && a.bind))
  else if a.logpath = false ∨ a.log = false then some .log
  else if a.calloc = false then some .memory
  else if a.page = false then some .lifecycle
  else if a.spawn.isSome then some .spawn
  else none

end GeistServe.Supervisor
