import GeistServe.Proofs.Deeds
import GeistServe.Supervisor.Start

/-!
# Starts that fail

Whatever a failed `start_child_mode_impl` leaves is found by the `stop_child` that
`start_child_mode` runs behind it (`Pending`), and `stop_child` takes everything
away that the app has kept the name of (`Cleared`). The start that is cut into its
calls is the one of the machine, `startChildMode_launch`.
-/

namespace GeistServe.Proofs

open GeistServe.Lib GeistServe.Supervisor

/-! ## stop_child -/

/-- What a `stop_child` leaves: no process, no readiness, nothing mapped, and of the
directories and sockets those only that the app has not named. -/
structure Cleared (c c' : Child) : Prop where
  owned : Owned False c'
  pid : c'.pid = none
  socketPath : c'.socketPath = none
  runtimeDir : c'.runtimeDir = none
  lifecycle : c'.lifecycle = none
  ready : c'.ready = false
  stopping : c'.stopping = false
  generation : c'.generation = c.generation
  dirs : ∀ n, c'.dirs n = true → c.dirs n = true ∧ c.runtimeDir ≠ some n
  sockets : ∀ n, c'.sockets n = true → c.sockets n = true ∧ c.socketPath ≠ some n

/-- What a `stop_child` in front of another may change. -/
structure SamePaths (c c' : Child) : Prop where
  generation : c'.generation = c.generation
  runtimeDir : c'.runtimeDir = c.runtimeDir
  socketPath : c'.socketPath = c.socketPath
  dirs : c'.dirs = c.dirs
  sockets : c'.sockets = c.sockets

theorem Cleared.behind {c₀ c c' : Child} (h : Cleared c c') (hs : SamePaths c₀ c) :
    Cleared c₀ c' := by
  refine ⟨h.owned, h.pid, h.socketPath, h.runtimeDir, h.lifecycle, h.ready, h.stopping,
    h.generation.trans hs.generation, fun n hn => ?_, fun n hn => ?_⟩
  · rw [← hs.dirs, ← hs.runtimeDir]
    exact h.dirs n hn
  · rw [← hs.sockets, ← hs.socketPath]
    exact h.sockets n hn

theorem unnamed {there : Bool} {name : Option Nat} {n : Nat}
    (h : (there && !decide (name = some n)) = true) : there = true ∧ name ≠ some n := by
  simpa using h

section Stop

variable {c : Child}

theorem stopEnd_cleared (h : Spawned False c) (w : Wait) : Cleared c (c.stopEnd w) := by
  refine ⟨h.stopEnd fun hf => hf.elim, (stopEnd_pid c w).1, (stopEnd_pid c w).2, ?_, ?_, ?_, ?_,
    stopEnd_generation c w, fun n hn => ?_, fun n hn => ?_⟩
  all_goals unfold Child.stopEnd at *
  · rfl
  · rfl
  · rfl
  · rfl
  · cases hpid : c.pid <;> rw [hpid] at hn <;> exact unnamed hn
  · cases hpid : c.pid <;> rw [hpid] at hn <;> exact unnamed hn

theorem stopLook_cleared (h : Spawned False c) {w : Wait} (hdone : (c.stopLook w).2 = none) :
    Cleared c (c.stopLook w).1 := by
  rcases stopLook_cases c w with ⟨c₀, heq, hc₀⟩ | ⟨k, _, _, _, heq⟩
  · rw [heq]
    rcases hc₀ with rfl | ⟨k, hpid, _, rfl⟩ | ⟨hpid, rfl⟩
    · exact stopEnd_cleared h w
    · have hreap := (h.reap hpid).touch (w := w) (k := some k) fun hf => hf.elim
      exact (stopEnd_cleared (c := { (c.setLife k .reaped).touch w (some k) with pid := none })
        ⟨hreap.named, hreap.last, hreap.known, hreap.touches⟩ w).behind ⟨rfl, rfl, rfl, rfl, rfl⟩
    · exact (stopEnd_cleared (c := { c.touch w none with pid := none })
        ⟨fun hp hl => hpid ▸ h.named hp hl, fun hk => (by cases hk), h.known, fun hf => hf.elim⟩
        w).behind ⟨rfl, rfl, rfl, rfl, rfl⟩
  · rw [heq] at hdone
    cases hdone

theorem paused_spawned (h : Spawned False c) (ended : Bool) : Spawned False (c.paused ended) := by
  unfold Child.paused
  split
  · next k hpid =>
      split
      · unfold Child.exit
        split
        · exact h.setLife hpid .zombie
        · exact h
      · exact h
  · exact h

theorem paused_paths (c : Child) (ended : Bool) : SamePaths c (c.paused ended) := by
  unfold Child.paused Child.exit
  split
  · split
    · split <;> exact ⟨rfl, rfl, rfl, rfl, rfl⟩
    · exact ⟨rfl, rfl, rfl, rfl, rfl⟩
  · exact ⟨rfl, rfl, rfl, rfl, rfl⟩

theorem stopRun_cleared (ends : Nat → Bool) :
    ∀ {n : Nat} {c : Child} {w : Wait}, Spawned False c → w.looks = n →
      Cleared c (c.stopRun ends n w) := by
  intro n
  induction n with
  | zero =>
      intro c w h hlooks
      refine stopLook_cleared h ?_
      unfold Child.stopLook
      rw [if_pos hlooks]
  | succ n ih =>
      intro c w h hlooks
      have hpaused := paused_spawned h (ends n)
      refine Cleared.behind ?_ (paused_paths c (ends n))
      simp only [Child.stopRun]
      cases hlook : ((c.paused (ends n)).stopLook w).2 with
      | none => exact stopLook_cleared hpaused hlook
      | some w' =>
          rcases stopLook_cases (c.paused (ends n)) w with ⟨c₀, heq, _⟩ | ⟨k, _, _, _, heq⟩
          · rw [heq] at hlook
            cases hlook
          · rw [heq] at hlook ⊢
            cases hlook
            exact ih hpaused (by rw [hlooks]; rfl)

theorem stopAlone_none {ends : Nat → Bool} (hpid : c.pid = none) :
    c.stopAlone ends = (c.beginStop none).1 := by
  unfold Child.stopAlone
  rw [beginStop_none hpid]

/-- A `stop_child` that finds no process only cleans up. -/
theorem beginStop_cleared (h : Spawned False c) (hpid : c.pid = none) :
    Cleared c (c.beginStop none).1 := by
  rw [beginStop_none hpid]
  have hclose := (h.revoke.runtimePathsClose (w := ⟨c.generation, 20, none⟩) fun hf =>
    hf.elim).release
  exact ⟨Owned.of_none hclose hpid rfl, hpid, rfl, rfl, rfl, rfl, rfl, rfl, fun n hn => unnamed hn,
    fun n hn => unnamed hn⟩

theorem stopAlone_cleared (h : Spawned False c) (ends : Nat → Bool) :
    Cleared c (c.stopAlone ends) := by
  cases hpid : c.pid with
  | none =>
      rw [stopAlone_none hpid]
      exact beginStop_cleared h hpid
  | some k =>
      unfold Child.stopAlone
      simp only
      rw [beginStop_some hpid]
      have htouch : Spawned False (c.revoke.touch ⟨c.generation, 20, none⟩ (some k)) :=
        h.revoke.touch fun hf => hf.elim
      refine Cleared.behind (c := c.revoke.touch ⟨c.generation, 20, none⟩ (some k)) ?_
        ⟨rfl, rfl, rfl, rfl, rfl⟩
      cases hlook : ((c.revoke.touch ⟨c.generation, 20, none⟩ (some k)).stopLook
          ⟨c.generation, 20, none⟩).2 with
      | none => exact stopLook_cleared htouch hlook
      | some w =>
          simp only
          rw [(stopLook_waits hlook).1]
          exact stopRun_cleared ends htouch rfl

end Stop

/-! ## start_child_mode_impl -/

/-- What a start that fails leaves to the `stop_child` behind it. -/
structure Pending (c c' : Child) : Prop where
  spawned : Spawned False c'
  generation : c'.generation = c.generation
  dirs : ∀ n, c'.dirs n = true → c.dirs n = true ∧ c.runtimeDir ≠ some n ∨ c'.runtimeDir = some n
  sockets : ∀ n, c'.sockets n = true →
    c.sockets n = true ∧ c.socketPath ≠ some n ∨ c'.socketPath = some n

theorem Pending.refl {c : Child} (h : Spawned False c) : Pending c c := by
  refine ⟨h, rfl, fun n hn => ?_, fun n hn => ?_⟩
  · by_cases hdir : c.runtimeDir = some n
    · exact .inr hdir
    · exact .inl ⟨hn, hdir⟩
  · by_cases hsock : c.socketPath = some n
    · exact .inr hsock
    · exact .inl ⟨hn, hsock⟩

theorem Pending.cleared {c c' c'' : Child} (h : Pending c c') (hc : Cleared c' c'') :
    Cleared c c'' := by
  refine ⟨hc.owned, hc.pid, hc.socketPath, hc.runtimeDir, hc.lifecycle, hc.ready, hc.stopping,
    hc.generation.trans h.generation, fun n hn => ?_, fun n hn => ?_⟩
  · obtain ⟨hdir, hnamed⟩ := hc.dirs n hn
    exact (h.dirs n hdir).resolve_right hnamed
  · obtain ⟨hsock, hnamed⟩ := hc.sockets n hn
    exact (h.sockets n hsock).resolve_right hnamed

/-- Behind a `stop_child` nothing is named any more. -/
theorem Cleared.pending {c c' : Child} (h : Cleared c c') : Pending c c' :=
  ⟨h.owned.toSpawned, h.generation, fun n hn => .inl (h.dirs n hn),
    fun n hn => .inl (h.sockets n hn)⟩

/-- The directory and the socket of a start are named until it ends. -/
theorem Pending.directory {c c' : Child} (h : Cleared c c') (bound : Bool) :
    Pending c (c'.directory.bind bound) := by
  have hspawned := h.owned.toSpawned
  refine ⟨⟨hspawned.named, hspawned.last, hspawned.known, hspawned.touches⟩, h.generation,
    fun n hn => ?_, fun n hn => ?_⟩
  · have hn : Function.update c'.dirs (c'.generation + 1) true n = true := hn
    by_cases hnew : n = c'.generation + 1
    · exact .inr (congrArg some hnew.symm)
    · rw [Function.update_of_ne hnew] at hn
      exact .inl (h.dirs n hn)
  · have hn : Function.update c'.sockets (c'.generation + 1) bound n = true := hn
    by_cases hnew : n = c'.generation + 1
    · exact .inr (congrArg some hnew.symm)
    · rw [Function.update_of_ne hnew] at hn
      exact .inl (h.sockets n hn)

/-- The page is mapped, and the process is not spawned. -/
theorem Pending.unspawned {c c' : Child} (h : Pending c c') (hpid : c'.pid = none)
    (page : Option Nat) : Pending c { c' with lifecycle := page, pid := none } :=
  ⟨⟨fun hp hl => hpid ▸ h.spawned.named hp hl, fun hk => (by cases hk), h.spawned.known,
    fun hf => hf.elim⟩, h.generation, h.dirs, h.sockets⟩

/-- Wherever a start of the machine fails, the `stop_child` behind it finds what is
left. -/
theorem launch_pending {c c' : Child} (h : Cleared c c') {packaged : Nat} {p : Process}
    {fault : Option Fault} (hfail : (c'.launch packaged p fault).2 = false) :
    Pending c (c'.launch packaged p fault).1 := by
  have hengine : Cleared c { c' with engine := packaged } :=
    ⟨⟨⟨h.owned.named, h.owned.last, h.owned.known, h.owned.touches⟩, h.owned.alive,
      h.owned.socket⟩, h.pid, h.socketPath, h.runtimeDir, h.lifecycle, h.ready, h.stopping,
      h.generation, h.dirs, h.sockets⟩
  have hdirectory (bound : Bool) := Pending.directory hengine bound
  unfold Child.launch at hfail ⊢
  simp only at hfail ⊢
  cases fault with
  | none => cases hfail
  | some fault =>
      cases fault with
      | hardware => exact hengine.pending
      | runtimeDir =>
          have hnone : { ({ c' with engine := packaged } : Child) with runtimeDir := none } =
              { c' with engine := packaged } := by
            rw [← h.runtimeDir]
          rw [hnone]
          exact hengine.pending
      | socket bound =>
          exact ((hdirectory bound).cleared
            (beginStop_cleared (hdirectory bound).spawned h.pid)).pending
      | log | memory | lifecycle => exact hdirectory true
      | spawn => exact (hdirectory true).unspawned h.pid _

section Impl

variable {d : Desk} {path : Nat} {id : Option Nat} {mode : Mode} {p : Process}
  {switch : Option (Option Nat)} {a : Attempts}

theorem listens_iff : a.listens = true ↔ a.socket = true ∧ a.cloexec = true ∧ a.bind = true ∧
    a.chmod = true ∧ a.listen = true := by
  simp only [Attempts.listens, Bool.and_eq_true, and_assoc]

/-- The app behind a start that has got past its `stop_child`. -/
def launched (s : AppState) (path : Nat) (id : Option Nat) (mode : Mode)
    (started : Child × Bool) : AppState × Bool :=
  (if started.2 then { s with
      child := started.1, chosen := path, activeId := id, mode := mode, save := true
      load := { s.load with generation := started.1.generation } }
    else s.own started.1, started.2)

/-- The calls behind the `stop_child` make what the machine's start makes. -/
theorem prepared_launch (hpid : d.app.child.pid = none) (hhardware : a.hardware = true) :
    ((d.prepared path id mode p a).1.app, (d.prepared path id mode p a).2) =
      launched d.app path id mode (d.app.child.launch d.app.child.engine p a.fault) := by
  unfold Desk.prepared Attempts.fault
  simp only [hhardware, Bool.true_eq_false, if_false]
  by_cases hdir : a.mkdtemp = false
  · rw [if_pos hdir, if_pos hdir]
    rfl
  · rw [if_neg hdir, if_neg hdir]
    by_cases hlisten : a.listens = false
    · rw [if_pos hlisten, if_pos hlisten, Desk.stopChild, Desk.child_app]
      have hclosed : (if a.socket = true then ((if a.socket = true then
          (d.child Child.directory).hold .socket else d.child Child.directory).child
            (·.bind (a.socket && a.cloexec && a.bind))).close .socket
          else ((if a.socket = true then (d.child Child.directory).hold .socket
            else d.child Child.directory).child (·.bind (a.socket && a.cloexec && a.bind)))).app =
          d.app.own (d.app.child.directory.bind (a.socket && a.cloexec && a.bind)) := by
        cases a.socket <;> rfl
      rw [hclosed]
      exact congrArg (fun c => (d.app.own c, false)) (stopAlone_none hpid)
    · rw [if_neg hlisten, if_neg hlisten]
      obtain ⟨hsocket, hcloexec, hbind, _⟩ := listens_iff.mp (eq_true_of_ne_false hlisten)
      simp only [hsocket, hcloexec, hbind, if_true, Bool.and_self]
      by_cases hpath : a.logpath = false
      · rw [if_pos hpath, if_pos (.inl hpath)]
        rfl
      · by_cases hlog : a.log = false
        · rw [if_neg hpath, if_pos hlog, if_pos (.inr hlog)]
          rfl
        · rw [if_neg hpath, if_neg hlog, if_neg (not_or.mpr ⟨hpath, hlog⟩)]
          by_cases hcalloc : a.calloc = false
          · rw [if_pos hcalloc, if_pos hcalloc]
            rfl
          · rw [if_neg hcalloc, if_neg hcalloc]
            by_cases hpage : a.page = false
            · rw [if_pos hpage, if_pos hpage]
              rfl
            · rw [if_neg hpage, if_neg hpage]
              unfold Desk.spawn
              cases a.spawn with
              | none => rfl
              | some why => rfl

/-- What the start of a machine works on when its `stop_child` is done. -/
def stopped (d : Desk) (a : Attempts) : AppState :=
  d.app.prepare.own (d.app.prepare.child.stopAlone a.ends)

theorem stopped_cleared (h : Owned False d.app.child) : Cleared d.app.child (stopped d a).child := by
  have hclear := stopAlone_cleared h.toSpawned a.ends
  rw [← prepare_child d.app] at hclear ⊢
  exact hclear

theorem impl_launch (h : Owned False d.app.child) (hrefuses : d.app.refuses id mode = false) :
    ((d.startChildModeImpl path id mode switch a).1.app,
        (d.startChildModeImpl path id mode switch a).2) =
      launched (stopped d a) path id mode ((stopped d a).child.launch (stopped d a).packaged
        ⟨d.app.prepare.processorOf id mode, a.engine, (stopped d a).load.id, switch, false,
          .running⟩ a.fault) := by
  have hpid : (stopped d a).child.pid = none := (stopped_cleared h).pid
  unfold Desk.startChildModeImpl
  simp only [hrefuses, Bool.false_eq_true, if_false]
  by_cases hhardware : a.hardware = false
  · have hfault : a.fault = some .hardware := if_pos hhardware
    rw [if_pos hhardware, hfault]
    rfl
  · rw [if_neg hhardware]
    rw [prepared_launch hpid (eq_true_of_ne_false hhardware)]
    rfl

/-- `start_child_mode` with no other thread in between is the start of the machine:
its `stop_child`, and what follows it. -/
theorem startChildMode_launch (h : Owned False d.app.child) :
    ((d.startChildMode path id mode switch a).1.app,
        (d.startChildMode path id mode switch a).2) =
      if d.app.refuses id mode then
        ((d.app.own (d.app.child.stopAlone a.ends)).endLoad .failed, false)
      else (stopped d a).launch
        ⟨path, id, mode, d.app.prepare.processorOf id mode, switch⟩ a.fault a.engine := by
  cases hrefuses : d.app.refuses id mode with
  | true =>
      unfold Desk.startChildMode Desk.startChildModeImpl
      simp only [hrefuses, if_true, Bool.false_eq_true, if_false]
      split <;> rfl
  | false =>
      obtain ⟨happ, hok⟩ := Prod.ext_iff.mp (impl_launch (a := a)
        h hrefuses)
      have hpid : (stopped d a).child.pid = none := (stopped_cleared h).pid
      simp only [Bool.false_eq_true, if_false]
      unfold Desk.startChildMode AppState.launch
      generalize hstart : (stopped d a).child.launch (stopped d a).packaged
        ⟨d.app.prepare.processorOf id mode, a.engine, (stopped d a).load.id, switch, false,
          .running⟩ a.fault = started at happ hok
      obtain ⟨c, ok⟩ := started
      simp only [hstart]
      cases ok with
      | true =>
          have hok : (d.startChildModeImpl path id mode switch a).2 = true := hok
          simp only [hok, if_true]
          exact Prod.ext happ rfl
      | false =>
          have hok : (d.startChildModeImpl path id mode switch a).2 = false := hok
          have hnone : c.pid = none := (launch_same hpid hstart).1
          simp only [hok, Bool.false_eq_true, if_false]
          have hstop : ((d.startChildModeImpl path id mode switch a).1.stopChild a.ends).app =
              (stopped d a).own (c.beginStop none).1 := by
            have happ : (d.startChildModeImpl path id mode switch a).1.app = (stopped d a).own c :=
              happ
            rw [Desk.stopChild, Desk.child_app, happ]
            exact congrArg (stopped d a).own (stopAlone_none hnone)
          split
          · rw [Desk.say_app, hstop]
          · rw [hstop]

/-- A start that fails is one `stop_child` behind whatever it has got to. -/
theorem failed_cleared (h : Owned False d.app.child)
    (hfail : (d.startChildMode path id mode switch a).2 = false) :
    Cleared d.app.child (d.startChildMode path id mode switch a).1.app.child := by
  obtain ⟨happ, hok⟩ := Prod.ext_iff.mp (startChildMode_launch (a := a) h)
  simp only at happ hok
  rw [hfail] at hok
  rw [happ]
  split
  · exact stopAlone_cleared h.toSpawned a.ends
  · next hrefuses =>
      rw [if_neg hrefuses] at hok
      have hclear := stopped_cleared (a := a) h
      unfold AppState.launch at hok ⊢
      simp only at hok ⊢
      split at hok
      · cases hok
      · next hstart =>
          have hstart := Bool.eq_false_iff.mpr hstart
          have hpending := launch_pending hclear hstart
          have hnone := (launch_same hclear.pid (Prod.ext rfl hstart)).1
          simp only [hstart, Bool.false_eq_true, if_false]
          exact hpending.cleared (beginStop_cleared hpending.spawned hnone)

theorem prepared_held : (d.prepared path id mode p a).1.held = d.held := by
  unfold Desk.prepared Desk.spawn
  simp only
  split
  · rfl
  · split
    · cases a.socket <;> simp [Desk.stopChild]
    · next hlisten =>
        obtain ⟨hsocket, _⟩ := listens_iff.mp (eq_true_of_ne_false hlisten)
        simp only [hsocket, if_true]
        split
        · simp
        · split
          · simp
          · split
            · simp
            · split
              · simp
              · split <;> simp

/-- Every descriptor of a start is closed when it returns. -/
theorem startChildMode_held : (d.startChildMode path id mode switch a).1.held = d.held := by
  have himpl : (d.startChildModeImpl path id mode switch a).1.held = d.held := by
    unfold Desk.startChildModeImpl
    simp only
    split
    · rfl
    · split
      · rfl
      · exact prepared_held
  unfold Desk.startChildMode
  simp only
  split
  · exact himpl
  · split <;> exact himpl

theorem finish_ended (x : Activity) (o : Outcome) :
    (x.finish o).id = 0 ∨ (x.finish o).outcome.isSome = true := by
  unfold Activity.finish
  split
  · next h => exact h
  · exact .inr rfl

/-- A start that fails has a text, and the load activity is not left open. -/
theorem failed_ends (hfail : (d.startChildMode path id mode switch a).2 = false) :
    (d.startChildMode path id mode switch a).1.message ≠ "" ∧
      ((d.startChildMode path id mode switch a).1.app.load.id = 0 ∨
        (d.startChildMode path id mode switch a).1.app.load.outcome.isSome = true) := by
  unfold Desk.startChildMode at hfail ⊢
  simp only at hfail ⊢
  split at hfail
  · next hok =>
      rw [hok] at hfail
      cases hfail
  · next hok =>
      rw [if_neg hok]
      refine ⟨?_, finish_ended _ _⟩
      simp only
      split
      · show "Cannot start the model process. See server.log in the app data folder." ≠ ""
        decide
      · next htext => exact htext

end Impl

/-- From every state of every run, with or without a process, a `start_child_mode` that
fails, with no other thread in between, leaves no process that is not reaped, none
that is ready or being stopped, no runtime directory and no socket of its own or of
the process before, no mapped page, no open load activity and no open descriptor;
the generation stands, and there is a message. -/
theorem failed_start_leaves_nothing {s : Sys} (h : appMachine.Reach Machine.free s)
    (message : String) (held : List Held) (path : Nat) (id : Option Nat) (mode : Mode)
    (switch : Option (Option Nat)) (a : Attempts)
    (hfail : (Desk.startChildMode ⟨s.app, message, held⟩ path id mode switch a).2 = false) :
    let d := (Desk.startChildMode ⟨s.app, message, held⟩ path id mode switch a).1
    d.app.child.pid = none ∧ (∀ k p, d.app.child.procs k = some p → p.life = .reaped) ∧
    d.app.child.ready = false ∧ d.app.child.stopping = false ∧
    d.app.child.socketPath = none ∧ d.app.child.runtimeDir = none ∧
    (∀ n, d.app.child.sockets n = true →
      s.app.child.sockets n = true ∧ s.app.child.socketPath ≠ some n) ∧
    (∀ n, d.app.child.dirs n = true →
      s.app.child.dirs n = true ∧ s.app.child.runtimeDir ≠ some n) ∧
    d.app.child.lifecycle = none ∧ d.app.child.generation = s.app.child.generation ∧
    (d.app.load.id = 0 ∨ d.app.load.outcome.isSome = true) ∧ d.message ≠ "" ∧ d.held = held := by
  have howned : Owned False s.app.child := (reach_grounded h).owned
  have hclear := failed_cleared (d := ⟨s.app, message, held⟩) howned hfail
  obtain ⟨htext, hload⟩ := failed_ends hfail
  refine ⟨hclear.pid, fun k p hp => ?_, hclear.ready, hclear.stopping, hclear.socketPath,
    hclear.runtimeDir, hclear.sockets, hclear.dirs, hclear.lifecycle, hclear.generation, hload,
    htext, startChildMode_held⟩
  by_contra hlife
  have hpid := hclear.owned.named hp hlife
  rw [hclear.pid] at hpid
  cases hpid

/-- The socket of the next start cannot be listened on. -/
theorem failed_start_leaves_nothing_behind :
    ∃ s, appMachine.run (coldStart shelf (some 1)) boots = some s ∧ s.app.child.pid = some 1 ∧
    let d := (Desk.startChildMode ⟨s.app, "", []⟩ 222 (some 2) .auto none
      { ends := fun n => decide (n = 5), engine := 9, listen := false }).1
    d.app.child.pid = none ∧ (∀ k p, d.app.child.procs k = some p → p.life = .reaped) ∧
    d.app.child.ready = false ∧ d.app.child.stopping = false ∧
    d.app.child.socketPath = none ∧ d.app.child.runtimeDir = none ∧
    (∀ n, d.app.child.sockets n = true →
      s.app.child.sockets n = true ∧ s.app.child.socketPath ≠ some n) ∧
    (∀ n, d.app.child.dirs n = true →
      s.app.child.dirs n = true ∧ s.app.child.runtimeDir ≠ some n) ∧
    d.app.child.lifecycle = none ∧ d.app.child.generation = s.app.child.generation ∧
    (d.app.load.id = 0 ∨ d.app.load.outcome.isSome = true) ∧ d.message ≠ "" ∧ d.held = [] := by
  obtain ⟨s, hs, hreach⟩ := cold_runs Machine.free (fun _ _ _ => trivial) shelf (some 1) boots
    (by decide +kernel)
  have hfails : ((appMachine.run (coldStart shelf (some 1)) boots).any fun s =>
      decide (s.app.child.pid = some 1 ∧
        (Desk.startChildMode ⟨s.app, "", []⟩ 222 (some 2) .auto none
          { ends := fun n => decide (n = 5), engine := 9, listen := false }).2 = false)) = true := by
    decide +kernel
  rw [hs, Option.any_some] at hfails
  obtain ⟨hpid, hfail⟩ := of_decide_eq_true hfails
  exact ⟨s, hs, hpid, failed_start_leaves_nothing hreach "" [] 222 (some 2) .auto none _ hfail⟩

end GeistServe.Proofs
