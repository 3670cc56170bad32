import GeistServe.Proofs.OwnedProcess

/-!
# For which cancellation a process is touched

`Touches cause c c'` says of the signals, reapings and unlinkings between two states
that each is for no cancellation, or for the one given and then of the process that
the app had. Only the `stop_child` of a cancelled load gives one.
-/

namespace GeistServe.Proofs

open GeistServe.Lib GeistServe.Supervisor

variable {c : Child} {w : Wait} {x : Touch}

def Touches (cause : Option Nat) (c c' : Child) : Prop :=
  ∀ x ∈ c'.touched, x ∈ c.touched ∨ x.cause = none ∨
    x.cause = cause ∧ (c.pid = some x.proc ∨ c.socketPath = some x.proc)

theorem Touches.of_eq {cause : Option Nat} {c c' : Child} (h : c'.touched = c.touched) :
    Touches cause c c' := fun _ hx => .inl (h ▸ hx)

theorem Touches.trans {cause : Option Nat} {c c' c'' : Child} (h : Touches cause c c')
    (h' : Touches none c' c'') : Touches cause c c'' := by
  intro x hx
  rcases h' x hx with hx | hnone | ⟨hnone, _⟩
  · exact h x hx
  · exact .inr (.inl hnone)
  · exact .inr (.inl hnone)

theorem Touches.weaken {cause : Option Nat} {c c' : Child} (h : Touches none c c') :
    Touches cause c c' :=
  fun x hx => (h x hx).imp id fun hor => .inl (hor.elim id And.left)

/-- A change in front that keeps the process and its touches. -/
theorem Touches.behind {cause : Option Nat} {c c' c'' : Child} (ht : c'.touched = c.touched)
    (hpid : c'.pid = c.pid) (hsock : c'.socketPath = c.socketPath) (h : Touches cause c' c'') :
    Touches cause c c'' := by
  intro x hx
  have := h x hx
  rw [ht, hpid, hsock] at this
  exact this

/-! ## stop_child -/

theorem touch_mem {k : Option Nat} (h : x ∈ (c.touch w k).touched) :
    x ∈ c.touched ∨ x.cause = w.cause ∧ k = some x.proc := by
  simp only [Child.touch, List.mem_append, List.mem_map, Option.mem_toList] at h
  rcases h with ⟨n, hn, rfl⟩ | hx
  · exact .inr ⟨rfl, hn⟩
  · exact .inl hx

theorem peer_socket {n : Nat} (h : c.peer = some n) : c.socketPath = some n := by
  unfold Child.peer at h
  split at h
  · next m hm =>
      split at h
      · rw [hm, h]
      · cases h
  · cases h

theorem close_mem (h : x ∈ (c.runtimePathsClose w).touched) :
    x ∈ c.touched ∨ x.cause = w.cause ∧ c.socketPath = some x.proc :=
  (touch_mem h).imp id fun ⟨hcause, hpeer⟩ => ⟨hcause, peer_socket hpeer⟩

theorem stopEnd_mem (h : x ∈ (c.stopEnd w).touched) :
    x ∈ c.touched ∨ x.cause = w.cause ∧ (c.pid = some x.proc ∨ c.socketPath = some x.proc) := by
  unfold Child.stopEnd at h
  cases hpid : c.pid with
  | none =>
      rw [hpid] at h
      exact (close_mem h).imp id fun ⟨hcause, hsock⟩ => ⟨hcause, .inr hsock⟩
  | some k =>
      rw [hpid] at h
      rcases close_mem h with hx | ⟨hcause, hsock⟩
      · exact (touch_mem hx).imp id fun ⟨hcause, hk⟩ => ⟨hcause, .inl hk⟩
      · exact .inr ⟨hcause, .inr hsock⟩

theorem stopLook_touches (c : Child) (w : Wait) : Touches w.cause c (c.stopLook w).1 := by
  rcases stopLook_cases c w with ⟨c₀, heq, hc₀⟩ | ⟨_, _, _, _, heq⟩
  · rw [heq]
    intro x hx
    rcases stopEnd_mem hx with hx | hx
    · rcases hc₀ with rfl | ⟨k, hpid, _, rfl⟩ | ⟨_, rfl⟩
      · exact .inl hx
      · exact (touch_mem hx).imp id fun ⟨hcause, hk⟩ => .inr ⟨hcause, .inl (hpid.trans hk)⟩
      · exact (touch_mem hx).imp id fun ⟨_, hk⟩ => by cases hk
    · rcases hc₀ with rfl | ⟨k, hpid, _, rfl⟩ | ⟨_, rfl⟩
      · exact .inr (.inr hx)
      · exact .inr (.inr ⟨hx.1, .inr (hx.2.resolve_left fun hf => by cases hf)⟩)
      · exact .inr (.inr ⟨hx.1, .inr (hx.2.resolve_left fun hf => by cases hf)⟩)
  · rw [heq]
    exact .of_eq rfl

theorem beginStop_touches (c : Child) (cause : Option Nat) :
    Touches cause c (c.beginStop cause).1 := by
  cases hpid : c.pid with
  | none =>
      rw [beginStop_none hpid]
      intro x hx
      exact (close_mem hx).imp id fun ⟨hcause, hsock⟩ => .inr ⟨hcause, .inr hsock⟩
  | some k =>
      rw [beginStop_some hpid]
      intro x hx
      rcases stopLook_touches _ _ x hx with hx | hnone | ⟨hcause, hproc⟩
      · exact (touch_mem hx).imp id fun ⟨hcause, hk⟩ => .inr ⟨hcause, .inl (hpid.trans hk)⟩
      · exact .inr (.inl hnone)
      · exact .inr (.inr ⟨hcause, hproc⟩)

/-! ## Starts and failures -/

theorem dropped_touches (c : Child) : Touches none c c.waitpid.1.dropped := by
  have hsame : c.waitpid.1.touched = c.touched := by
    unfold Child.waitpid
    split
    · split <;> rfl
    · rfl
  intro x hx
  rcases close_mem (c := c.waitpid.1.touch ⟨c.waitpid.1.generation, 0, none⟩ c.waitpid.1.pid)
    (w := ⟨c.waitpid.1.generation, 0, none⟩) hx with hx | ⟨hnone, _⟩
  · rcases touch_mem hx with hx | ⟨hnone, _⟩
    · exact .inl (hsame ▸ hx)
    · exact .inr (.inl hnone)
  · exact .inr (.inl hnone)

theorem launch_child_touches (c : Child) (packaged : Nat) (p : Process) (fault : Option Fault) :
    Touches none c (c.launch packaged p fault).1 := by
  unfold Child.launch
  split
  · exact .of_eq rfl
  · exact .of_eq rfl
  · intro x hx
    rcases beginStop_touches _ _ x hx with hx | hnone | ⟨hnone, _⟩
    · exact .inl hx
    · exact .inr (.inl hnone)
    · exact .inr (.inl hnone)
  · exact .of_eq rfl
  · exact .of_eq rfl
  · exact .of_eq rfl
  · exact .of_eq rfl
  · exact .of_eq rfl

section App

variable (s : AppState)

theorem launch_touches (r : Start) (fault : Option Fault) (engine : Nat) :
    Touches none s.child (s.launch r fault engine).1.child := by
  have hlaunch := launch_child_touches s.child s.packaged
    ⟨r.processor, engine, s.load.id, r.switch, false, .running⟩ fault
  unfold AppState.launch
  simp only
  split
  · exact hlaunch
  · exact hlaunch.trans (beginStop_touches _ none)

theorem startIdle_touches (path : Nat) (id : Option Nat) (mode : Mode)
    (switch : Option (Option Nat)) (fault : Option Fault) (engine : Nat) :
    Touches none s.child (s.startIdle path id mode switch fault engine).1.child := by
  unfold AppState.startIdle
  split
  · exact beginStop_touches s.child none
  · have hstop := beginStop_touches s.child none
    have hlaunch := launch_touches (s.prepare.own (s.prepare.child.beginStop none).1)
      ⟨path, id, mode, s.prepare.processorOf id mode, switch⟩ fault engine
    simp only [prepare_child] at hlaunch ⊢
    exact hstop.trans hlaunch

theorem fallBack_touches (k : Nat) (switch : Option (Option Nat)) (w : World) :
    Touches none s.child (s.fallBack k switch w).child := by
  have hstart := startIdle_touches s s.chosen s.activeId .cpu switch w.fault w.engine
  unfold AppState.fallBack
  split
  · simp only
    split
    · exact hstart
    · exact hstart
  · exact .of_eq rfl

theorem childFailed_touches (k : Nat) (loading : Bool) (w : World) :
    Touches none s.child (s.childFailed k loading w).child := by
  unfold AppState.childFailed
  simp only
  split
  · exact .of_eq rfl
  · have hgone : Touches none s.child s.child.gone := .of_eq rfl
    exact hgone.trans
      (fallBack_touches ((s.own s.child.gone).endLoad .failed) k _ w)

theorem afterStart_touches (c : Caller) (ok : Bool) (w : World) :
    Touches none s.child (afterStart c s ok w).1.child := by
  unfold afterStart
  cases c with
  | boot | slot n | restore d => exact .of_eq rfl
  | execution path id =>
      cases ok with
      | true => exact .of_eq rfl
      | false => exact startIdle_touches s path id .cpu none w.again w.engine
  | job =>
      simp only [jobDone_child]
      split <;> exact .of_eq rfl

theorem afterStop_touches (k : Cont) (w : World) :
    Touches none s.child (afterStop k s w).1.child := by
  cases k with
  | loadCancelled | mismatch | stopRoute | exit => exact .of_eq rfl
  | timedOut p => exact childFailed_touches s p true w
  | start r c =>
      exact (launch_touches s r w.fault w.engine).trans (afterStart_touches _ c _ w)
  | refused c => exact afterStart_touches (s.endLoad .failed) c false w
  | observation o a path id mode =>
      simp only [afterStop, afterObservation_fst]
      split
      · exact startIdle_touches s path id mode none w.fault w.engine
      · exact .of_eq rfl
  | removeRoute m unlinks saves =>
      simp only [afterStop, removed_child]
      exact .of_eq rfl

end App

end GeistServe.Proofs
