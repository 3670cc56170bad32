import GeistServe.Proofs.Backend

/-!
# What a thread does in a step

`Deed` flattens a section: a request that stops nothing, a call of `stop_child`
that begins, goes on or is done, the rounds of the monitor without one, the
parts of an inference, the comparison and the job. Where processes are started
and stopped it says so with `Carries` and `Started`; every result about the runs
of the app beyond the owned process is a case analysis of it.
-/

namespace GeistServe.Proofs

open GeistServe.Lib GeistServe.Supervisor

/-! ## Who calls -/

/-- How a thread gets to `start_child_mode`: where it stands, what it has checked,
and what it asks for. -/
inductive Starts (s : Sys) : Thread → Caller → Start → Prop where
  | boot {r : Start} (h : s.pc .main = .starting) : Starts s .main .boot r
  | execution {i : Fin WORKER_CAP} {r : Start} (h : s.pc (.worker i) = .accepted)
      (hready : s.app.child.ready = true) (hq : Supervisor.Quiet s.app) :
      Starts s (.worker i) (.execution s.app.chosen s.app.activeId) r
  | job {r : Start} (h : s.pc .job = .working) (hclear : s.app.cancelled.isSet = false)
      (hclosing : s.app.closing = false) (hactivate : s.app.job.activate = true)
      (hswitch : r.switch = s.app.job.switch) : Starts s .job .job r
  | slot {n : Nat} {r : Start} (h : s.pc .comparison = .slot n) :
      Starts s .comparison (.slot n) r
  | restore {ok : Bool} {r : Start} (h : s.pc .comparison = .restore ok)
      (hmode : r.mode = s.app.compare.previous) : Starts s .comparison (.restore ok) r

/-- How a thread gets to any other `stop_child`: what it is to do then, for which
cancellation, and what it has made of the state before. -/
inductive Calls (s : Sys) : Thread → Cont → Option Nat → AppState → Prop where
  | stopRoute {i : Fin WORKER_CAP} (h : s.pc (.worker i) = .accepted)
      (hstopping : s.app.child.stopping = false) (hq : Supervisor.Quiet s.app) :
      Calls s (.worker i) .stopRoute none s.app
  | removeRoute {i : Fin WORKER_CAP} {m : Model} {unlinks saves : Bool}
      (h : s.pc (.worker i) = .accepted) (hstopping : s.app.child.stopping = false)
      (hq : Supervisor.Quiet s.app) : Calls s (.worker i) (.removeRoute m unlinks saves) none s.app
  | cancelled {k : Nat} (h : s.pc .monitor = .idle) (hpid : s.app.child.pid = some k)
      (hstopping : s.app.child.stopping = false) (hready : s.app.child.ready = false)
      (hflag : s.app.loadCancelled.isSet = true) :
      Calls s .monitor (.loadCancelled k s.app.loadCancelled.cause) s.app.loadCancelled.cause s.app
  | timedOut {k : Nat} (h : s.pc .monitor = .idle) (hpid : s.app.child.pid = some k)
      (hstopping : s.app.child.stopping = false) (hready : s.app.child.ready = false) :
      Calls s .monitor (.timedOut k) none (s.app.own s.app.child.waitpid.1)
  | mismatch {k : Nat} (h : s.pc .monitor = .idle) (hpid : s.app.child.pid = some k)
      (hstopping : s.app.child.stopping = false) (hready : s.app.child.ready = false) :
      Calls s .monitor (.mismatch k) none (s.app.own s.app.child.identified)
  | observation {t : Thread} {o : Origin} {a : Answer} {rc : Nat} (h : s.pc t = .observed o a rc)
      (hclosing : s.app.closing = false) :
      Calls s t (.observation o a s.app.chosen s.app.activeId s.app.mode) none
        (s.app.beginLoad (s.app.child.generation + 1))
  | exit (h : s.pc .main = .draining) : Calls s .main .exit none s.app

theorem Calls.carries {s : Sys} {t : Thread} {k : Cont} {cause : Option Nat} {s₀ : AppState}
    (h : Calls s t k cause s₀) : Carries s.app s₀ := by
  cases h with
  | stopRoute | removeRoute | cancelled | exit => exact .refl s.app
  | timedOut => exact own_carries (waitpid_moved _)
  | mismatch => exact own_carries (identified_moved _)
  | observation => exact beginLoad_carries _ _

theorem Calls.spawned {s : Sys} {t : Thread} {k : Cont} {cause : Option Nat} {s₀ : AppState}
    (h : Calls s t k cause s₀) (howned : Owned False s.app.child) : Spawned False s₀.child := by
  cases h with
  | stopRoute | removeRoute | cancelled | exit => exact howned.toSpawned
  | timedOut => exact howned.toSpawned.waitpid
  | mismatch => exact howned.identified.toSpawned
  | observation => exact howned.toSpawned

/-! ## Where threads wait -/

/-- Whose inference it is. -/
def Owner (o : Origin) (t : Thread) : Prop :=
  match o with
  | .request => ∃ i, t = .worker i
  | .repetition .. => t = .comparison

/-- The thread that a continuation belongs to. At the start of the app there is no
process, so it does not wait. -/
def Waiter (k : Cont) (t : Thread) : Prop :=
  match k with
  | .loadCancelled .. | .timedOut _ | .mismatch _ => t = .monitor
  | .start _ c | .refused c =>
      match c with
      | .boot => False
      | .job => t = .job
      | .execution .. => ∃ i, t = .worker i
      | .slot _ | .restore _ => t = .comparison
  | .observation o .. => Owner o t
  | .stopRoute | .removeRoute .. => ∃ i, t = .worker i
  | .exit => t = .main

/-- The places of a thread. -/
def Placed (t : Thread) (pc : Pc) : Prop :=
  match pc with
  | .waiting _ k => Waiter k t
  | .admitted o | .inferring o _ | .answered o _ | .observed o _ _ => Owner o t
  | .accepted => ∃ i, t = .worker i
  | .working => t = .job
  | .slot _ | .slotWait _ | .slotCheck _ | .repetition .. | .restore _ | .restoreWait _
  | .finish .. => t = .comparison
  | .starting | .serving | .draining => t = .main
  | .idle | .gone => True

/-! ## Deeds -/

/-- Whether a continuation is one of `start_child_mode`. -/
def starting : Cont → Bool
  | .start .. | .refused _ => true
  | _ => false

/-- The cancellation that a thread which waits goes back to. -/
def waitCause (s : Sys) (t : Thread) : Option Nat :=
  match s.pc t with
  | .waiting wait _ => wait.cause
  | _ => none

/-- What a thread does in a step. -/
inductive Deed (s : Sys) : Thread → AppState × Pc → Prop where
  | bootNothing (h : s.pc .main = .starting) : Deed s .main (s.app, .serving)
  | bootJob {m : Model} {thread : Bool} (h : s.pc .main = .starting) :
      Deed s .main (beginJob s.app m false true thread, .serving)
  | startWaits {t : Thread} {c : Caller} {r : Start} {k : Cont} {wait : Wait} {s₁ : AppState}
      (hs : Starts s t c r) (hk : StartCont c r k) (hc : Carries s.app s₁)
      (hlogs : logs s₁ = logs s.app) (hprep : Prepared s.app k s₁)
      (hrev : Revoked s.app.child none wait s₁.child) :
      Deed s t (s₁, .waiting wait k)
  | startDone {t : Thread} {c : Caller} {r : Start} {s₁ : AppState} {ok : Bool} {w : World}
      (hs : Starts s t c r ∨ ∃ wait k, s.pc t = .waiting wait k ∧ StartCont c r k ∧
        (ok = true → k = .start r c) ∧ FlagStands s.app s₁)
      (hstart : Started s.app r s₁ ok)
      (htouch : Touches (waitCause s t) s.app.child s₁.child) : Deed s t (afterStart c s₁ ok w)
  | callWaits {t : Thread} {k : Cont} {cause : Option Nat} {s₀ : AppState} {wait : Wait}
      {ch : Child} (hcall : Calls s t k cause s₀) (hrev : Revoked s₀.child cause wait ch) :
      Deed s t (s₀.own ch, .waiting wait k)
  | stopped {t : Thread} {k : Cont} {s₀ : AppState} {ch : Child} {w : World}
      (hk : (∃ cause, Calls s t k cause s₀) ∨
        (∃ wait, s.pc t = .waiting wait k) ∧ starting k = false ∧ s₀ = s.app)
      (hc : Carries s.app s₀) (hstop : Stops s₀.child ch)
      (htouch : ∃ cause, (Calls s t k cause s₀ ∨ cause = waitCause s t) ∧
        Touches cause s₀.child ch) :
      Deed s t (roundEnd t (afterStop k (s₀.own ch) w) w)
  | wakeWaits {t : Thread} {k : Cont} {wait wait' : Wait} (h : s.pc t = .waiting wait k)
      (hsince : wait'.since = wait.since) (hcause : wait'.cause = wait.cause) :
      Deed s t (s.app, .waiting wait' k)
  | accept {i : Fin WORKER_CAP} (h : s.pc .main = .serving) (hi : s.pc (.worker i) = .idle) :
      Deed s (.worker i) (s.app, .accepted)
  | request {i : Fin WORKER_CAP} {w : World} {r : AppState × Pc}
      (h : s.pc (.worker i) = .accepted) (hr : Supervisor.Plain s.app (.worker i) w r) :
      Deed s (.worker i) r
  | pollNothing {reads : Bool} (h : s.pc .monitor = .idle) :
      Deed s .monitor (s.app.sample reads, .idle)
  | pollEnded {k : Nat} {switch : Option (Option Nat)} {s₁ : AppState} {reads : Bool}
      (h : s.pc .monitor = .idle) (hpid : s.app.child.pid = some k)
      (hstopping : s.app.child.stopping = false)
      (hflag : s.app.loadCancelled.isSet = false ∨ s.app.child.ready = true)
      (hswitch : switch = failedSwitch s.app.child k (!s.app.child.ready))
      (hfail : Failed s.app k switch s₁) (htouch : Touches none s.app.child s₁.child) :
      Deed s .monitor (s₁.sample reads, .idle)
  | pollPublished {k : Nat} {saves reads : Bool} (h : s.pc .monitor = .idle)
      (hpid : s.app.child.pid = some k) (hstopping : s.app.child.stopping = false)
      (hready : s.app.child.ready = false) (hflag : s.app.loadCancelled.isSet = false) :
      Deed s .monitor
        (((s.app.own s.app.child.identified).published saves).sample reads, .idle)
  | monitorEnd (h : s.pc .monitor = .idle) : Deed s .monitor (s.app, .gone)
  | jobStart (h : s.pc .job = .idle) (hrun : s.app.job.running = true) :
      Deed s .job (s.app, .working)
  | jobDone {ok : Bool} {w : World} (h : s.pc .job = .working)
      (hwhy : s.app.cancelled.isSet = true ∨ s.app.closing = true ∨ ok = false ∨
        s.app.job.activate = false ∨ s.app.job.model = none) :
      Deed s .job (s.app.jobDone ok w, .idle)
  | connect {t : Thread} {succeeds : Bool} {a : Answer} {o : Origin} (h : s.pc t = .admitted o) :
      Deed s t (s.app, connects s.app o succeeds a)
  | answer {t : Thread} {a : Answer} {o : Origin} {k : Nat} {r : AppState × Pc}
      (h : s.pc t = .inferring o k) (hr : answers s.app t o k a = some r) : Deed s t r
  | observed {t : Thread} {w : World} {o : Origin} {a : Answer} (h : s.pc t = .answered o a) :
      Deed s t ((s.app.observationEnd t a w).1, .observed o a (s.app.observationEnd t a w).2)
  | concluded {t : Thread} {o : Origin} {a : Answer} {rc : Nat} (h : s.pc t = .observed o a rc) :
      Deed s t (afterObservation { s.app with generating := false } o a)
  | compare {w : World} {r : AppState × Pc} (hr : Compares s.app w (s.pc .comparison) r) :
      Deed s .comparison r
  | drain (h : s.pc .main = .serving) :
      Deed s .main ({ s.app with
        closing := true
        cancelled := if s.app.cancelled.isSet then s.app.cancelled else .set none }, .draining)

theorem failedSwitch_kin {c c' : Child} (h : Kin c c') {k : Nat} {p : Process}
    (hp : c.procs k = some p) (loading : Bool) :
    failedSwitch c' k loading = failedSwitch c k loading := by
  obtain ⟨p', hp', hsame⟩ := h.procs hp
  unfold failedSwitch
  rw [hp, hp', Option.bind_some, Option.bind_some, hsame.switch]

theorem roundEnd_ne {t : Thread} (h : t ≠ .monitor) (r : AppState × Pc) (w : World) :
    roundEnd t r w = r :=
  if_neg fun hand => h hand.1

theorem roundEnd_idle (s : AppState) (w : World) :
    roundEnd .monitor (s, .idle) w = (s.sample w.samples, .idle) :=
  if_pos ⟨rfl, rfl⟩

section Sections

variable {s : Sys} {w : World}

/-- A start that a thread calls for. -/
theorem startChildMode_deed (h : Owned False s.app.child) {t : Thread} {c : Caller} {path : Nat}
    {id : Option Nat} {mode : Mode} {switch : Option (Option Nat)}
    (hs : ∀ r : Start, r.mode = mode → r.switch = switch → Starts s t c r) :
    Deed s t (startChildMode s.app path id mode switch c w) := by
  rcases startChildMode_cases h path id mode switch c w with
    ⟨s₁, wait, r, k, heq, hk, hmode, hswitch, hc, hlogs, hprep, hrev⟩ |
    ⟨s₁, ok, r, heq, hmode, hswitch, hstart, htouch⟩
  · rw [heq]
    exact .startWaits (hs r hmode hswitch) hk hc hlogs hprep hrev
  · rw [heq]
    exact .startDone (.inl (hs r hmode hswitch)) hstart htouch.weaken

/-- Any other `stop_child` that a thread calls for. -/
theorem stopChild_deed (h : Owned False s.app.child) {t : Thread} {k : Cont}
    {cause : Option Nat} {s₀ : AppState} (hcall : Calls s t k cause s₀) :
    Deed s t (roundEnd t (stopChild s₀ cause k w) w) := by
  rcases stopChild_cases (hcall.spawned h) cause k w with
    ⟨wait, ch, heq, hrev⟩ | ⟨ch, heq, hstop, htouch⟩
  · rw [heq, roundEnd_waiting w rfl]
    exact .callWaits hcall hrev
  · rw [heq]
    exact .stopped (.inl ⟨cause, hcall⟩) hcall.carries hstop ⟨cause, .inl hcall, htouch⟩

theorem handled_deed (h : Owned False s.app.child) {i : Fin WORKER_CAP} {r : AppState × Pc}
    (hpc : s.pc (.worker i) = .accepted) (hr : Handled s.app (.worker i) w r) :
    Deed s (.worker i) r := by
  cases hr with
  | plain hr => exact .request hpc hr
  | execution hready hq =>
      exact startChildMode_deed h fun r _ _ => .execution hpc hready hq
  | stop hstopping hq =>
      rw [← roundEnd_ne (t := .worker i) (fun ht => by cases ht) (stopChild ..) w]
      exact stopChild_deed h (.stopRoute hpc hstopping hq)
  | remove hstopping hq =>
      rw [← roundEnd_ne (t := .worker i) (fun ht => by cases ht) (stopChild ..) w]
      exact stopChild_deed h (.removeRoute hpc hstopping hq)

theorem polled_deed (h : Owned False s.app.child) {r : AppState × Pc}
    (hpc : s.pc .monitor = .idle) (hr : Polled s.app w r) :
    Deed s .monitor (roundEnd .monitor r w) := by
  cases hr with
  | nothing =>
      rw [roundEnd_idle]
      exact .pollNothing hpc
  | cancelled hpid hstopping hready hflag =>
      exact stopChild_deed h (.cancelled hpc hpid hstopping hready hflag)
  | timedOut hpid hstopping hready =>
      exact stopChild_deed h (.timedOut hpc hpid hstopping hready)
  | mismatch hpid hstopping hready =>
      exact stopChild_deed h (.mismatch hpc hpid hstopping hready)
  | published hpid hstopping hready hflag =>
      rw [roundEnd_idle]
      exact .pollPublished hpc hpid hstopping hready hflag
  | @ended k hpid hstopping hended hflag =>
      obtain ⟨p, hp, _⟩ := h.alive hpid
      have hmoved : Moved s.app.child s.app.child.waitpid.1.dropped := dropped_moved
      have hgen := (waitpid_rest s.app.child).2.2.2.1
      have hactive := (waitpid_rest s.app.child).2.2.2.2.2.1
      have hfail := childFailed_failed (s := s.app.own s.app.child.waitpid.1.dropped)
        (Owned.dropped h.toSpawned hended) rfl k (!s.app.child.ready) w
      rw [roundEnd_idle]
      refine .pollEnded hpc hpid hstopping hflag ?_
        (hfail.of_carries (own_carries hmoved) hgen hactive rfl rfl)
        ((dropped_touches s.app.child).trans (childFailed_touches _ k _ w))
      exact failedSwitch_kin hmoved.toKin hp _

theorem compares_deed (h : Owned False s.app.child) {expired : Bool} {r : AppState × Pc}
    (hr : comparisonMain s.app (s.pc .comparison) expired w = some r) :
    Deed s .comparison r := by
  rcases comparisonMain_cases hr with hr | ⟨n, mode, hpc, rfl⟩ | ⟨ok, hpc, rfl⟩
  · exact .compare hr
  · exact startChildMode_deed h fun r _ _ => .slot hpc
  · exact startChildMode_deed h fun r hmode _ => .restore hpc hmode

theorem jobEnd_deed (h : Owned False s.app.child) (hpc : s.pc .job = .working) (ok : Bool) :
    Deed s .job (jobEnd s.app ok w) := by
  unfold jobEnd
  split
  · next hstop => exact .jobDone hpc (hstop.imp id .inl)
  · next hflags =>
      simp only [not_or, Bool.not_eq_true] at hflags
      split
      · split
        · next hgo =>
            exact startChildMode_deed h fun r _ hswitch =>
              .job hpc hflags.1 hflags.2 hgo.2 hswitch
        · next hgo =>
            refine .jobDone hpc (.inr (.inr ?_))
            cases ok with
            | false => exact .inl rfl
            | true => exact .inr (.inl (Bool.eq_false_iff.mpr fun hact => hgo ⟨rfl, hact⟩))
      · next hmodel => exact .jobDone hpc (.inr (.inr (.inr (.inr hmodel))))

theorem conclude_deed (h : Owned False s.app.child) {t : Thread} {o : Origin} {a : Answer}
    {rc : Nat} (hpc : s.pc t = .observed o a rc) (ht : t ≠ .monitor) :
    Deed s t (conclude s.app o a rc w) := by
  unfold conclude
  split
  · next hgo =>
      rw [← roundEnd_ne ht (stopChild ..) w]
      exact stopChild_deed h (.observation hpc hgo.2)
  · exact .concluded hpc

theorem startup_deed (h : Owned False s.app.child) (hpc : s.pc .main = .starting) (b : Boot) :
    Deed s .main (startup s.app b w) := by
  unfold startup
  cases b with
  | nothing => exact .bootNothing hpc
  | custom path => exact startChildMode_deed h fun r _ _ => .boot hpc
  | selected thread =>
      simp only
      split
      · exact .bootJob hpc
      · exact .bootNothing hpc

theorem startCont_iff {k : Cont} (h : starting k = true) : ∃ c r, StartCont c r k := by
  cases k with
  | start r c => exact ⟨c, r, .start⟩
  | refused c => exact ⟨c, ⟨0, none, .auto, .cpu, none⟩, .refused⟩
  | loadCancelled | timedOut | mismatch | observation | stopRoute | removeRoute | exit => cases h

theorem waiter_ne {t : Thread} {k : Cont} (h : Waiter k t) (hk : starting k = true) :
    t ≠ .monitor := by
  intro ht
  subst ht
  cases k with
  | start r c | refused c => cases c <;> simp [Waiter] at h
  | loadCancelled | timedOut | mismatch | observation | stopRoute | removeRoute | exit => cases hk

theorem wakes_deed (h : Owned False s.app.child) {t : Thread} {wait : Wait} {k : Cont}
    (hpc : s.pc t = .waiting wait k) (hplaced : Placed t (s.pc t)) :
    Deed s t (roundEnd t (wakes s.app wait k w) w) := by
  rcases wakes_cases h wait k w with ⟨wait', heq, hsince, hcause⟩ | ⟨ch, heq, hstop, htouch⟩
  · rw [heq, roundEnd_waiting w rfl]
    exact .wakeWaits hpc hsince hcause
  · rw [heq]
    cases hk : starting k with
    | false =>
        refine .stopped (.inr ⟨⟨wait, hpc⟩, hk, rfl⟩) (.refl _) hstop
          ⟨wait.cause, .inr ?_, htouch⟩
        unfold waitCause
        rw [hpc]
    | true =>
        rw [hpc] at hplaced
        obtain ⟨c, r, hcont⟩ := startCont_iff hk
        obtain ⟨s₁, ok, heq', hstart, hk', hstands, htouch'⟩ :=
          afterStop_started hcont hstop htouch w
        rw [heq', roundEnd_ne (waiter_ne hplaced hk)]
        refine .startDone (.inr ⟨wait, k, hpc, hcont, hk', hstands⟩) hstart ?_
        unfold waitCause
        rw [hpc]
        exact htouch'

theorem observed_ne {t : Thread} {o : Origin} (h : Owner o t) : t ≠ .monitor := by
  intro ht
  subst ht
  cases o <;> simp [Owner] at h

theorem section_deed {act : Act} {t : Thread} {r : AppState × Pc} (h : Owned False s.app.child)
    (hplaced : ∀ t, Placed t (s.pc t)) (hsec : Section s act t r) : Deed s t r := by
  cases hsec with
  | startup hpc => exact startup_deed h hpc _
  | accept hpc hi => exact .accept hpc hi
  | handle hpc => exact handled_deed h hpc (handle_handled ..)
  | poll hpc hmain => exact polled_deed h hpc (pollChild_polled ..)
  | wake hpc => exact wakes_deed h hpc (hplaced _)
  | jobStart hpc hrun => exact .jobStart hpc hrun
  | jobEnd hpc => exact jobEnd_deed h hpc _
  | connect hpc => exact .connect hpc
  | answer hpc hr => exact .answer hpc hr
  | observed hpc => exact .observed hpc
  | conclude hpc =>
      have howner := hplaced t
      rw [hpc] at howner
      exact conclude_deed h hpc (observed_ne howner)
  | compare hr => exact compares_deed h hr
  | monitorEnd hpc hclosing => exact .monitorEnd hpc
  | drain hpc => exact .drain hpc
  | leave hpc =>
      rw [← roundEnd_ne (t := .main) (fun ht => by cases ht) (stopChild ..) _]
      exact stopChild_deed h (.exit hpc)

end Sections

/-! ## Every run -/

/-- What holds in every state of every run, whatever the order of the steps. -/
structure Grounded (s : Sys) : Prop where
  owned : Owned False s.app.child
  fitted : Fitted s.app.child
  placed : ∀ t, Placed t (s.pc t)
  fresh : s.pc .main = .starting → s.Initial

theorem afterStart_placed {s : AppState} {c : Caller} {t : Thread} {ok : Bool} {w : World}
    (h : (c = .boot ∧ t = .main) ∨ Waiter (.refused c) t) : Placed t (afterStart c s ok w).2 := by
  unfold afterStart
  cases c with
  | boot => exact h.elim And.right fun hf => hf.elim
  | job | execution path id => trivial
  | slot n | restore done =>
      have ht : t = .comparison := h.elim (fun h => by cases h.1) id
      simp only
      split <;> exact ht

theorem afterObservation_placed {s : AppState} {o : Origin} {a : Answer} {t : Thread}
    (h : Owner o t) : Placed t (afterObservation s o a).2 := by
  unfold afterObservation
  cases o with
  | request => trivial
  | repetition n r =>
      have ht : t = .comparison := h
      simp only
      generalize (if s.compare.gpu = true then 2 else 1) = slots
      split
      · split
        · exact ht
        · split <;> exact ht
      · exact ht

theorem afterStop_placed {s : AppState} {k : Cont} {t : Thread} {w : World} (h : Waiter k t)
    (hk : starting k = false) : Placed t (afterStop k s w).2 := by
  cases k with
  | start | refused => cases hk
  | observation o a path id mode => exact afterObservation_placed h
  | loadCancelled | timedOut | mismatch | stopRoute | removeRoute | exit => trivial

theorem starts_waiter {s : Sys} {t : Thread} {c : Caller} {r : Start} {k : Cont}
    (h : Starts s t c r) (hk : StartCont c r k) : c = .boot ∧ t = .main ∨ Waiter k t := by
  cases h with
  | boot => exact .inl ⟨rfl, rfl⟩
  | execution => cases hk <;> exact .inr ⟨_, rfl⟩
  | job | slot | restore => cases hk <;> exact .inr rfl

theorem calls_waiter {s : Sys} (hplaced : ∀ t, Placed t (s.pc t)) {t : Thread} {k : Cont}
    {cause : Option Nat} {s₀ : AppState} (h : Calls s t k cause s₀) : Waiter k t := by
  cases h with
  | stopRoute | removeRoute => exact ⟨_, rfl⟩
  | cancelled | timedOut | mismatch | exit => rfl
  | observation hpc =>
      have := hplaced t
      rw [hpc] at this
      exact this

theorem connects_placed {s : AppState} {o : Origin} {t : Thread} (h : Owner o t) (succeeds : Bool)
    (a : Answer) : Placed t (connects s o succeeds a) := by
  unfold connects
  split
  · split <;> exact h
  · exact h

theorem answers_snd {s : AppState} {t : Thread} {o : Origin} {k : Nat} {a : Answer}
    {r : AppState × Pc} (hr : answers s t o k a = some r) : r.2 = .answered o a := by
  unfold answers at hr
  split at hr
  · split at hr <;> cases hr
    rfl
  · cases hr
    rfl

theorem plain_snd {s : AppState} {t : Thread} {w : World} {r : AppState × Pc}
    (h : Supervisor.Plain s t w r) : r.2 = .idle ∨ r.2 = .admitted .request := by
  cases h with
  | admitted => exact .inr rfl
  | _ => exact .inl rfl

theorem compares_placed {s : AppState} {w : World} {pc : Pc} {r : AppState × Pc}
    (h : Compares s w pc r) : Placed .comparison r.2 := by
  cases h with
  | finish => trivial
  | _ => rfl

theorem deed_placed {s : Sys} {t : Thread} {r : AppState × Pc} (h : Grounded s)
    (hd : Deed s t r) : Placed t r.2 := by
  have hat (t : Thread) {pc : Pc} (hpc : s.pc t = pc) : Placed t pc := hpc ▸ h.placed t
  cases hd with
  | bootNothing | bootJob | drain => rfl
  | startWaits hs hk hc hlogs hprep hrev =>
      rcases starts_waiter hs hk with ⟨rfl, rfl⟩ | hw
      · cases hs with
        | boot hpc =>
            obtain ⟨k, hpid⟩ := hrev.alive
            rw [(h.fresh hpc).pid] at hpid
            cases hpid
      · exact hw
  | @startDone _ c r s₁ ok w hs hstart =>
      refine afterStart_placed ?_
      rcases hs with hs | ⟨wait, k, hpc, hk, _⟩
      · exact starts_waiter hs .refused
      · have := hat t hpc
        cases hk <;> exact .inr this
  | callWaits hcall hrev => exact calls_waiter h.placed hcall
  | stopped hk hc hstop =>
      rw [roundEnd_snd]
      rcases hk with ⟨cause, hcall⟩ | ⟨⟨wait, hpc⟩, hstart, _⟩
      · refine afterStop_placed (calls_waiter h.placed hcall) ?_
        cases hcall <;> rfl
      · exact afterStop_placed (hat t hpc) hstart
  | wakeWaits hpc =>
      have hw := hat t hpc
      exact hw
  | accept => exact ⟨_, rfl⟩
  | request hpc hr =>
      rcases plain_snd hr with heq | heq <;> rw [heq]
      · trivial
      · exact ⟨_, rfl⟩
  | jobStart => rfl
  | connect hpc => exact connects_placed (hat t hpc) _ _
  | answer hpc hr =>
      have ho := hat t hpc
      rw [answers_snd hr]
      exact ho
  | observed hpc =>
      have ho := hat t hpc
      exact ho
  | concluded hpc => exact afterObservation_placed (hat t hpc)
  | compare hr => exact compares_placed hr
  | pollNothing | pollEnded | pollPublished | monitorEnd | jobDone => trivial

/-! ### The child -/

theorem afterStart_moved {s : AppState} (c : Caller) {ok : Bool} {w : World}
    (h : Owned False s.child) (hok : ok = false → s.child.pid = none) :
    Moved s.child (afterStart c s ok w).1.child := by
  unfold afterStart
  cases c with
  | boot | slot n | restore done => exact .refl _
  | job =>
      simp only [jobDone_child]
      split <;> exact .refl _
  | execution path id =>
      cases ok with
      | true => exact .refl _
      | false => exact (startIdle_started h (hok rfl) path id .cpu none w.again w.engine).child

/-- What `poll_child` does behind a `stop_child`. -/
theorem monitorStop_carries {s : AppState} {k : Cont} (w : World) (h : Owned False s.child)
    (hpid : s.child.pid = none) (hk : Waiter k .monitor) : Carries s (afterStop k s w).1 := by
  cases k with
  | loadCancelled p cause =>
      exact ((hit_carries s _ _).trans (endLoad_carries _ _)).trans (switchEnds_carries _ _)
  | timedOut p => exact (childFailed_failed h hpid p true w).toCarries
  | mismatch p => exact (endLoad_carries s _).trans (switchEnds_carries _ _)
  | start r c | refused c => exact absurd rfl (waiter_ne hk rfl)
  | observation o a path id mode => exact absurd rfl (observed_ne hk)
  | stopRoute | removeRoute =>
      obtain ⟨i, hi⟩ := hk
      cases hi
  | exit => cases hk

theorem afterStop_moved {s : AppState} {k : Cont} (w : World) (h : Owned False s.child)
    (hpid : s.child.pid = none) (hk : starting k = false) :
    Moved s.child (afterStop k s w).1.child := by
  cases k with
  | start | refused => cases hk
  | loadCancelled p cause =>
      exact (monitorStop_carries (k := .loadCancelled p cause) w h hpid rfl).child
  | timedOut p => exact (monitorStop_carries (k := .timedOut p) w h hpid rfl).child
  | mismatch p => exact (monitorStop_carries (k := .mismatch p) w h hpid rfl).child
  | observation o a path id mode =>
      simp only [afterStop, afterObservation_fst]
      split
      · exact (startIdle_started h hpid path id mode none w.fault w.engine).child
      · exact .refl _
  | removeRoute m unlinks saves =>
      simp only [afterStop, removed_child]
      exact .refl _
  | stopRoute | exit => exact .refl _

theorem compares_child {s : AppState} {w : World} {pc : Pc} {r : AppState × Pc}
    (h : Compares s w pc r) : r.1.child = s.child := by
  cases h <;> rfl

theorem deed_moved {s : Sys} {t : Thread} {r : AppState × Pc} (h : Grounded s)
    (hd : Deed s t r) : Moved s.app.child r.1.child := by
  cases hd with
  | bootJob =>
      simp only [beginJob_child]
      exact .refl _
  | startWaits hs hk hc hlogs hprep hrev => exact hc.child
  | startDone hs hstart =>
      exact hstart.child.trans (afterStart_moved _ hstart.owned fun hf => (hstart.fails hf).1)
  | callWaits hcall hrev => exact hcall.carries.child.trans hrev.toMoved
  | @stopped _ k s₀ ch _ hk hc hstop =>
      have hstart : starting k = false := by
        rcases hk with ⟨cause, hcall⟩ | ⟨_, hstart, _⟩
        · cases hcall <;> rfl
        · exact hstart
      rw [roundEnd_child]
      exact (hc.child.trans hstop.toMoved).trans
        (afterStop_moved (s := s₀.own ch) _ hstop.owned hstop.pid hstart)
  | request hpc hr =>
      cases hr <;> (try simp only [beginJob_child, removed_child]) <;> exact .refl _
  | pollNothing => exact .refl _
  | pollEnded hpc hpid hstopping hflag hswitch hfail => exact hfail.child
  | @pollPublished _ saves _ hpc hpid hstopping hready hflag =>
      obtain ⟨p, hp, _⟩ := h.owned.alive hpid
      exact (published_carries hpid hp hstopping saves).child
  | jobDone =>
      simp only [jobDone_child]
      exact .refl _
  | answer hpc hr =>
      unfold answers at hr
      split at hr
      · split at hr <;> cases hr
        exact .refl _
      · cases hr
        simp only
        split <;> exact .refl _
  | observed =>
      simp only [observationEnd_child]
      exact .refl _
  | concluded =>
      simp only [afterObservation_fst]
      exact .refl _
  | compare hr =>
      rw [compares_child hr]
      exact .refl _
  | bootNothing | wakeWaits | accept | monitorEnd | jobStart | connect | drain => exact .refl _

/-! ### Waits -/

/-- The waits that a section leads to: of a start or of another call that has
begun in it, or the wait that it goes on with. -/
theorem deed_waits {s : Sys} {t : Thread} {r : AppState × Pc} (hd : Deed s t r) {wait : Wait}
    {k : Cont} (hw : r.2 = .waiting wait k) :
    (∃ c q, Starts s t c q ∧ StartCont c q k ∧ Carries s.app r.1 ∧
      Revoked s.app.child none wait r.1.child) ∨
    (∃ cause s₀, Calls s t k cause s₀ ∧ Revoked s₀.child cause wait r.1.child ∧
      r.1 = s₀.own r.1.child) ∨
    ∃ wait₀, s.pc t = .waiting wait₀ k ∧ wait.since = wait₀.since ∧ wait.cause = wait₀.cause ∧
      r.1 = s.app := by
  cases hd with
  | startWaits hs hk hc hlogs hprep hrev =>
      cases hw
      exact .inl ⟨_, _, hs, hk, hc, hrev⟩
  | callWaits hcall hrev =>
      cases hw
      exact .inr (.inl ⟨_, _, hcall, hrev, rfl⟩)
  | wakeWaits hpc hsince hcause =>
      cases hw
      exact .inr (.inr ⟨_, hpc, hsince, hcause, rfl⟩)
  | startDone => exact absurd hw (afterStart_ne _ _ _ _)
  | stopped =>
      rw [roundEnd_snd] at hw
      exact absurd hw (afterStop_ne _ _ _)
  | request hpc hr => rcases plain_snd hr with heq | heq <;> rw [heq] at hw <;> cases hw
  | connect => exact absurd hw (connects_ne _ _ _ _ _)
  | answer hpc hr => exact absurd hw (answers_ne hr _ _)
  | concluded => exact absurd hw (afterObservation_ne _ _ _ _)
  | compare hr =>
      generalize s.pc .comparison = pc at hr
      cases hr <;> cases hw
  | bootNothing | bootJob | accept | pollNothing | pollEnded | pollPublished | monitorEnd
  | jobStart | jobDone | observed | drain => cases hw

/-! ### Every run -/

theorem initial_grounded {s : Sys} (h : s.Initial) : Grounded s := by
  refine ⟨initial_owned h, ⟨fun {p} hp => ?_, fun hr => ?_, fun {k p} hk => ?_⟩, fun t => ?_,
    fun _ => h⟩
  · rw [h.procs] at hp
    cases hp
  · rw [h.ready] at hr
    cases hr
  · rw [h.pid] at hk
    cases hk
  · by_cases ht : t = .main
    · rw [ht, h.main]
      rfl
    · rw [h.others t ht]
      trivial

/-- The places that a section leads to. -/
def Reached (pc : Pc) : Prop := pc ≠ .starting

theorem afterStart_reached {s : AppState} {c : Caller} {ok : Bool} {w : World} :
    Reached (afterStart c s ok w).2 := by
  unfold afterStart
  cases c with
  | boot | job | execution path id => exact fun h => by cases h
  | slot n | restore done =>
      simp only
      split <;> exact fun h => by cases h

theorem afterObservation_reached {s : AppState} {o : Origin} {a : Answer} :
    Reached (afterObservation s o a).2 := by
  unfold afterObservation
  cases o with
  | request => exact fun h => by cases h
  | repetition n r =>
      simp only
      generalize (if s.compare.gpu = true then 2 else 1) = slots
      split
      · split
        · exact fun h => by cases h
        · split <;> exact fun h => by cases h
      · exact fun h => by cases h

theorem afterStop_reached {s : AppState} {k : Cont} {w : World} :
    Reached (afterStop k s w).2 := by
  cases k with
  | start | refused => exact afterStart_reached
  | observation => exact afterObservation_reached
  | loadCancelled | timedOut | mismatch | stopRoute | removeRoute | exit =>
      exact fun h => by cases h

theorem connects_reached {s : AppState} {o : Origin} {succeeds : Bool} {a : Answer} :
    Reached (connects s o succeeds a) := by
  unfold connects
  split
  · split <;> exact fun h => by cases h
  · exact fun h => by cases h

theorem deed_reached {s : Sys} {t : Thread} {r : AppState × Pc} (hd : Deed s t r) :
    Reached r.2 := by
  cases hd with
  | startDone => exact afterStart_reached
  | stopped =>
      rw [roundEnd_snd]
      exact afterStop_reached
  | request hpc hr => rcases plain_snd hr with heq | heq <;> rw [heq] <;> exact fun h => by cases h
  | connect => exact connects_reached
  | answer hpc hr =>
      rw [answers_snd hr]
      exact fun h => by cases h
  | concluded => exact afterObservation_reached
  | compare hr =>
      generalize s.pc .comparison = pc at hr
      cases hr <;> exact fun h => by cases h
  | bootNothing | bootJob | startWaits | callWaits | wakeWaits | accept | pollNothing | pollEnded
  | pollPublished | monitorEnd | jobStart | jobDone | observed | drain => exact fun h => by cases h

/-- Before it has started up the app does nothing else. -/
theorem section_starting {s : Sys} {act : Act} {t : Thread} {r : AppState × Pc}
    (h : s.Initial) (hsec : Section s act t r) : t = .main := by
  have hat (t : Thread) (ht : t ≠ .main) : s.pc t = .idle := h.others t ht
  have hnot {t : Thread} {pc : Pc} (hpc : s.pc t = pc) (h1 : pc ≠ .idle) (h2 : pc ≠ .starting) :
      False := by
    by_cases ht : t = .main
    · rw [ht, h.main] at hpc
      exact h2 hpc.symm
    · rw [hat t ht] at hpc
      exact h1 hpc.symm
  cases hsec with
  | startup => rfl
  | accept hpc => exact (hnot hpc (fun h => by cases h) fun h => by cases h).elim
  | handle hpc => exact (hnot hpc (fun h => by cases h) fun h => by cases h).elim
  | poll hpc hmain => exact absurd h.main hmain
  | wake hpc => exact (hnot hpc (fun h => by cases h) fun h => by cases h).elim
  | jobStart hpc hrun =>
      rw [h.job] at hrun
      cases hrun
  | jobEnd hpc => exact (hnot hpc (fun h => by cases h) fun h => by cases h).elim
  | connect hpc => exact (hnot hpc (fun h => by cases h) fun h => by cases h).elim
  | answer hpc => exact (hnot hpc (fun h => by cases h) fun h => by cases h).elim
  | observed hpc => exact (hnot hpc (fun h => by cases h) fun h => by cases h).elim
  | conclude hpc => exact (hnot hpc (fun h => by cases h) fun h => by cases h).elim
  | compare hr =>
      rw [hat .comparison (fun h => by cases h)] at hr
      simp only [comparisonMain] at hr
      rw [h.compare] at hr
      cases hr
  | monitorEnd hpc hclosing =>
      rw [h.closing] at hclosing
      cases hclosing
  | drain hpc => exact (hnot hpc (fun h => by cases h) fun h => by cases h).elim
  | leave hpc => exact (hnot hpc (fun h => by cases h) fun h => by cases h).elim

theorem exit_initial {s : Sys} (h : s.Initial) (k : Nat) :
    (⟨s.app.own (s.app.child.exit k), s.pc⟩ : Sys) = s := by
  have hruns : s.app.child.runs k = false := by
    unfold Child.runs
    rw [h.procs k]
  unfold Child.exit
  rw [hruns, if_neg Bool.false_ne_true, own_self]

theorem step_deed {s s' : Sys} {act : Act} (h : Grounded s) (hstep : s.step act = some s') :
    (∃ k, act = .exit k ∧ s' = ⟨s.app.own (s.app.child.exit k), s.pc⟩) ∨
    ∃ t r, act.thread = some t ∧ Deed s t r ∧ s' = s.put t r := by
  rcases step_section hstep with ⟨k, rfl, rfl⟩ | ⟨t, r, hsec, rfl⟩
  · exact .inl ⟨k, rfl, rfl⟩
  · exact .inr ⟨t, r, hsec.thread, section_deed h.owned h.placed hsec, rfl⟩

theorem step_fresh {s s' : Sys} {act : Act} (h : Grounded s) (hstep : s.step act = some s')
    (hmain : s'.pc .main = .starting) : s'.Initial := by
  rcases step_section hstep with ⟨k, rfl, rfl⟩ | ⟨t, r, hsec, rfl⟩
  · have hinit := h.fresh hmain
    rw [exit_initial hinit]
    exact hinit
  · by_cases ht : t = .main
    · subst ht
      rw [put_pc_same] at hmain
      exact absurd hmain (deed_reached (section_deed h.owned h.placed hsec))
    · rw [put_pc_ne s r (Ne.symm ht)] at hmain
      exact absurd (section_starting (h.fresh hmain) hsec) ht

theorem step_grounded {s s' : Sys} {act : Act} (h : Grounded s) (hstep : s.step act = some s') :
    Grounded s' := by
  have howned := step_owned h.owned (fun hf => hf.elim) hstep
  refine ⟨howned, ?_, fun t => ?_, step_fresh h hstep⟩
  · rcases step_deed h hstep with ⟨k, rfl, rfl⟩ | ⟨t, r, _, hd, rfl⟩
    · exact (exit_moved _ k).fitted h.fitted
    · exact (deed_moved h hd).fitted h.fitted
  · rcases step_deed h hstep with ⟨k, rfl, rfl⟩ | ⟨t', r, _, hd, rfl⟩
    · exact h.placed t
    · by_cases ht : t = t'
      · subst ht
        rw [put_pc_same]
        exact deed_placed h hd
      · rw [put_pc_ne s r ht]
        exact h.placed t

theorem reach_grounded {s : Sys} {ok : Sys → Act → Prop} (h : appMachine.Reach ok s) :
    Grounded s :=
  h.invariant (I := Grounded) (fun _ hs => initial_grounded hs) fun _ _ _ _ _ hstep hI =>
    step_grounded hI hstep

end GeistServe.Proofs
