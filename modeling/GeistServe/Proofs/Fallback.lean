import GeistServe.Proofs.Deeds

/-!
# Starts by poll_child

`poll_child` starts a process in one place only, behind a process that has failed
on the GPU, and on the CPU. `Retried` keeps what that means for a run: a process
that has been started so is never one that is started for again, so the starts of
`poll_child` do not go on by themselves.

Its `stop_child` gives up the lock when the time of a load is up; a process that
another thread starts in the meantime is the one that is stopped, and the start
that follows counts for the earlier one. `Watched` leaves these runs out.
-/

namespace GeistServe.Proofs

open GeistServe.Lib GeistServe.Supervisor

/-- `poll_child` starts a process for one that has failed. -/
structure Restarts (s : AppState) (k : Nat) (s' : AppState) : Prop where
  active : s.child.active ≠ .cpu
  load : s.load.generation ≤ s.child.generation
  logged : s'.fallbacks = ⟨k, s'.child.generation, s.load.generation⟩ :: s.fallbacks
  next : s'.child.generation = s.child.generation + 1
  process : ∃ p, s'.child.procs s'.child.generation = some p ∧ p.processor = .cpu

/-- What a section does to the starts of `poll_child`: nothing, and then the monitor
has started nothing, or the monitor has found a process that failed. -/
def Logged (s : Sys) (t : Thread) (s' : AppState) : Prop :=
  (s'.fallbacks = s.app.fallbacks ∧
    (t = .monitor → s'.child.generation = s.app.child.generation)) ∨
  t = .monitor ∧ ∃ k, Restarts s.app k s' ∧
    (s.app.child.pid = some k ∨ ∃ wait, s.pc .monitor = .waiting wait (.timedOut k))

theorem Failed.restarts {s s' : AppState} {k : Nat} {switch : Option (Option Nat)}
    (h : Failed s k switch s') :
    (s'.fallbacks = s.fallbacks ∧ s'.child.generation = s.child.generation) ∨
      Restarts s k s' := by
  rcases h.cases with ⟨hgen, _, hfall, _⟩ | ⟨hactive, hload, hfall, _, path, id, hspawn⟩
  · exact .inl ⟨hfall, hgen⟩
  · obtain ⟨engine, hnew⟩ := hspawn.process
    exact .inr ⟨hactive, hload, hfall, hspawn.generation, _, hnew, rfl⟩

theorem afterStart_fallbacks {s : AppState} (c : Caller) {ok : Bool} (w : World)
    (h : Owned False s.child) (hok : ok = false → s.child.pid = none) :
    (afterStart c s ok w).1.fallbacks = s.fallbacks := by
  cases c with
  | boot | slot n | restore done => rfl
  | execution path id =>
      cases ok with
      | true => rfl
      | false =>
          exact congrArg (·.2.1)
            (startIdle_started h (hok rfl) path id .cpu none w.again w.engine).logs
  | job =>
      obtain ⟨s₁, heq, hfollow⟩ := afterStart_job s ok w
      rw [heq]
      exact (congrArg AppState.fallbacks (jobDone_rest s₁ true w) :).trans
        (congrArg AppState.fallbacks hfollow.rest :)

theorem plain_fallbacks {s : AppState} {t : Thread} {w : World} {r : AppState × Pc}
    (h : Supervisor.Plain s t w r) : r.1.fallbacks = s.fallbacks := by
  cases h with
  | removed => exact (congrArg AppState.fallbacks (removed_rest s _ _ _) :)
  | @background m thread => exact (congrArg AppState.fallbacks (beginJob_rest s m _ _ _) :)
  | @switch m thread => exact (congrArg AppState.fallbacks (beginJob_rest s m _ _ _) :)
  | @select m download thread =>
      exact (congrArg AppState.fallbacks (beginJob_rest (s.saveSelection _) m _ _ _) :)
  | _ => rfl

/-- A process of the monitor that is stopped. -/
theorem monitorStop_logged {s : Sys} {k : Cont} {s₀ : AppState} {ch : Child} (w : World)
    (hk : (∃ cause, Calls s .monitor k cause s₀) ∨
      (∃ wait, s.pc .monitor = .waiting wait k) ∧ s₀ = s.app)
    (hw : Waiter k .monitor) (hstop : Stops s₀.child ch) :
    Logged s .monitor (afterStop k (s₀.own ch) w).1 := by
  -- What the call does in front of its `stop_child` leaves the last process what it is.
  have hbefore : s₀.child.generation = s.app.child.generation ∧
      s₀.child.active = s.app.child.active ∧ s₀.fallbacks = s.app.fallbacks ∧
      s₀.load = s.app.load := by
    rcases hk with ⟨_, hcall⟩ | ⟨_, rfl⟩
    · cases hcall with
      | timedOut =>
          have hrest := waitpid_rest s.app.child
          exact ⟨hrest.2.2.2.1, hrest.2.2.2.2.2.1, rfl, rfl⟩
      | cancelled | mismatch => exact ⟨rfl, rfl, rfl, rfl⟩
      | observation hpc => exact absurd rfl (observed_ne hw)
    · exact ⟨rfl, rfl, rfl, rfl⟩
  obtain ⟨hgen, hactive, hfall, hload⟩ := hbefore
  have hnext : ch.generation = s.app.child.generation := hstop.same.trans hgen
  have hproc : ch.active = s.app.child.active :=
    (hstop.toKin.still hstop.same).active.trans hactive
  cases k with
  | loadCancelled p cause => exact .inl ⟨hfall, fun _ => hnext⟩
  | mismatch p => exact .inl ⟨hfall, fun _ => hnext⟩
  | timedOut p =>
      rcases (childFailed_failed (s := s₀.own ch) hstop.owned hstop.pid p true w).restarts with
        ⟨hsame, hgen'⟩ | ⟨ha, hl, hlog, hnew, hcpu⟩
      · exact .inl ⟨hsame.trans hfall, fun _ => hgen'.trans hnext⟩
      · refine .inr ⟨rfl, p, ⟨?_, ?_, ?_, hnew.trans (congrArg (· + 1) hnext), hcpu⟩, ?_⟩
        · rw [← hproc]
          exact ha
        · rw [← hload, ← hnext]
          exact hl
        · rw [← hload, ← hfall]
          exact hlog
        · rcases hk with ⟨_, hcall⟩ | ⟨hpc, _⟩
          · cases hcall with
            | timedOut hpc hpid => exact .inl hpid
          · exact .inr hpc
  | start r c | refused c => exact absurd rfl (waiter_ne hw rfl)
  | observation o a path id mode => exact absurd rfl (observed_ne hw)
  | stopRoute | removeRoute =>
      obtain ⟨i, hi⟩ := hw
      cases hi
  | exit => cases hw

theorem deed_logged {s : Sys} {t : Thread} {r : AppState × Pc} (hg : Grounded s)
    (hd : Deed s t r) : Logged s t r.1 := by
  have hown {t : Thread} {s' : AppState} (h : s'.fallbacks = s.app.fallbacks)
      (ht : t ≠ .monitor) : Logged s t s' := .inl ⟨h, fun he => absurd he ht⟩
  have hround {s' : AppState} {reads : Bool} (h : Logged s .monitor s') :
      Logged s .monitor (s'.sample reads) :=
    h.imp id fun ⟨ht, k, hr, hk⟩ => ⟨ht, k, ⟨hr.active, hr.load, hr.logged, hr.next, hr.process⟩, hk⟩
  cases hd with
  | bootNothing | drain => exact hown rfl fun he => by cases he
  | @bootJob m thread =>
      exact hown (congrArg AppState.fallbacks (beginJob_rest s.app m _ _ _) :) fun he => by cases he
  | startWaits hs hk hc hlogs hprep hrev =>
      refine hown (congrArg (·.2.1) hlogs) fun he => ?_
      subst he
      cases hs
  | @startDone _ c _ _ _ w hs hstart =>
      refine hown ((afterStart_fallbacks c w hstart.owned fun hf => (hstart.fails hf).1).trans
        (congrArg (·.2.1) hstart.logs)) fun he => ?_
      subst he
      rcases hs with hs | ⟨wait, k, hpc, hk, _⟩
      · cases hs
      · have hw := hg.placed .monitor
        rw [hpc] at hw
        exact waiter_ne hw (by cases hk <;> rfl) rfl
  | callWaits hcall hrev =>
      cases hcall with
      | cancelled | mismatch => exact .inl ⟨rfl, fun _ => hrev.same⟩
      | timedOut => exact .inl ⟨rfl, fun _ => hrev.same.trans (waitpid_rest _).2.2.2.1⟩
      | observation hpc =>
          have howner := hg.placed t
          rw [hpc] at howner
          exact hown rfl (observed_ne howner)
      | stopRoute | removeRoute | exit => exact hown rfl fun he => by cases he
  | @stopped _ k s₀ ch w hk hc hstop =>
      have hw : Waiter k t := by
        rcases hk with ⟨cause, hcall⟩ | ⟨⟨wait, hpc⟩, _⟩
        · exact calls_waiter hg.placed hcall
        · have hw := hg.placed t
          rw [hpc] at hw
          exact hw
      by_cases ht : t = .monitor
      · subst ht
        have hlogged : Logged s .monitor (afterStop k (s₀.own ch) w).1 := by
          rcases hk with hcall | ⟨hpc, _, rfl⟩
          · exact monitorStop_logged w (.inl hcall) hw hstop
          · exact monitorStop_logged w (.inr ⟨hpc, rfl⟩) hw hstop
        unfold roundEnd
        split
        · exact hround hlogged
        · exact hlogged
      · have hfall : s₀.fallbacks = s.app.fallbacks := by
          rcases hk with ⟨cause, hcall⟩ | ⟨_, _, rfl⟩
          · cases hcall <;> rfl
          · rfl
        rw [roundEnd_ne ht]
        refine hown ?_ ht
        cases k with
        | start | refused =>
            rcases hk with ⟨cause, hcall⟩ | ⟨_, hstart, _⟩
            · cases hcall
            · cases hstart
        | loadCancelled | timedOut | mismatch => exact absurd hw ht
        | observation o a path id mode =>
            simp only [afterStop, afterObservation_fst]
            split
            · exact (congrArg (·.2.1) (startIdle_started (s := s₀.own ch) hstop.owned hstop.pid
                path id mode none w.fault w.engine).logs).trans hfall
            · exact hfall
        | removeRoute m unlinks saves =>
            exact (congrArg AppState.fallbacks (removed_rest (s₀.own ch) m unlinks saves) :).trans hfall
        | stopRoute | exit => exact hfall
  | wakeWaits => exact .inl ⟨rfl, fun _ => rfl⟩
  | accept => exact hown rfl fun he => by cases he
  | request hpc hr => exact hown (plain_fallbacks hr) fun he => by cases he
  | pollNothing => exact .inl ⟨rfl, fun _ => rfl⟩
  | pollEnded hpc hpid hstopping hflag hswitch hfail =>
      refine hround (hfail.restarts.imp (fun h => ⟨h.1, fun _ => h.2⟩) fun h => ?_)
      exact ⟨rfl, _, h, .inl hpid⟩
  | pollPublished => exact .inl ⟨rfl, fun _ => rfl⟩
  | monitorEnd => exact .inl ⟨rfl, fun _ => rfl⟩
  | jobStart => exact hown rfl fun he => by cases he
  | jobDone =>
      exact hown (congrArg AppState.fallbacks (jobDone_rest s.app _ _) :) fun he => by cases he
  | connect hpc =>
      have howner := hg.placed t
      rw [hpc] at howner
      exact hown rfl (observed_ne howner)
  | answer hpc hr =>
      have howner := hg.placed t
      rw [hpc] at howner
      refine hown ?_ (observed_ne howner)
      unfold answers at hr
      split at hr
      · split at hr <;> cases hr
        rfl
      · cases hr
        simp only
        split <;> rfl
  | observed hpc =>
      have howner := hg.placed t
      rw [hpc] at howner
      exact hown (congrArg AppState.fallbacks (observationEnd_rest s.app t _ _) :)
        (observed_ne howner)
  | concluded hpc =>
      have howner := hg.placed t
      rw [hpc] at howner
      exact hown (congrArg (·.fallbacks) (afterObservation_fst _ _ _)) (observed_ne howner)
  | compare hr =>
      refine hown ?_ fun he => by cases he
      generalize s.pc .comparison = pc at hr
      cases hr <;> rfl

/-! ## Every run -/

/-- No process is started while `poll_child` waits in its `stop_child`. -/
def Watched (s : Sys) (act : Act) : Prop :=
  ∀ s', s.step act = some s' → s'.app.child.generation ≠ s.app.child.generation →
    ∀ wait k, s.pc .monitor = .waiting wait k → act.thread = some .monitor

/-- What one start of `poll_child` is. -/
structure OnCpu (c : Child) (f : Fallback) : Prop where
  failed : ∃ p, c.procs f.failed = some p ∧ p.processor = .gpu
  started : ∃ p, c.procs f.started = some p ∧ p.processor = .cpu
  older : f.load ≤ f.failed
  order : f.failed < f.started
  last : f.started ≤ c.generation

theorem OnCpu.moved {c c' : Child} {f : Fallback} (h : OnCpu c f) (hm : Kin c c') :
    OnCpu c' f := by
  obtain ⟨p, hp, hgpu⟩ := h.failed
  obtain ⟨q, hq, hcpu⟩ := h.started
  obtain ⟨p', hp', hsame⟩ := hm.procs hp
  obtain ⟨q', hq', hsame'⟩ := hm.procs hq
  exact ⟨⟨p', hp', hsame.processor.trans hgpu⟩, ⟨q', hq', hsame'.processor.trans hcpu⟩, h.older,
    h.order, h.last.trans hm.generation⟩

/-- The starts of `poll_child`, the last first. -/
structure Retried (s : Sys) : Prop where
  waits : ∀ {wait k}, s.pc .monitor = .waiting wait (.timedOut k) →
    k = s.app.child.generation ∧ ∃ p, s.app.child.procs k = some p
  each : ∀ f ∈ s.app.fallbacks, OnCpu s.app.child f
  distinct : s.app.fallbacks.Pairwise fun f g => f.failed ≠ g.failed

theorem step_retried {s s' : Sys} {act : Act} (hg : Grounded s) (hok : Watched s act)
    (hstep : s.step act = some s') (h : Retried s) : Retried s' := by
  rcases step_deed hg hstep with ⟨n, rfl, rfl⟩ | ⟨t, r, hact, hd, rfl⟩
  · have hm := exit_moved s.app.child n
    have hgen : (s.app.child.exit n).generation = s.app.child.generation := by
      unfold Child.exit
      split <;> rfl
    refine ⟨fun hpc => ?_, fun f hf => (h.each f hf).moved hm.toKin, h.distinct⟩
    obtain ⟨hk, p, hp⟩ := h.waits hpc
    obtain ⟨p', hp', _⟩ := hm.procs hp
    exact ⟨hk.trans hgen.symm, p', hp'⟩
  · have hm := deed_moved hg hd
    have hwaits {wait : Wait} {k : Nat}
        (hpc : (s.put t r).pc .monitor = .waiting wait (.timedOut k)) :
        k = r.1.child.generation ∧ ∃ p, r.1.child.procs k = some p := by
      have hcarried {k : Nat} (hgen : r.1.child.generation = s.app.child.generation)
          (hk : k = s.app.child.generation ∧ ∃ p, s.app.child.procs k = some p) :
          k = r.1.child.generation ∧ ∃ p, r.1.child.procs k = some p := by
        obtain ⟨hk, p, hp⟩ := hk
        obtain ⟨p', hp', _⟩ := hm.procs hp
        exact ⟨hk.trans hgen.symm, p', hp'⟩
      by_cases ht : t = .monitor
      · subst ht
        rw [put_pc_same] at hpc
        rcases deed_waits hd hpc with ⟨c, q, hs, _⟩ | ⟨cause, s₀, hcall, hrev, _⟩ |
          ⟨wait₀, hpc₀, _, _, heq⟩
        · cases hs
        · cases hcall with
          | timedOut _ hpid =>
              obtain ⟨p, hp, _⟩ := hg.owned.alive hpid
              refine hcarried (hrev.same.trans (waitpid_rest _).2.2.2.1) ⟨hg.owned.last hpid, p, hp⟩
        · rw [heq]
          exact h.waits hpc₀
      · rw [put_pc_ne s r (Ne.symm ht)] at hpc
        refine hcarried ?_ (h.waits hpc)
        by_contra hne
        have := hok (s.put t r) hstep hne _ _ hpc
        rw [hact] at this
        exact ht (Option.some.inj this)
    -- The process that failed is the last one, and was started for the GPU.
    have hfailed {k : Nat} (hr : Restarts s.app k r.1) (hk : s.app.child.pid = some k ∨
        ∃ wait, s.pc .monitor = .waiting wait (.timedOut k)) :
        k = s.app.child.generation ∧
          OnCpu r.1.child ⟨k, r.1.child.generation, s.app.load.generation⟩ := by
      obtain ⟨hlast, p, hp⟩ : k = s.app.child.generation ∧ ∃ p, s.app.child.procs k = some p := by
        rcases hk with hpid | ⟨wait, hpc⟩
        · obtain ⟨p, hp, _⟩ := hg.owned.alive hpid
          exact ⟨hg.owned.last hpid, p, hp⟩
        · exact h.waits hpc
      obtain ⟨p', hp', hsame⟩ := hm.procs hp
      have hactive := hg.fitted.active (hlast ▸ hp)
      have hgpu : p.processor = .gpu := by
        cases hproc : p.processor with
        | gpu => rfl
        | cpu => exact absurd (hactive.symm.trans hproc) hr.active
      have hnext := hr.next
      refine ⟨hlast, ⟨p', hp', hsame.processor.trans hgpu⟩, hr.process, ?_, ?_, Nat.le_refl _⟩
      · exact hlast ▸ hr.load
      · show k < r.1.child.generation
        omega
    refine ⟨hwaits, fun f hf => ?_, ?_⟩
    · rcases deed_logged hg hd with ⟨hfall, _⟩ | ⟨rfl, k, hr, hk⟩
      · rw [put_app, hfall] at hf
        exact (h.each f hf).moved hm.toKin
      · rw [put_app, hr.logged, List.mem_cons] at hf
        rcases hf with rfl | hf
        · exact (hfailed hr hk).2
        · exact (h.each f hf).moved hm.toKin
    · rcases deed_logged hg hd with ⟨hfall, _⟩ | ⟨rfl, k, hr, hk⟩
      · rw [put_app, hfall]
        exact h.distinct
      · rw [put_app, hr.logged, List.pairwise_cons]
        refine ⟨fun g hmem heq => ?_, h.distinct⟩
        have hlast := (hfailed hr hk).1
        have horder := (h.each g hmem).order
        have hle := (h.each g hmem).last
        have heq : k = g.failed := heq
        omega

theorem initial_retried {s : Sys} (h : s.Initial) : Retried s := by
  refine ⟨fun {wait k} hpc => ?_, fun f hf => ?_, ?_⟩
  · rw [h.others .monitor fun he => by cases he] at hpc
    cases hpc
  · rw [h.fallbacks] at hf
    cases hf
  · rw [h.fallbacks]
    exact .nil

theorem reach_retried {s : Sys} (h : appMachine.Reach Watched s) : Grounded s ∧ Retried s := by
  refine h.invariant (I := fun s => Grounded s ∧ Retried s) (fun s hs => ?_)
    fun s act s' _ hok hstep hI => ?_
  · exact ⟨initial_grounded (s := s) hs, initial_retried hs⟩
  · exact ⟨step_grounded hI.1 hstep, step_retried hI.1 hok hstep hI.2⟩

/-- In every run in which no process is started while `poll_child` waits in its
`stop_child`: every process that `poll_child` starts is one of its logged starts;
each of these is on the CPU, for a process that failed on the GPU, and with no
load activity newer than that process; and no process is started for twice, nor
is one that was started so ever started for. -/
theorem poll_child_starts_once {s : Sys} (h : appMachine.Reach Watched s) :
    (∀ act s', act.thread = some .monitor → s.step act = some s' →
      s'.app.child.generation ≠ s.app.child.generation →
      ∃ f, s'.app.fallbacks = f :: s.app.fallbacks ∧ f.started = s'.app.child.generation ∧
        s'.app.child.generation = s.app.child.generation + 1) ∧
    (∀ f ∈ s.app.fallbacks,
      (∃ p, s.app.child.procs f.failed = some p ∧ p.processor = .gpu) ∧
      (∃ p, s.app.child.procs f.started = some p ∧ p.processor = .cpu) ∧
      f.load ≤ f.failed) ∧
    s.app.fallbacks.Pairwise (fun f g => f.failed ≠ g.failed) ∧
    ∀ f ∈ s.app.fallbacks, ∀ g ∈ s.app.fallbacks, f.started ≠ g.failed := by
  obtain ⟨hg, hr⟩ := reach_retried h
  refine ⟨fun act s' hact hstep hne => ?_, fun f hf => ?_, hr.distinct, fun f hf g hmem heq => ?_⟩
  · rcases step_deed hg hstep with ⟨n, rfl, rfl⟩ | ⟨t, r, hact', hd, rfl⟩
    · cases hact
    · obtain rfl := Option.some.inj (hact'.symm.trans hact)
      rcases deed_logged hg hd with ⟨_, hsame⟩ | ⟨_, k, hrestart, _⟩
      · exact absurd (hsame rfl) hne
      · exact ⟨_, hrestart.logged, rfl, hrestart.next⟩
  · have hon := hr.each f hf
    exact ⟨hon.failed, hon.started, hon.older⟩
  · obtain ⟨p, hp, hcpu⟩ := (hr.each f hf).started
    obtain ⟨q, hq, hgpu⟩ := (hr.each g hmem).failed
    rw [heq, hq] at hp
    cases hp
    rw [hcpu] at hgpu
    cases hgpu

/-- A model that runs on the GPU, fails there and is started on the CPU. -/
def gpuFails : List Act :=
  boots ++ [.poll { answers := some (some .gpu) } {}, .exit 1, .poll {} {}]

theorem poll_child_starts_once_fails :
    ∃ s, appMachine.run (coldStart shelf (some 2)) gpuFails = some s ∧ s.app.fallbacks ≠ [] ∧
    (∀ act s', act.thread = some .monitor → s.step act = some s' →
      s'.app.child.generation ≠ s.app.child.generation →
      ∃ f, s'.app.fallbacks = f :: s.app.fallbacks ∧ f.started = s'.app.child.generation ∧
        s'.app.child.generation = s.app.child.generation + 1) ∧
    (∀ f ∈ s.app.fallbacks,
      (∃ p, s.app.child.procs f.failed = some p ∧ p.processor = .gpu) ∧
      (∃ p, s.app.child.procs f.started = some p ∧ p.processor = .cpu) ∧
      f.load ≤ f.failed) ∧
    s.app.fallbacks.Pairwise (fun f g => f.failed ≠ g.failed) ∧
    ∀ f ∈ s.app.fallbacks, ∀ g ∈ s.app.fallbacks, f.started ≠ g.failed := by
  obtain ⟨s, hrun, hreach⟩ := cold_runs Watched
    (fun s _ hw _ _ _ wait k hpc => absurd hpc (noWait_ne hw .monitor wait k)) shelf (some 2)
    gpuFails (by decide +kernel)
  have hsome : ((appMachine.run (coldStart shelf (some 2)) gpuFails).any
      fun s => decide (s.app.fallbacks ≠ [])) = true := by decide +kernel
  rw [hrun] at hsome
  exact ⟨s, hrun, of_decide_eq_true hsome, poll_child_starts_once hreach⟩

/-- The steps that a user takes. -/
def asks : Act → Bool
  | .startup .. | .accept _ | .handle .. => true
  | _ => false

/-- A request that a model on the GPU is working on. -/
def gpuAnswers : List Act :=
  boots ++ [.poll { answers := some (some .gpu) } {}, .accept 0, .handle 0 (.generate true) {},
    .connect (.worker 0) true ⟨0, false, false⟩]

/-- The process fails, and the request with it. -/
def failsUnderRequest : List Act :=
  [.exit 1, .answer (.worker 0) ⟨502, false, false⟩, .observed (.worker 0) {},
    .conclude (.worker 0) {}]

/-- A process that fails on the GPU is started again on the GPU, by the request that
it has failed under. -/
theorem failure_restarts_on_gpu : ∃ s s', appMachine.Reach Machine.free s ∧
    (∃ p, s.app.child.procs 1 = some p ∧ p.processor = .gpu ∧ p.life = .running) ∧
    s.app.child.generation = 1 ∧ (∀ a ∈ failsUnderRequest, asks a = false) ∧
    appMachine.run s failsUnderRequest = some s' ∧ s'.app.child.generation = 2 ∧
    ∃ p, s'.app.child.procs 2 = some p ∧ p.processor = .gpu := by
  obtain ⟨s, hreach, hs⟩ := cold_reaches shelf (some 2) gpuAnswers
    (fun s => decide (s.app.child.generation = 1) &&
      (s.app.child.procs 1).any
        (fun p : Process => decide (p.processor = .gpu ∧ p.life = .running)) &&
      (appMachine.run s failsUnderRequest).any fun s' : Sys =>
        decide (s'.app.child.generation = 2) &&
        (s'.app.child.procs 2).any fun p : Process => decide (p.processor = .gpu))
    (by decide +kernel)
  simp only [Bool.and_eq_true] at hs
  obtain ⟨⟨hgen, hproc⟩, hruns⟩ := hs
  obtain ⟨p, hp, hgpu⟩ := (Option.any_eq_true _ _).mp hproc
  obtain ⟨s', hrun, hend⟩ := (Option.any_eq_true _ _).mp hruns
  rw [Bool.and_eq_true] at hend
  obtain ⟨q, hq, hgpu'⟩ := (Option.any_eq_true _ _).mp hend.2
  exact ⟨s, s', hreach, ⟨p, hp, of_decide_eq_true hgpu⟩, of_decide_eq_true hgen, by decide, hrun,
    of_decide_eq_true hend.1, q, hq, of_decide_eq_true hgpu'⟩

end GeistServe.Proofs
