import GeistServe.Proofs.Admission

/-!
# The selection and the switches that fail

A model switch keeps the selection that it has found until its job starts the new
process; `save_selection` follows that start at once, and not the moment at which
the process becomes ready. `Returning` says that the selection is the earlier one
for as long as the job has not started its process. Whatever ends a switch later
leaves the new model selected; `InTime` is the condition that nothing does.
-/

namespace GeistServe.Proofs

open GeistServe.Lib GeistServe.Supervisor

/-- The process that the monitor stops. -/
def about : Cont → Option Nat
  | .loadCancelled k _ | .timedOut k | .mismatch k => some k
  | _ => none

/-- The process whose load the monitor has to do with: the one it is stopping, or
the one that is not ready yet. -/
def loads (s : Sys) : Option Nat :=
  match s.pc .monitor with
  | .waiting _ k => about k
  | _ => if s.app.child.ready then none else s.app.child.pid

/-- What keeps a switch from being lost too late: by the end of the section in which
its job starts the process there is neither a cancellation nor a quit, the monitor
does not give up the load of a switch, and no process is started while a removal
waits. -/
def InTime (s : Sys) (act : Act) : Prop :=
  ∀ s', s.step act = some s' →
    (act.thread = some .job → s'.app.child.generation ≠ s.app.child.generation →
      s'.app.cancelled.isSet = false ∧ s'.app.closing = false) ∧
    (act.thread = some .monitor → s'.app.child.pid = none → ∀ k p, loads s = some k →
      s.app.child.procs k = some p → p.switch = none) ∧
    (s'.app.child.generation ≠ s.app.child.generation → ∀ t wait m unlinks saves,
      s.pc t ≠ .waiting wait (.removeRoute m unlinks saves))

/-! ## What a step does to the selection -/

/-- The ends of the switches, the selection and the job. -/
def switching (s : AppState) : List (Option Nat × Option Nat) × Option Nat × Job :=
  (s.ended, s.selection, s.job)

theorem switching_eq {s s' : AppState} (hended : s'.ended = s.ended)
    (hsel : s'.selection = s.selection) (hjob : s'.job = s.job) : switching s' = switching s := by
  unfold switching
  rw [hended, hsel, hjob]

theorem jobDone_ended (s : AppState) (ok : Bool) (w : World) :
    (s.jobDone ok w).ended = s.ended ∨
      (s.jobDone ok w).ended = s.job.switch.toList.map (·, s.selection) ++ s.ended := by
  unfold AppState.jobDone
  simp only
  split <;> split <;> split <;> (try split) <;> first
    | exact .inl rfl
    | exact .inr rfl

theorem jobDone_running (s : AppState) (ok : Bool) (w : World) :
    (s.jobDone ok w).job.running = false := by
  unfold AppState.jobDone
  simp only

theorem jobDone_cancelled (s : AppState) (ok : Bool) (w : World) :
    (s.jobDone ok w).cancelled =
      if w.strikes ∧ s.cancelled = .clear then .set none else s.cancelled := by
  unfold AppState.jobDone
  simp only
  split <;> split <;> split <;> (try split) <;> rfl

/-- A job that has started its process, with no cancellation and no quit in the way,
ends no switch. -/
theorem jobDone_started {s : AppState} {w : World} (hpid : s.child.pid ≠ none)
    (hclear : (s.jobDone true w).cancelled.isSet = false)
    (hclosing : (s.jobDone true w).closing = false) : (s.jobDone true w).ended = s.ended := by
  have hsome : s.child.pid.isNone = false := by
    cases hp : s.child.pid with
    | none => exact absurd hp hpid
    | some k => rfl
  have hrest := jobDone_rest s true w
  have hclosed : s.closing = false := (congrArg AppState.closing hrest :).symm.trans hclosing
  rw [jobDone_cancelled] at hclear
  have hstrikes : ¬ (w.strikes = true ∧ s.cancelled = .clear) := fun h => by
    rw [if_pos h] at hclear
    cases hclear
  rw [if_neg hstrikes] at hclear
  unfold AppState.jobDone
  simp only [if_neg hstrikes, hclear, hclosed, hsome, Bool.or_self, Bool.and_false, Bool.not_true,
    Bool.false_eq_true, if_false]
  split <;> (try split) <;> rfl

/-- How a section turns a switch. -/
inductive Turn (s : Sys) (t : Thread) (r : AppState × Pc) : Prop where
  | same (h : switching r.1 = switching s.app)
  | begun (hidle : s.app.job.running = false) (hended : r.1.ended = s.app.ended)
      (hnew : r.1.job.running = true → ∀ e, r.1.job.switch = some e → r.1.selection = e ∧
        s.app.child.pid ≠ none ∧ s.app.child.stopping = false)
  | removed (hended : r.1.ended = s.app.ended) (hjob : r.1.job = s.app.job)
      (hat : s.app.job.running = false ∨ ∃ wait m unlinks saves,
        s.pc t = .waiting wait (.removeRoute m unlinks saves))
  | gaveUp {k : Nat} {switch : Option (Option Nat)} (ht : t = .monitor)
      (hpid : r.1.child.pid = none)
      (hended : r.1.ended = switch.toList.map (·, s.app.selection) ++ s.app.ended)
      (hsel : r.1.selection = s.app.selection) (hjob : r.1.job = s.app.job)
      (hswitch : switch = none ∨
        loads s = some k ∧ switch = (s.app.child.procs k).bind (·.switch))
  | done (ht : t = .job) (hat : s.pc .job ≠ .idle) (hsel : r.1.selection = s.app.selection)
      (hrun : r.1.job.running = false)
      (hended : r.1.ended = s.app.ended ∨
        r.1.ended = s.app.job.switch.toList.map (·, s.app.selection) ++ s.app.ended)
  | started (ht : t = .job) (hgen : r.1.child.generation ≠ s.app.child.generation)
      (hrun : r.1.job.running = false)
      (hended : r.1.cancelled.isSet = false → r.1.closing = false → r.1.ended = s.app.ended)

theorem beginJob_turn {s : Sys} {t : Thread} {pc : Pc} {s₁ : AppState} {m : Model}
    {download activate thread : Bool} (hidle : s.app.job.running = false)
    (hsame : s₁.job = s.app.job ∧ s₁.ended = s.app.ended ∧ s₁.child = s.app.child)
    (hstopping : activate = true → s.app.child.pid.isSome = true → s.app.child.stopping = false) :
    Turn s t (beginJob s₁ m download activate thread, pc) := by
  obtain ⟨hjob, hended, hchild⟩ := hsame
  have hrest := beginJob_rest s₁ m download activate thread
  have hsel : (beginJob s₁ m download activate thread).selection = s₁.selection :=
    (congrArg AppState.selection hrest :)
  refine .begun hidle ((congrArg AppState.ended hrest :).trans hended) fun hrun e he => ?_
  rcases beginJob_job s₁ m download activate thread with heq | ⟨op, heq⟩
  · simp only [heq, hjob, hidle] at hrun
    cases hrun
  · simp only [heq] at he
    split at he
    · next hactive =>
        rw [hchild] at hactive
        refine ⟨hsel.trans (Option.some.inj he), Option.isSome_iff_ne_none.mp hactive.2,
          hstopping hactive.1 hactive.2⟩
    · cases he

theorem plain_turn {s : Sys} {t : Thread} {w : World} {r : AppState × Pc}
    (h : Supervisor.Plain s.app t w r) : Turn s t r := by
  cases h with
  | @removed m unlinks hstopping hq =>
      have hrest := removed_rest s.app m unlinks w.saves
      exact .removed (congrArg AppState.ended hrest :) (congrArg AppState.job hrest :)
        (.inl hq.job)
  | background hstopping hcompare hjob =>
      exact beginJob_turn hjob ⟨rfl, rfl, rfl⟩ fun hf => by cases hf
  | switch hstopping hq hpid =>
      exact beginJob_turn hq.job ⟨rfl, rfl, rfl⟩ fun _ _ => hstopping
  | @select m download thread hstopping hq hpid =>
      exact beginJob_turn hq.job ⟨rfl, rfl, rfl⟩
        fun _ _ => hstopping
  | _ => exact .same rfl

/-- A section that starts and stops at most, and gives up no load. -/
theorem Carries.turn {s : Sys} {t : Thread} {r : AppState × Pc} (h : Carries s.app r.1)
    (hended : r.1.ended = s.app.ended) : Turn s t r :=
  .same (switching_eq hended (congrArg Policy.selection h.policy) (congrArg Policy.job h.policy))

theorem Failed.turn {s : Sys} {t : Thread} {s' : AppState} {pc : Pc} {k n : Nat}
    {switch : Option (Option Nat)} (h : Failed s.app n switch s') (ht : t = .monitor)
    (hswitch : switch = none ∨
      loads s = some k ∧ switch = (s.app.child.procs k).bind (·.switch)) :
    Turn s t (s', pc) := by
  rcases h.cases with ⟨_, hpid, _, hended⟩ | ⟨_, _, _, hended, _⟩
  · exact .gaveUp ht hpid hended (congrArg Policy.selection h.policy)
      (congrArg Policy.job h.policy) hswitch
  · exact Carries.turn h.toCarries hended

theorem Turn.roundEnd {s : Sys} {t : Thread} {r : AppState × Pc} {w : World}
    (h : Turn s t r) : Turn s t (roundEnd t r w) := by
  unfold Supervisor.roundEnd
  split
  · cases h with
    | same h => exact .same h
    | begun hidle hended hnew => exact .begun hidle hended hnew
    | removed hended hjob hat => exact .removed hended hjob hat
    | gaveUp ht hpid hended hsel hjob hswitch => exact .gaveUp ht hpid hended hsel hjob hswitch
    | done ht hat hsel hrun hended => exact .done ht hat hsel hrun hended
    | started ht hgen hrun hended => exact .started ht hgen hrun hended
  · exact h

theorem afterStart_turn {s : Sys} {t : Thread} {c : Caller} {q : Start} {s₁ : AppState} {ok : Bool}
    {w : World} (hstart : Started s.app q s₁ ok) (hat : s.pc t ≠ .idle) (ht : c = .job ↔ t = .job) :
    Turn s t (afterStart c s₁ ok w) := by
  have hended : s₁.ended = s.app.ended := congrArg (·.1) hstart.logs
  have hsel : s₁.selection = s.app.selection := congrArg Policy.selection hstart.policy
  have hjob : s₁.job = s.app.job := congrArg Policy.job hstart.policy
  have hfirst {pc : Pc} {save : Bool} : Turn s t ({ s₁ with save := save }, pc) :=
    .same (switching_eq hended hsel hjob)
  cases c with
  | boot => exact Carries.turn hstart.toCarries hended
  | slot n => exact hfirst
  | restore d => exact hfirst
  | execution path id =>
      cases ok with
      | true => exact Carries.turn hstart.toCarries hended
      | false =>
          have hagain := startIdle_started hstart.owned (hstart.fails rfl).1 path id .cpu none
            w.again w.engine
          exact Carries.turn (hstart.toCarries.trans hagain.toCarries)
            ((congrArg (·.1) hagain.logs).trans hended)
  | job =>
      have ht : t = .job := ht.mp rfl
      obtain ⟨s₂, heq, hfollow⟩ := afterStart_job s₁ ok w
      have hrest := jobDone_rest s₂ true w
      have hended₂ : s₂.ended = s₁.ended := (congrArg AppState.ended hfollow.rest :)
      have hchild₂ : s₂.child = s₁.child := (congrArg AppState.child hfollow.rest :)
      rw [heq]
      cases ok with
      | true =>
          -- The selection follows the start at once.
          have hspawn := hstart.starts rfl
          refine .started ht ?_ (jobDone_running s₂ true w) fun hclear hclosing => ?_
          · rw [jobDone_child, hchild₂, hspawn.generation]
            exact Nat.succ_ne_self _
          · refine (jobDone_started ?_ hclear hclosing).trans (hended₂.trans hended)
            rw [hchild₂, hspawn.pid]
            exact fun hf => by cases hf
      | false =>
          have hsel₂ : s₂.selection = s.app.selection := (hfollow.selection rfl).trans hsel
          have hswitch : s₂.job.switch = s.app.job.switch := by rw [hfollow.job, hjob]
          refine .done ht (ht ▸ hat) ?_ (jobDone_running s₂ true w) ?_
          · exact (congrArg AppState.selection hrest :).trans hsel₂
          · rw [← hended, ← hended₂, ← hswitch, ← hsel₂]
            exact jobDone_ended s₂ true w

theorem afterStop_turn {s : Sys} {t : Thread} {k : Cont} {s₀ : AppState} {ch : Child} {w : World}
    (hc : Carries s.app s₀) (hended : s₀.ended = s.app.ended) (hstop : Stops s₀.child ch)
    (hstart : starting k = false) (hw : Waiter k t)
    (hloads : ∀ p, about k = some p → loads s = some p ∧ ∃ q, s.app.child.procs p = some q)
    (hremoves : ∀ m unlinks saves, k = .removeRoute m unlinks saves →
      s.app.job.running = false ∨ ∃ wait, s.pc t = .waiting wait k) :
    Turn s t (afterStop k (s₀.own ch) w) := by
  have hown : Carries s.app (s₀.own ch) := hc.trans (own_carries hstop.toMoved)
  have hsel : s₀.selection = s.app.selection := congrArg Policy.selection hown.policy
  have hjob : s₀.job = s.app.job := congrArg Policy.job hown.policy
  have hkin : Kin s.app.child ch := hown.child.toKin
  have hswitch {p : Nat} (h : loads s = some p ∧ ∃ q, s.app.child.procs p = some q) :
      loads s = some p ∧
        (ch.procs p).bind (·.switch) = (s.app.child.procs p).bind (·.switch) := by
    obtain ⟨hl, q, hq⟩ := h
    exact ⟨hl, failedSwitch_kin hkin hq true⟩
  cases k with
  | start | refused => cases hstart
  | loadCancelled p cause =>
      refine .gaveUp hw hstop.pid ?_ hsel hjob
        (.inr (hswitch (hloads p rfl)))
      rw [← hsel, ← hended]
      rfl
  | mismatch p =>
      refine .gaveUp hw hstop.pid ?_ hsel hjob
        (.inr (hswitch (hloads p rfl)))
      rw [← hsel, ← hended]
      rfl
  | timedOut p =>
      have hfail := childFailed_failed (s := s₀.own ch) hstop.owned hstop.pid p true w
      obtain ⟨hl, heq⟩ := hswitch (hloads p rfl)
      rcases hfail.cases with ⟨_, hpid, _, hends⟩ | ⟨_, _, _, hends, _⟩
      · refine .gaveUp hw hpid (hends.trans ?_) ((congrArg Policy.selection hfail.policy).trans hsel)
          ((congrArg Policy.job hfail.policy).trans hjob) (.inr ⟨hl, heq⟩)
        show _ ++ s₀.ended = _
        rw [hended, ← hsel]
        rfl
      · exact Carries.turn (hown.trans hfail.toCarries) (hends.trans hended)
  | observation o a path id mode =>
      have hend {s' : AppState} (hcarries : Carries s.app s') (hended : s'.ended = s.app.ended) :
          switching { s' with generating := false } = switching s.app :=
        switching_eq hended
          (congrArg Policy.selection hcarries.policy) (congrArg Policy.job hcarries.policy)
      refine .same ?_
      simp only [afterStop, afterObservation_fst]
      split
      · have hs := startIdle_started (s := s₀.own ch) hstop.owned hstop.pid path id mode none
          w.fault w.engine
        exact hend (hown.trans hs.toCarries) ((congrArg (·.1) hs.logs).trans hended)
      · exact hend (hown.trans (endLoad_carries _ _)) hended
  | removeRoute m unlinks saves =>
      have hrest := removed_rest (s₀.own ch) m unlinks saves
      refine .removed ((congrArg AppState.ended hrest :).trans hended)
        ((congrArg AppState.job hrest :).trans hjob) ?_
      rcases hremoves m unlinks saves rfl with hidle | ⟨wait, hpc⟩
      · exact .inl hidle
      · exact .inr ⟨wait, m, unlinks, saves, hpc⟩
  | stopRoute => exact .same (switching_eq hended hsel hjob)
  | exit => exact Carries.turn hown hended

/-- The process that the monitor is stopping is one that was started. -/
def Known (s : Sys) : Prop :=
  ∀ wait k p, s.pc .monitor = .waiting wait k → about k = some p →
    ∃ q, s.app.child.procs p = some q

theorem calls_about {s : Sys} {t : Thread} {k : Cont} {cause : Option Nat} {s₀ : AppState}
    (hcall : Calls s t k cause s₀) {p : Nat} (hp : about k = some p) :
    t = .monitor ∧ s.pc .monitor = .idle ∧ s.app.child.pid = some p ∧
      s.app.child.ready = false ∧ s.app.child.stopping = false := by
  cases hcall with
  | cancelled hpc hpid hstopping hready | timedOut hpc hpid hstopping hready
  | mismatch hpc hpid hstopping hready =>
      cases hp
      exact ⟨rfl, hpc, hpid, hready, hstopping⟩
  | stopRoute | removeRoute | observation | exit => cases hp

theorem step_known {s s' : Sys} {act : Act} (hg : Grounded s) (hstep : s.step act = some s')
    (h : Known s) : Known s' := by
  intro wait k p hpc hp
  rcases step_deed hg hstep with ⟨n, rfl, rfl⟩ | ⟨t, r, _, hd, rfl⟩
  · obtain ⟨q, hq⟩ := h wait k p hpc hp
    obtain ⟨q', hq', _⟩ := (exit_moved s.app.child n).procs hq
    exact ⟨q', hq'⟩
  · have hkin := (deed_moved hg hd).toKin
    have hstays {q : Process} (hq : s.app.child.procs p = some q) :
        ∃ q, r.1.child.procs p = some q := by
      obtain ⟨q', hq', _⟩ := hkin.procs hq
      exact ⟨q', hq'⟩
    by_cases ht : t = .monitor
    · subst ht
      rw [put_pc_same] at hpc
      rcases deed_waits hd hpc with ⟨c, q, hs, _⟩ | ⟨cause, s₀, hcall, _⟩ | ⟨wait₀, hpc₀, _⟩
      · cases hs
      · obtain ⟨_, _, hpid, _⟩ := calls_about hcall hp
        obtain ⟨q, hq, _⟩ := hg.owned.alive hpid
        exact hstays hq
      · obtain ⟨q, hq⟩ := h wait₀ k p hpc₀ hp
        exact hstays hq
    · rw [put_pc_ne s r (Ne.symm ht)] at hpc
      obtain ⟨q, hq⟩ := h wait k p hpc hp
      exact hstays hq

theorem initial_known {s : Sys} (h : s.Initial) : Known s := by
  intro wait k p hpc
  rw [h.others .monitor fun hf => by cases hf] at hpc
  cases hpc

theorem deed_turn {s : Sys} {t : Thread} {r : AppState × Pc} (hg : Grounded s) (hk : Known s)
    (hd : Deed s t r) : Turn s t r := by
  have hplaced {t : Thread} {pc : Pc} (hpc : s.pc t = pc) : Placed t pc := hpc ▸ hg.placed t
  have hround {s' : AppState} {reads : Bool} (h : switching s' = switching s.app) :
      switching (s'.sample reads) = switching s.app := h
  cases hd with
  | bootJob hpc =>
      have hinit := hg.fresh hpc
      refine beginJob_turn (congrArg Job.running hinit.job) ⟨rfl, rfl, rfl⟩ fun _ hpid => ?_
      rw [hinit.pid] at hpid
      cases hpid
  | startWaits hs hk hc hlogs hprep hrev => exact Carries.turn hc (congrArg (·.1) hlogs)
  | startDone hs hstart =>
      rcases hs with hs | ⟨wait, k, hpc, hk, _⟩
      · obtain ⟨hat, _, hjob⟩ := starts_at hs
        exact afterStart_turn hstart hat hjob
      · obtain ⟨hat, _, hjob⟩ := startCont_at (hg.placed t) hpc hk
        exact afterStart_turn hstart hat hjob
  | callWaits hcall hrev =>
      refine Carries.turn (hcall.carries.trans (own_carries hrev.toMoved)) ?_
      cases hcall <;> rfl
  | @stopped _ k s₀ ch w hcall hc hstop =>
      refine Turn.roundEnd ?_
      rcases hcall with ⟨cause, hcall⟩ | ⟨⟨wait, hpc⟩, hstart, rfl⟩
      · refine afterStop_turn hc (by cases hcall <;> rfl) hstop (calls_at hcall).2.1
          (calls_waiter hg.placed hcall) (fun p hp => ?_) fun m unlinks saves heq => ?_
        · obtain ⟨_, hidle, hpid, hready, _⟩ := calls_about hcall hp
          obtain ⟨q, hq, _⟩ := hg.owned.alive hpid
          refine ⟨?_, q, hq⟩
          unfold loads
          rw [hidle]
          simp only [hready, Bool.false_eq_true, if_false, hpid]
        · subst heq
          cases hcall with
          | removeRoute _ _ hq => exact .inl hq.job
      · refine afterStop_turn hc rfl hstop hstart (hplaced hpc) (fun p hp => ?_)
          fun m unlinks saves _ => .inr ⟨wait, hpc⟩
        have hmonitor : t = .monitor := by
          have hw : Waiter k t := hplaced hpc
          cases k with
          | loadCancelled | timedOut | mismatch => exact hw
          | start | refused | observation | stopRoute | removeRoute | exit => cases hp
        subst hmonitor
        refine ⟨?_, hk wait k p hpc hp⟩
        unfold loads
        rw [hpc]
        exact hp
  | request hpc hr => exact plain_turn hr
  | @pollEnded k switch s₁ reads hpc hpid hstopping hflag hswitch hfail =>
      have hgave : switch = none ∨
          loads s = some k ∧ switch = (s.app.child.procs k).bind (·.switch) := by
        rw [hswitch]
        unfold failedSwitch loads
        rw [hpc]
        cases s.app.child.ready with
        | true => exact .inl rfl
        | false => exact .inr ⟨hpid, rfl⟩
      have hturn : Turn s .monitor (s₁, .idle) := hfail.turn rfl hgave
      have := Turn.roundEnd (w := { samples := reads }) hturn
      rw [roundEnd_idle] at this
      exact this
  | @jobDone ok w hpc hwhy =>
      have hrest := jobDone_rest s.app ok w
      exact .done rfl (by rw [hpc]; exact fun hf => by cases hf)
        (congrArg AppState.selection hrest :) (jobDone_running _ _ _) (jobDone_ended _ _ _)
  | answer hpc hr =>
      refine .same (switching_eq ?_ (congrArg Policy.selection (answers_flags hr))
        (congrArg Policy.job (answers_flags hr)))
      unfold answers at hr
      split at hr
      · split at hr <;> cases hr
        rfl
      · cases hr
        simp only
        split <;> rfl
  | @observed _ w o a hpc =>
      have hrest := observationEnd_rest s.app t a w
      exact .same (switching_eq (congrArg AppState.ended hrest :)
        (congrArg AppState.selection hrest :) (congrArg AppState.job hrest :))
  | concluded hpc =>
      refine .same ?_
      rw [afterObservation_fst]
      exact switching_eq rfl rfl rfl
  | compare hr =>
      generalize s.pc .comparison = pc at hr
      cases hr <;> exact .same rfl
  | bootNothing | wakeWaits | accept | pollNothing | pollPublished | monitorEnd | jobStart
  | connect | drain => exact .same rfl

/-! ## Every run -/

/-- The selection is the earlier one while a switch is on its way to its start, and
nothing gets at it behind a removal that waits. -/
structure Returning (s : Sys) : Prop where
  kept : ∀ x ∈ s.app.ended, x.2 = x.1
  job : s.app.job.running = true → ∀ e, s.app.job.switch = some e → s.app.selection = e
  removal : ∀ {t wait m unlinks saves}, s.pc t = .waiting wait (.removeRoute m unlinks saves) →
    (s.app.child.pid = none ∨ s.app.child.stopping = true ∧ s.app.child.ready = false) ∧
      (s.app.job.running = true → s.app.job.switch = none)

theorem turn_returning {s : Sys} {t : Thread} {r : AppState × Pc} (he : Exclusive s)
    (h : Returning s) (hturn : Turn s t r)
    (hjob : t = .job → r.1.child.generation ≠ s.app.child.generation →
      r.1.cancelled.isSet = false ∧ r.1.closing = false)
    (hmonitor : t = .monitor → r.1.child.pid = none → ∀ k p, loads s = some k →
      s.app.child.procs k = some p → p.switch = none) :
    (∀ x ∈ r.1.ended, x.2 = x.1) ∧
      (r.1.job.running = true → ∀ e, r.1.job.switch = some e → r.1.selection = e) := by
  have hadds {l : List (Option Nat × Option Nat)} {switch : Option (Option Nat)} {sel : Option Nat}
      (hl : ∀ x ∈ l, x.2 = x.1) (hswitch : ∀ e, switch = some e → sel = e) :
      ∀ x ∈ switch.toList.map (·, sel) ++ l, x.2 = x.1 := by
    intro x hx
    rw [List.mem_append, List.mem_map] at hx
    rcases hx with ⟨e, hmem, rfl⟩ | hx
    · exact hswitch e (Option.mem_toList.mp hmem)
    · exact hl x hx
  cases hturn with
  | same heq =>
      unfold switching at heq
      injection heq with hended hrest
      injection hrest with hsel hj
      rw [hended, hsel, hj]
      exact ⟨h.kept, h.job⟩
  | begun hidle hended hnew =>
      rw [hended]
      exact ⟨h.kept, fun hrun e hsw => (hnew hrun e hsw).1⟩
  | removed hended hj hat =>
      rw [hended, hj]
      refine ⟨h.kept, fun hrun e hsw => ?_⟩
      rcases hat with hidle | ⟨wait, m, unlinks, saves, hpc⟩
      · rw [hidle] at hrun
        cases hrun
      · rw [(h.removal hpc).2 hrun] at hsw
        cases hsw
  | gaveUp ht hpid hended hsel hj hswitch =>
      rw [hended, hsel, hj]
      refine ⟨hadds h.kept fun e hsw => ?_, h.job⟩
      rcases hswitch with rfl | ⟨hl, rfl⟩
      · cases hsw
      · obtain ⟨p, hp, hsome⟩ := Option.bind_eq_some_iff.mp hsw
        rw [hmonitor ht hpid _ p hl hp] at hsome
        cases hsome
  | done ht hat hsel hrun hended =>
      refine ⟨?_, fun hrun' => by rw [hrun] at hrun'; cases hrun'⟩
      rcases hended with heq | heq
      · rw [heq]
        exact h.kept
      · rw [heq]
        exact hadds h.kept (h.job (he.working hat))
  | started ht hgen hrun hended =>
      obtain ⟨hclear, hclosing⟩ := hjob ht hgen
      rw [hended hclear hclosing]
      exact ⟨h.kept, fun hrun' => by rw [hrun] at hrun'; cases hrun'⟩

/-- A job that is begun behind a removal that waits is no switch. -/
theorem turn_removal {s : Sys} {t : Thread} {r : AppState × Pc} (hturn : Turn s t r)
    (hstop : s.app.child.pid = none ∨ s.app.child.stopping = true)
    (hold : s.app.job.running = true → s.app.job.switch = none) :
    r.1.job.running = true → r.1.job.switch = none := by
  intro hrun
  cases hturn with
  | same heq =>
      unfold switching at heq
      injection heq with _ hrest
      injection hrest with _ hj
      rw [hj] at hrun ⊢
      exact hold hrun
  | begun hidle hended hnew =>
      cases hsw : r.1.job.switch with
      | none => rfl
      | some e =>
          obtain ⟨_, hpid, hstopping⟩ := hnew hrun e hsw
          rcases hstop with hnone | hstop
          · exact absurd hnone hpid
          · rw [hstop] at hstopping
            cases hstopping
  | removed _ hj =>
      rw [hj] at hrun ⊢
      exact hold hrun
  | gaveUp _ _ _ _ hj =>
      rw [hj] at hrun ⊢
      exact hold hrun
  | done _ _ _ hidle | started _ _ hidle =>
      rw [hidle] at hrun
      cases hrun

theorem step_returning {s s' : Sys} {act : Act} (hg : Grounded s) (he : Exclusive s) (hk : Known s)
    (h : Returning s) (hok : InTime s act) (hstep : s.step act = some s') : Returning s' := by
  obtain ⟨hjob, hmonitor, hremoval⟩ := hok s' hstep
  rcases step_deed hg hstep with ⟨n, rfl, rfl⟩ | ⟨t, r, hact, hd, rfl⟩
  · have hchild : (s.app.child.exit n).pid = s.app.child.pid ∧
        (s.app.child.exit n).stopping = s.app.child.stopping ∧
        (s.app.child.exit n).ready = s.app.child.ready := by
      unfold Child.exit
      split <;> exact ⟨rfl, rfl, rfl⟩
    obtain ⟨hpid, hstopping, hready⟩ := hchild
    refine ⟨h.kept, h.job, fun hpc => ?_⟩
    obtain ⟨hstop, hsw⟩ := h.removal hpc
    refine ⟨hstop.imp hpid.trans fun hboth => ?_, hsw⟩
    exact ⟨hstopping.trans hboth.1, hready.trans hboth.2⟩
  · have hturn := deed_turn hg hk hd
    obtain ⟨hkept, hjob'⟩ := turn_returning he h hturn
      (fun ht => hjob (hact.trans (congrArg some ht)))
      fun ht => hmonitor (hact.trans (congrArg some ht))
    refine ⟨hkept, hjob', fun {t' wait m unlinks saves} hpc => ?_⟩
    -- The removal waited before, or has just begun to wait.
    by_cases ht : t' = t
    · subst ht
      rw [put_pc_same] at hpc
      rcases deed_waits hd hpc with ⟨c, q, _, hcont, _⟩ | ⟨cause, s₀, hcall, hrev, heq⟩ |
        ⟨wait₀, hpc₀, _, _, heq⟩
      · cases hcont
      · cases hcall with
        | removeRoute hpc hstopping hq =>
            refine ⟨.inr ⟨hrev.stopped, hrev.unready⟩, fun hrun => ?_⟩
            rw [put_app, heq] at hrun
            have hidle : s.app.job.running = false := hq.job
            have hrun : s.app.job.running = true := hrun
            rw [hidle] at hrun
            cases hrun
      · rw [put_app, heq]
        exact h.removal hpc₀
    · rw [put_pc_ne s r ht] at hpc
      obtain ⟨hstop, hsw⟩ := h.removal hpc
      have hgen : r.1.child.generation = s.app.child.generation := by
        by_contra hne
        exact hremoval hne t' wait m unlinks saves hpc
      have hstill := (deed_moved hg hd).still hgen
      refine ⟨?_, turn_removal hturn (hstop.imp id And.left) hsw⟩
      rcases hstill.pid with hsame | hnone
      · rcases hstop with hnone | ⟨hstopping, hready⟩
        · exact .inl (hsame.trans hnone)
        · by_cases hp : s.app.child.pid = none
          · exact .inl (hsame.trans hp)
          · exact .inr (hstill.stopping hsame hp hstopping hready)
      · exact .inl hnone

theorem initial_returning {s : Sys} (h : s.Initial) : Returning s := by
  refine ⟨fun x hx => ?_, fun hrun => ?_, fun {t wait m unlinks saves} hpc => ?_⟩
  · rw [h.ended] at hx
    cases hx
  · rw [h.job] at hrun
    cases hrun
  · by_cases ht : t = .main
    · rw [ht, h.main] at hpc
      cases hpc
    · rw [h.others t ht] at hpc
      cases hpc

theorem reach_returning {s : Sys} (h : appMachine.Reach InTime s) :
    Grounded s ∧ Exclusive s ∧ Known s ∧ Returning s := by
  refine h.invariant (I := fun s => Grounded s ∧ Exclusive s ∧ Known s ∧ Returning s)
    (fun s hs => ?_) fun s act s' _ hok hstep hI => ?_
  · exact ⟨initial_grounded (s := s) hs, initial_exclusive hs, initial_known hs,
      initial_returning hs⟩
  · obtain ⟨hg, he, hk, hr⟩ := hI
    exact ⟨step_grounded hg hstep, step_exclusive hg he hstep, step_known hg hstep hk,
      step_returning hg he hk hr hok hstep⟩

/-- In every run in which the start of a switch is neither cancelled nor caught by a
quit, the monitor does not give up the load of a switch, and no process is started
while a removal waits: a switch that ends failed or cancelled leaves the selection
that it has found. -/
theorem failed_switch_keeps_selection {s : Sys} (h : appMachine.Reach InTime s) :
    ∀ x ∈ s.app.ended, x.2 = x.1 :=
  (reach_returning h).2.2.2.kept

def inTime (s : Sys) (act : Act) : Bool :=
  noWait s && (s.step act).all fun s' =>
    decide (act.thread = some .job → s'.app.child.generation ≠ s.app.child.generation →
      s'.app.cancelled.isSet = false ∧ s'.app.closing = false) &&
    decide (act.thread = some .monitor → s'.app.child.pid ≠ none)

theorem inTime_holds {s : Sys} {act : Act} (h : inTime s act = true) : InTime s act := by
  unfold inTime at h
  rw [Bool.and_eq_true] at h
  intro s' hs'
  have hall := (Option.all_eq_true _ _).mp h.2 s' hs'
  rw [Bool.and_eq_true] at hall
  refine ⟨of_decide_eq_true hall.1, fun ht hpid => ?_, fun _ t wait m unlinks saves => ?_⟩
  · exact absurd hpid (of_decide_eq_true hall.2 ht)
  · exact noWait_ne h.1 t wait _

/-- A switch whose model cannot be verified. -/
def switchUnverified : List Act :=
  boots ++ [.poll { answers := some (some .cpu) } {}] ++ selects 0 3 ++ [.jobEnd false {}]

theorem failed_switch_keeps_selection_unverified :
    ∃ s, appMachine.run (coldStart shelf (some 1)) switchUnverified = some s ∧
      s.app.ended ≠ [] ∧ ∀ x ∈ s.app.ended, x.2 = x.1 := by
  obtain ⟨s, hrun, hreach⟩ := Machine.checks_reach (M := appMachine) (p := inTime)
    (fun _ _ => inTime_holds) switchUnverified (.init (coldStart_initial shelf (some 1)))
    (by decide +kernel)
  have hsome : ((appMachine.run (coldStart shelf (some 1)) switchUnverified).any
      fun s => decide (s.app.ended ≠ [])) = true := by decide +kernel
  rw [hrun] at hsome
  exact ⟨s, hrun, of_decide_eq_true hsome, failed_switch_keeps_selection hreach⟩

/-- A switch whose process fails while it loads. -/
def switchFails : List Act :=
  boots ++ [.poll { answers := some (some .cpu) } {}] ++ selects 0 3 ++
    [.jobEnd true {}, .exit 1, .wake .job {}, .exit 2, .poll {} {}]

/-- A switch has found model 1 selected and has failed; model 3 is selected. -/
theorem failed_switch_loses_selection : ∃ s, appMachine.Reach Machine.free s ∧
    (some 1, some 3) ∈ s.app.ended ∧ s.app.selection = some 3 := by
  obtain ⟨s, hreach, hs⟩ := cold_reaches shelf (some 1) switchFails
    (fun s => decide ((some 1, some 3) ∈ s.app.ended ∧ s.app.selection = some 3))
    (by decide +kernel)
  exact ⟨s, hreach, of_decide_eq_true hs⟩

end GeistServe.Proofs
