import GeistServe.Proofs.Selection

/-!
# Downloads in the background

The job thread runs the same function for a job that is to activate its model and
for one that only downloads. Only the first gets to `start_child`, so a background
download never waits in a `stop_child` (`Activating`), and its one section that
does anything is the last one, `jobDone`.
-/

namespace GeistServe.Proofs

open GeistServe.Lib GeistServe.Supervisor

/-- The job thread waits for a job that activates its model only. -/
def Activating (s : Sys) : Prop :=
  ∀ wait k, s.pc .job = .waiting wait k → s.app.job.activate = true

theorem deed_activating {s : Sys} {t : Thread} {r : AppState × Pc} (hg : Grounded s)
    (he : Exclusive s) (hk : Known s) (h : Activating s) (hd : Deed s t r) :
    Activating (s.put t r) := by
  intro wait k hpc
  by_cases ht : t = .job
  · subst ht
    rw [put_pc_same] at hpc
    rcases deed_waits hd hpc with ⟨c, q, hs, _, hc, _⟩ | ⟨cause, s₀, hcall, _⟩ |
      ⟨wait₀, hwait, _, _, hsame⟩
    · have hjob : r.1.job = s.app.job := congrArg Policy.job hc.policy
      cases hs with
      | job _ _ _ hactivate => exact (congrArg Job.activate hjob).trans hactivate
    · cases hcall with
      | observation hobs =>
          have howner := hg.placed .job
          rw [hobs] at howner
          exact absurd rfl (owner_ne_job howner)
    · rw [put_app, hsame]
      exact h wait₀ k hwait
  · rw [put_pc_ne s r (Ne.symm ht)] at hpc
    have hactivate := h wait k hpc
    have hrun : s.app.job.running = true := he.working fun hidle => by
      rw [hpc] at hidle
      cases hidle
    rw [put_app]
    cases deed_turn hg hk hd with
    | same hsame =>
        have hjob : r.1.job = s.app.job := congrArg (·.2.2) hsame
        rw [hjob]
        exact hactivate
    | removed _ hjob | gaveUp _ _ _ _ hjob =>
        rw [hjob]
        exact hactivate
    | begun hidle =>
        rw [hidle] at hrun
        cases hrun
    | done hjob | started hjob => exact absurd hjob ht

theorem reach_activating {s : Sys} (h : appMachine.Reach Machine.free s) :
    Grounded s ∧ Exclusive s ∧ Known s ∧ Activating s := by
  refine h.invariant (I := fun s => Grounded s ∧ Exclusive s ∧ Known s ∧ Activating s)
    (fun s hs => ?_) fun s act s' _ _ hstep hI => ?_
  · refine ⟨initial_grounded (s := s) hs, initial_exclusive hs, initial_known hs,
      fun wait k hpc => ?_⟩
    rw [hs.others .job fun hf => by cases hf] at hpc
    cases hpc
  · obtain ⟨hg, he, hk, ha⟩ := hI
    refine ⟨step_grounded hg hstep, step_exclusive hg he hstep, step_known hg hstep hk, ?_⟩
    rcases step_deed hg hstep with ⟨k, rfl, rfl⟩ | ⟨t, r, _, hd, rfl⟩
    · exact ha
    · exact deed_activating hg he hk ha hd

/-- The last section of a background download ends its download activity. -/
theorem jobDone_load {s : AppState} (hback : s.job.activate = false) (ok : Bool) (w : World) :
    (s.jobDone ok w).load = s.load := by
  unfold AppState.jobDone
  simp only
  split <;> split <;> split <;> simp_all [AppState.hit, AppState.switchEnds]

/-- What the thread of a background download does: it begins, or it ends. -/
theorem background_section {s : Sys} {act : Act} {r : AppState × Pc} (hg : Grounded s)
    (ha : Activating s) (hback : s.app.job.activate = false) (hsec : Section s act .job r) :
    r.1 = s.app ∨ ∃ ok w, r.1 = s.app.jobDone ok w := by
  have hnone {o : Origin} (howner : Owner o .job) : False := owner_ne_job howner rfl
  have hat := hg.placed .job
  cases hsec with
  | wake hpc =>
      have hactivate := ha _ _ hpc
      rw [hback] at hactivate
      cases hactivate
  | jobStart hpc hrun => exact .inl rfl
  | @jobEnd ok w hpc =>
      right
      refine ⟨ok, w, ?_⟩
      unfold jobEnd
      simp only [hback, Bool.false_eq_true, and_false, if_false]
      split
      · rfl
      · split <;> rfl
  | connect hpc | answer hpc | observed hpc | conclude hpc =>
      rw [hpc] at hat
      exact (hnone hat).elim

/-- A download beside a ready model. -/
def downloads : List Act :=
  boots ++ [.poll { answers := some none } {}, .accept 0,
    .handle 0 (.choose .download (some 3) {}) {}, .jobStart]

end GeistServe.Proofs
