import GeistServe.Proofs.Admission

/-!
# The comparison and the user's preference

A comparison starts the model for one processor after the other, and at last as it
was. A start arms the saving of the mode, and the comparison disarms it under the
same lock. `Spared` says that nothing is armed while a comparison runs, and where
the mode stands that was in force before it. It holds for as long as no process is
started beside the comparison's own calls of `start_child_mode`; a fallback, or a
restart behind a repetition that failed, arms the saving again.
-/

namespace GeistServe.Proofs

open GeistServe.Lib GeistServe.Supervisor

/-! ## What the sections leave alone -/

/-- What a section leaves of the comparison, of the mode and of the preferences. -/
structure Leaves (s s' : AppState) : Prop where
  generation : s.child.generation ≤ s'.child.generation
  compare : s'.compare = s.compare
  begun : s'.begun = s.begun
  compared : s'.compared = s.compared
  kept : s'.child.generation = s.child.generation → ModeKept s s'
  armed : s'.child.ready = true → s'.save = true → s.child.ready = true ∧ s.save = true

theorem Leaves.of_carries {s s' : AppState} (h : Carries s s') (hready : s'.child.ready = false) :
    Leaves s s' :=
  ⟨h.child.generation, congrArg Policy.compare h.policy, congrArg Policy.begun h.policy,
    congrArg Policy.compared h.policy, h.kept, fun hr => absurd hr (Bool.eq_false_iff.mp hready)⟩

/-- A section that does not touch them. -/
theorem Leaves.of_eq {s s' : AppState} (hchild : s'.child = s.child)
    (hcompare : s'.compare = s.compare) (hbegun : s'.begun = s.begun)
    (hcompared : s'.compared = s.compared) (hmode : s'.mode = s.mode) (hsave : s'.save = s.save)
    (hpref : s'.preference = s.preference) : Leaves s s' :=
  ⟨Nat.le_of_eq (congrArg Child.generation hchild.symm), hcompare, hbegun, hcompared,
    fun _ => ⟨hmode, fun h => hsave ▸ h, .inl hpref⟩,
    fun hr hs => ⟨hchild ▸ hr, hsave ▸ hs⟩⟩

theorem Leaves.refl (s : AppState) : Leaves s s := .of_eq rfl rfl rfl rfl rfl rfl rfl

theorem Leaves.trans {s s' s'' : AppState} (h : Leaves s s') (h' : Leaves s' s'') :
    Leaves s s'' := by
  refine ⟨h.generation.trans h'.generation, h'.compare.trans h.compare, h'.begun.trans h.begun,
    h'.compared.trans h.compared, fun hgen => ?_, fun hr hs => ?_⟩
  · have hle := h.generation
    have hle' := h'.generation
    have hk := h.kept (by omega)
    have hk' := h'.kept (by omega)
    refine ⟨hk'.mode.trans hk.mode, fun hs => hk.save (hk'.save hs), ?_⟩
    rcases hk'.preference with heq | hsave
    · exact hk.preference.imp heq.trans id
    · exact .inr (hk.save hsave)
  · obtain ⟨hr', hs'⟩ := h'.armed hr hs
    exact h.armed hr' hs'

theorem jobDone_leaves (s : AppState) (ok : Bool) (w : World) : Leaves s (s.jobDone ok w) := by
  have hrest := jobDone_rest s ok w
  exact .of_eq (congrArg AppState.child hrest :) (congrArg AppState.compare hrest :)
    (congrArg AppState.begun hrest :) (congrArg AppState.compared hrest :)
    (congrArg AppState.mode hrest :) (congrArg AppState.save hrest :)
    (congrArg AppState.preference hrest :)

theorem removed_leaves (s : AppState) (m : Model) (unlinks saves : Bool) :
    Leaves s (s.removed m unlinks saves) := by
  have hrest := removed_rest s m unlinks saves
  exact .of_eq (congrArg AppState.child hrest :) (congrArg AppState.compare hrest :)
    (congrArg AppState.begun hrest :) (congrArg AppState.compared hrest :)
    (congrArg AppState.mode hrest :) (congrArg AppState.save hrest :)
    (congrArg AppState.preference hrest :)

theorem beginJob_leaves (s : AppState) (m : Model) (download activate thread : Bool) :
    Leaves s (beginJob s m download activate thread) := by
  have hrest := beginJob_rest s m download activate thread
  exact .of_eq (congrArg AppState.child hrest :) (congrArg AppState.compare hrest :)
    (congrArg AppState.begun hrest :) (congrArg AppState.compared hrest :)
    (congrArg AppState.mode hrest :) (congrArg AppState.save hrest :)
    (congrArg AppState.preference hrest :)

theorem observationEnd_leaves (s : AppState) (t : Thread) (a : Answer) (w : World) :
    Leaves s (s.observationEnd t a w).1 := by
  have hrest := observationEnd_rest s t a w
  exact .of_eq (congrArg AppState.child hrest :) (congrArg AppState.compare hrest :)
    (congrArg AppState.begun hrest :) (congrArg AppState.compared hrest :)
    (congrArg AppState.mode hrest :) (congrArg AppState.save hrest :)
    (congrArg AppState.preference hrest :)

theorem sample_leaves (s : AppState) (reads : Bool) : Leaves s (s.sample reads) :=
  .of_eq rfl rfl rfl rfl rfl rfl rfl

theorem roundEnd_leaves (t : Thread) (r : AppState × Pc) (w : World) :
    Leaves r.1 (roundEnd t r w).1 := by
  unfold roundEnd
  split
  · exact sample_leaves r.1 w.samples
  · exact .refl _

theorem answers_leaves {s : AppState} {t : Thread} {o : Origin} {k : Nat} {a : Answer}
    {r : AppState × Pc} (hr : answers s t o k a = some r) : Leaves s r.1 := by
  unfold answers at hr
  split at hr
  · split at hr <;> cases hr
    exact .of_eq rfl rfl rfl rfl rfl rfl rfl
  · cases hr
    simp only
    split <;> exact .of_eq rfl rfl rfl rfl rfl rfl rfl

/-- What follows a start that is not the comparison's. -/
theorem afterStart_leaves {s s₁ : AppState} {c : Caller} {r : Start} {ok : Bool} (w : World)
    (hstart : Started s r s₁ ok) (hslot : ∀ n, c ≠ .slot n) (hrestore : ∀ d, c ≠ .restore d) :
    Leaves s (afterStart c s₁ ok w).1 := by
  have hfirst : Leaves s s₁ := .of_carries hstart.toCarries hstart.unready
  cases c with
  | boot => exact hfirst
  | slot n => exact absurd rfl (hslot n)
  | restore d => exact absurd rfl (hrestore d)
  | execution path id =>
      cases ok with
      | true => exact hfirst
      | false =>
          have hagain := startIdle_started hstart.owned (hstart.fails rfl).1 path id .cpu none
            w.again w.engine
          exact hfirst.trans (.of_carries hagain.toCarries hagain.unready)
  | job =>
      obtain ⟨s₂, heq, hfollow⟩ := afterStart_job s₁ ok w
      have hrest := hfollow.rest
      have hsame : Leaves s₁ s₂ := .of_eq (congrArg AppState.child hrest :)
        (congrArg AppState.compare hrest :) (congrArg AppState.begun hrest :)
        (congrArg AppState.compared hrest :) (congrArg AppState.mode hrest :)
        (congrArg AppState.save hrest :) (congrArg AppState.preference hrest :)
      rw [heq]
      exact (hfirst.trans hsame).trans (jobDone_leaves s₂ true w)

theorem afterStop_leaves {s : AppState} {k : Cont} (w : World) (h : Owned False s.child)
    (hpid : s.child.pid = none) (hready : s.child.ready = false) (hk : starting k = false) :
    Leaves s (afterStop k s w).1 := by
  cases k with
  | start | refused => cases hk
  | loadCancelled p cause =>
      exact .of_carries (monitorStop_carries (k := .loadCancelled p cause) w h hpid rfl) hready
  | timedOut p =>
      exact .of_carries (monitorStop_carries (k := .timedOut p) w h hpid rfl)
        (childFailed_failed h hpid p true w).unready
  | mismatch p =>
      exact .of_carries (monitorStop_carries (k := .mismatch p) w h hpid rfl) hready
  | observation o a path id mode =>
      have hend (s' : AppState) : Leaves s' { s' with generating := false } :=
        .of_eq rfl rfl rfl rfl rfl rfl rfl
      simp only [afterStop, afterObservation_fst]
      split
      · have hstart := startIdle_started h hpid path id mode none w.fault w.engine
        exact (Leaves.of_carries hstart.toCarries hstart.unready).trans (hend _)
      · exact (Leaves.of_carries (endLoad_carries s _) hready).trans (hend _)
  | removeRoute m unlinks saves => exact removed_leaves s m unlinks saves
  | stopRoute | exit => exact .of_eq rfl rfl rfl rfl rfl rfl rfl

/-! ## The other threads -/

/-- What a section of another thread does to them. -/
inductive Effect (s : AppState) : AppState → Prop where
  | leaves {s' : AppState} (h : Leaves s s') : Effect s s'
  | published {s' : AppState} (h : Carries s s') (hsave : s'.save = false) : Effect s s'
  | prefer {s' : AppState} (hq : Supervisor.Quiet s) (hchild : s'.child = s.child) (hsave : s'.save = s.save)
      (hcompare : s'.compare = s.compare) (hbegun : s'.begun = s.begun)
      (hcompared : s'.compared = s.compared) : Effect s s'
  | compare {s' : AppState} (hready : s.child.ready = true) (hq : Supervisor.Quiet s)
      (hchild : s'.child = s.child) (hsave : s'.save = s.save) (hmode : s'.mode = s.mode)
      (hpref : s'.preference = s.preference) (hbegun : s'.begun = (s.preference, s.mode))
      (hcompared : s'.compared = s.compared) : Effect s s'

theorem plain_effect {s : AppState} {t : Thread} {w : World} {r : AppState × Pc}
    (h : Supervisor.Plain s t w r) : Effect s r.1 := by
  cases h with
  | compare hready hq => exact .compare hready hq rfl rfl rfl rfl rfl rfl
  | prefer hready hq => exact .prefer hq rfl rfl rfl rfl rfl
  | removed => exact .leaves (removed_leaves ..)
  | background | switch => exact .leaves (beginJob_leaves ..)
  | @select m download thread =>
      have hsaved : Leaves s (s.saveSelection (some m.id)) := .of_eq rfl rfl rfl rfl rfl rfl rfl
      exact .leaves (hsaved.trans (beginJob_leaves ..))
  | _ => exact .leaves (.of_eq rfl rfl rfl rfl rfl rfl rfl)

theorem starts_caller {s : Sys} {t : Thread} {c : Caller} {r : Start}
    (h : Starts s t c r ∨ ∃ wait k, s.pc t = .waiting wait k ∧ StartCont c r k ∧ Waiter k t) :
    t = .comparison ↔ (∃ n, c = .slot n) ∨ ∃ d, c = .restore d := by
  rcases h with hs | ⟨wait, k, _, hk, hw⟩
  · cases hs <;> simp
  · have hw : Waiter (.refused c) t := by cases hk <;> exact hw
    cases c with
    | boot => exact hw.elim
    | job =>
        obtain rfl := hw
        simp
    | execution =>
        obtain ⟨i, rfl⟩ := hw
        simp
    | slot | restore =>
        obtain rfl := hw
        simp

theorem deed_effect {s : Sys} {t : Thread} {r : AppState × Pc} (hg : Grounded s)
    (hd : Deed s t r) (ht : t ≠ .comparison) : Effect s.app r.1 := by
  cases hd with
  | bootNothing | wakeWaits | accept | monitorEnd | jobStart | connect => exact .leaves (.refl _)
  | drain => exact .leaves (.of_eq rfl rfl rfl rfl rfl rfl rfl)
  | bootJob => exact .leaves (beginJob_leaves ..)
  | startWaits hs hk hc hlogs hprep hrev => exact .leaves (.of_carries hc hrev.unready)
  | @startDone _ c q s₁ ok w hs hstart =>
      have hcaller := starts_caller (hs.imp id fun ⟨wait, k, hpc, hk, _⟩ =>
        ⟨wait, k, hpc, hk, by have hw := hg.placed t; rw [hpc] at hw; exact hw⟩)
      exact .leaves (afterStart_leaves w hstart
        (fun n hn => ht (hcaller.mpr (.inl ⟨n, hn⟩))) fun d hd => ht (hcaller.mpr (.inr ⟨d, hd⟩)))
  | callWaits hcall hrev =>
      exact .leaves (.of_carries (hcall.carries.trans (own_carries hrev.toMoved)) hrev.unready)
  | @stopped _ k s₀ ch w hk hc hstop =>
      have hstart : starting k = false := by
        rcases hk with ⟨cause, hcall⟩ | ⟨_, hstart, _⟩
        · exact (calls_at hcall).2.1
        · exact hstart
      have hown : Leaves s.app (s₀.own ch) :=
        .of_carries (hc.trans (own_carries hstop.toMoved)) hstop.unready
      exact .leaves ((hown.trans (afterStop_leaves (s := s₀.own ch) w hstop.owned hstop.pid
        hstop.unready hstart)).trans (roundEnd_leaves ..))
  | request hpc hr => exact plain_effect hr
  | pollNothing => exact .leaves (sample_leaves ..)
  | pollEnded hpc hpid hstopping hflag hswitch hfail =>
      exact .leaves ((Leaves.of_carries hfail.toCarries hfail.unready).trans (sample_leaves ..))
  | @pollPublished k saves reads hpc hpid hstopping hready hflag =>
      obtain ⟨p, hp, _⟩ := hg.owned.alive hpid
      have hc := published_carries hpid hp hstopping saves
      have hlast : ∀ k, s.app.child.pid = some k → k = s.app.child.generation :=
        fun k hk => hg.owned.last hk
      exact .published (hc.trans (sample_carries
        ((s.app.own s.app.child.identified).published saves) reads hlast)) rfl
  | jobDone => exact .leaves (jobDone_leaves ..)
  | answer hpc hr => exact .leaves (answers_leaves hr)
  | observed => exact .leaves (observationEnd_leaves ..)
  | concluded =>
      rw [afterObservation_fst]
      exact .leaves (.of_eq rfl rfl rfl rfl rfl rfl rfl)
  | compare => exact absurd rfl ht

/-! ## Every run -/

/-- The places of the comparison where the mode is the one from before it. -/
def restoring : Pc → Bool
  | .idle | .restoreWait _ | .finish _ true => true
  | _ => false

/-- What holds of the saving, of the mode and of the comparisons that are done. -/
structure Spared (s : Sys) : Prop where
  armed : s.app.child.ready = true → s.app.save = false
  saved : s.app.compare.running = true →
    s.app.save = false ∧ s.app.preference = s.app.begun.1
  previous : s.pc .comparison ≠ .idle → s.app.compare.previous = s.app.begun.2
  mode : s.app.compare.running = true → restoring (s.pc .comparison) = true →
    s.app.mode = s.app.begun.2
  asked : ∀ {wait r ok}, s.pc .comparison = .waiting wait (.start r (.restore ok)) →
    r.mode = s.app.begun.2
  compared : ∀ c ∈ s.app.compared, c.after = c.before ∧ (c.restored = true → c.modeAfter = c.mode)

/-- Where the comparison stands in its own `start_child_mode`. -/
def starts : Pc → Bool
  | .slot _ | .restore _ | .waiting _ (.start ..) => true
  | _ => false

/-- While a comparison runs, no process is started but by its own calls of
`start_child_mode`. -/
def Unshared (s : Sys) (act : Act) : Prop :=
  ∀ s', s.step act = some s' → s.app.compare.running = true →
    s'.app.child.generation ≠ s.app.child.generation →
    act.thread = some .comparison ∧ starts (s.pc .comparison) = true

theorem ModeKept.preference_eq {s s' : AppState} (h : ModeKept s s') (hs : s.save = false) :
    s'.save = false ∧ s'.preference = s.preference := by
  refine ⟨Bool.eq_false_iff.mpr fun hs' => ?_, h.preference.resolve_right ?_⟩
  · have := h.save hs'
    rw [hs] at this
    cases this
  · rw [hs]
    exact Bool.false_ne_true

theorem effect_spared {s : Sys} {t : Thread} {r : AppState × Pc} (he : Exclusive s)
    (h : Spared s) (ht : t ≠ .comparison)
    (hgen : s.app.compare.running = true → r.1.child.generation = s.app.child.generation)
    (heff : Effect s.app r.1) : Spared (s.put t r) := by
  have hpc : (s.put t r).pc .comparison = s.pc .comparison := put_pc_ne s r (Ne.symm ht)
  have hidle (hq : Supervisor.Quiet s.app) : s.pc .comparison = .idle := by
    by_contra hne
    have := he.comparing hne
    rw [hq.compare] at this
    cases this
  -- A section that keeps the mode while a comparison runs.
  have hkept (hcompare : r.1.compare = s.app.compare) (hbegun : r.1.begun = s.app.begun)
      (hcompared : r.1.compared = s.app.compared)
      (hmode : r.1.child.generation = s.app.child.generation → ModeKept s.app r.1)
      (harmed : r.1.child.ready = true → r.1.save = false) : Spared (s.put t r) := by
    refine ⟨harmed, fun hrun => ?_, fun hne => ?_, fun hrun hr => ?_, fun {wait q ok} hw => ?_, ?_⟩
    · rw [put_app, hcompare] at hrun
      obtain ⟨hsave, hpref⟩ := h.saved hrun
      obtain ⟨hsave', hpref'⟩ := (hmode (hgen hrun)).preference_eq hsave
      rw [put_app, hbegun]
      exact ⟨hsave', hpref'.trans hpref⟩
    · rw [hpc] at hne
      rw [put_app, hcompare, hbegun]
      exact h.previous hne
    · rw [put_app, hcompare] at hrun
      rw [hpc] at hr
      rw [put_app, hbegun, (hmode (hgen hrun)).mode]
      exact h.mode hrun hr
    · rw [hpc] at hw
      rw [put_app, hbegun]
      exact h.asked hw
    · rw [put_app, hcompared]
      exact h.compared
  cases heff with
  | leaves hl =>
      refine hkept hl.compare hl.begun hl.compared hl.kept fun hr => ?_
      cases hs : r.1.save with
      | false => rfl
      | true =>
          obtain ⟨hr', hs'⟩ := hl.armed hr hs
          rw [h.armed hr'] at hs'
          cases hs'
  | published hc hsave =>
      exact hkept (congrArg Policy.compare hc.policy) (congrArg Policy.begun hc.policy)
        (congrArg Policy.compared hc.policy) hc.kept fun _ => hsave
  | prefer hq hchild hsave hcompare hbegun hcompared =>
      have hnot (hrun : (s.put t r).app.compare.running = true) : False := by
        rw [put_app, hcompare, hq.compare] at hrun
        cases hrun
      refine ⟨fun hr => ?_, fun hrun => (hnot hrun).elim, fun hne => ?_,
        fun hrun => (hnot hrun).elim, fun {wait q ok} hw => ?_, ?_⟩
      · rw [put_app, hchild] at hr
        rw [put_app, hsave]
        exact h.armed hr
      · rw [hpc, hidle hq] at hne
        exact absurd rfl hne
      · rw [hpc, hidle hq] at hw
        cases hw
      · rw [put_app, hcompared]
        exact h.compared
  | compare hready hq hchild hsave hmode hpref hbegun hcompared =>
      refine ⟨fun hr => ?_, fun _ => ?_, fun hne => ?_, fun _ _ => ?_, fun {wait q ok} hw => ?_, ?_⟩
      · rw [put_app, hsave]
        exact h.armed hready
      · rw [put_app, hsave, hbegun]
        exact ⟨h.armed hready, hpref⟩
      · rw [hpc, hidle hq] at hne
        exact absurd rfl hne
      · rw [put_app, hbegun, hmode]
      · rw [hpc, hidle hq] at hw
        cases hw
      · rw [put_app, hcompared]
        exact h.compared

/-- A section of the comparison's thread that leaves everything alone, and does not
lead to where the mode is to be the one from before. -/
theorem comparison_spared {s : Sys} {r : AppState × Pc} (he : Exclusive s) (h : Spared s)
    (hl : Leaves s.app r.1) (hat : s.pc .comparison ≠ .idle)
    (hgen : r.1.child.generation = s.app.child.generation)
    (hr : restoring r.2 = true → s.app.mode = s.app.begun.2)
    (hw : ∀ {wait q ok}, r.2 = .waiting wait (.start q (.restore ok)) →
      q.mode = s.app.begun.2) : Spared (s.put .comparison r) := by
  have hrun := he.comparing hat
  have hpc : (s.put .comparison r).pc .comparison = r.2 := put_pc_same ..
  have hkept := hl.kept hgen
  obtain ⟨hsave, hpref⟩ := h.saved hrun
  obtain ⟨hsave', hpref'⟩ := hkept.preference_eq hsave
  refine ⟨fun _ => hsave', fun _ => ?_, fun _ => ?_, fun _ hr' => ?_, fun {wait q ok} hw' => ?_, ?_⟩
  · rw [put_app, hl.begun]
    exact ⟨hsave', hpref'.trans hpref⟩
  · rw [put_app, hl.compare, hl.begun]
    exact h.previous hat
  · rw [hpc] at hr'
    rw [put_app, hl.begun, hkept.mode]
    exact hr hr'
  · rw [hpc] at hw'
    rw [put_app, hl.begun]
    exact hw hw'
  · rw [put_app, hl.compared]
    exact h.compared

/-- What follows a start of the comparison. -/
theorem afterStart_spared {s : Sys} {c : Caller} {q : Start} {s₁ : AppState} {ok : Bool}
    {w : World} (he : Exclusive s) (h : Spared s) (hstart : Started s.app q s₁ ok)
    (hat : s.pc .comparison ≠ .idle) (hc : (∃ n, c = .slot n) ∨ ∃ d, c = .restore d)
    (hmode : ok = true → (∃ d, c = .restore d) → q.mode = s.app.begun.2) :
    Spared (s.put .comparison (afterStart c s₁ ok w)) := by
  have hrun := he.comparing hat
  have hcompare : s₁.compare = s.app.compare := congrArg Policy.compare hstart.policy
  have hbegun : s₁.begun = s.app.begun := congrArg Policy.begun hstart.policy
  have hcompared : s₁.compared = s.app.compared := congrArg Policy.compared hstart.policy
  have hpref : s₁.preference = s.app.begun.1 := hstart.preference.trans (h.saved hrun).2
  have hprev : s₁.compare.previous = s₁.begun.2 := by
    rw [hcompare, hbegun]
    exact h.previous hat
  have hdone : ∀ e ∈ s₁.compared, e.after = e.before ∧ (e.restored = true → e.modeAfter = e.mode) :=
    hcompared ▸ h.compared
  have hpc (r : AppState × Pc) : (s.put .comparison r).pc .comparison = r.2 := put_pc_same ..
  have hother {pc : Pc} (hr : restoring pc = false) (hw : ∀ wait k, pc ≠ .waiting wait k) :
      Spared (s.put .comparison ({ s₁ with save := false }, pc)) := by
    refine ⟨fun _ => rfl, fun _ => ⟨rfl, hpref.trans (congrArg Prod.fst hbegun.symm)⟩,
      fun _ => hprev, fun _ hr' => ?_, fun {wait k ok} hw' => ?_, hdone⟩
    · rw [hpc, hr] at hr'
      cases hr'
    · rw [hpc] at hw'
      exact absurd hw' (hw _ _)
  rcases hc with ⟨n, rfl⟩ | ⟨d, rfl⟩
  · cases ok with
    | true => exact hother rfl fun _ _ hf => by cases hf
    | false => exact hother rfl fun _ _ hf => by cases hf
  · cases ok with
    | false => exact hother rfl fun _ _ hf => by cases hf
    | true =>
        have hspawn := hstart.starts rfl
        refine ⟨fun _ => rfl, fun _ => ⟨rfl, hpref.trans (congrArg Prod.fst hbegun.symm)⟩,
          fun _ => hprev, fun _ _ => ?_, fun {wait k ok} hw' => ?_, hdone⟩
        · show s₁.mode = s₁.begun.2
          rw [hspawn.mode, hbegun]
          exact hmode rfl ⟨d, rfl⟩
        · rw [hpc] at hw'
          cases hw'

theorem compares_spared {s : Sys} {w : World} {r : AppState × Pc} (he : Exclusive s)
    (h : Spared s) (hr : Compares s.app w (s.pc .comparison) r) :
    Spared (s.put .comparison r) := by
  have hpc (r : AppState × Pc) : (s.put .comparison r).pc .comparison = r.2 := put_pc_same ..
  generalize hat : s.pc .comparison = pc at hr
  have hrunning (hne : pc ≠ .idle) : s.app.compare.running = true := he.comparing (hat ▸ hne)
  have hprevious (hne : pc ≠ .idle) : s.app.compare.previous = s.app.begun.2 :=
    h.previous (hat ▸ hne)
  have hcalm {pc' : Pc} (hne : pc ≠ .idle) (hr' : restoring pc' = true → restoring pc = true)
      (hw' : ∀ wait k, pc' ≠ .waiting wait k) : Spared (s.put .comparison (s.app, pc')) := by
    refine comparison_spared he h (.refl _) (hat ▸ hne) rfl (fun hr => ?_) fun hw => absurd hw (hw' _ _)
    exact h.mode (hrunning hne) (hat ▸ hr' hr)
  cases hr with
  | begins hrun =>
      have hmode : s.app.mode = s.app.begun.2 := h.mode hrun (by rw [hat]; rfl)
      refine ⟨h.armed, h.saved, fun _ => hmode, fun _ hr' => ?_, fun {wait k ok} hw' => ?_, h.compared⟩
      · rw [hpc] at hr'
        cases hr'
      · rw [hpc] at hw'
        cases hw'
  | slotCancelled | restoreClosed =>
      have hrun := hrunning fun hf => by cases hf
      refine ⟨fun _ => rfl, fun _ => ⟨rfl, (h.saved hrun).2⟩,
        fun _ => hprevious fun hf => (by cases hf), fun _ hr' => ?_, fun {wait k ok} hw' => ?_,
        h.compared⟩
      · rw [hpc] at hr'
        cases hr'
      · rw [hpc] at hw'
        cases hw'
  | slotWaits | slotReady | slotFails | checked | refused =>
      exact hcalm (fun hf => (by cases hf)) (fun hf => (by cases hf)) fun _ _ hf => by cases hf
  | restoreWaits => exact hcalm (fun hf => (by cases hf)) id fun _ _ hf => by cases hf
  | restored => exact hcalm (fun hf => (by cases hf)) (fun _ => rfl) fun _ _ hf => by cases hf
  | repetitionCancelled =>
      refine comparison_spared he h (.of_eq rfl rfl rfl rfl rfl rfl rfl)
        (by rw [hat]; exact fun hf => by cases hf) rfl (fun hf => by cases hf) fun hf => by cases hf
  | repetition =>
      have hrun := hrunning fun hf => by cases hf
      refine ⟨h.armed, fun _ => h.saved hrun, fun _ => hprevious fun hf => (by cases hf),
        fun _ hr' => ?_, fun {wait k ok} hw' => ?_, h.compared⟩
      · rw [hpc] at hr'
        cases hr'
      · rw [hpc] at hw'
        cases hw'
  | @finish ok restored =>
      have hrun := hrunning fun hf => by cases hf
      refine ⟨h.armed, fun hf => (by cases hf), fun hf => ?_, fun hf => (by cases hf),
        fun {wait k ok} hw' => ?_, fun e hmem => ?_⟩
      · rw [hpc] at hf
        exact absurd rfl hf
      · rw [hpc] at hw'
        cases hw'
      · rw [put_app, List.mem_cons] at hmem
        rcases hmem with rfl | hmem
        · refine ⟨(h.saved hrun).2, fun hr' => ?_⟩
          have hr' : restored = true := hr'
          exact h.mode hrun (by rw [hat, hr']; rfl)
        · exact h.compared e hmem

theorem afterObservation_restoring (s : AppState) {o : Origin} (a : Answer)
    (ho : Owner o .comparison) : restoring (afterObservation s o a).2 = false := by
  cases o with
  | request =>
      obtain ⟨i, hi⟩ := ho
      cases hi
  | repetition n r =>
      unfold afterObservation
      simp only
      generalize (if s.compare.gpu = true then 2 else 1) = slots
      split
      · split
        · rfl
        · split <;> rfl
      · rfl

theorem deed_spared {s : Sys} {r : AppState × Pc} (hg : Grounded s) (he : Exclusive s)
    (h : Spared s) (hd : Deed s .comparison r)
    (hgen : s.app.compare.running = true →
      r.1.child.generation ≠ s.app.child.generation → starts (s.pc .comparison) = true) :
    Spared (s.put .comparison r) := by
  -- Where the comparison stands at an inference it starts nothing.
  have hsame (hat : s.pc .comparison ≠ .idle) (hnot : starts (s.pc .comparison) = false) :
      r.1.child.generation = s.app.child.generation := by
    by_contra hne
    have := hgen (he.comparing hat) hne
    rw [hnot] at this
    cases this
  have howner {pc : Pc} (hpc : s.pc .comparison = pc) : Placed .comparison pc := hpc ▸ hg.placed _
  have hcalm {r : AppState × Pc} (hl : Leaves s.app r.1) (hat : s.pc .comparison ≠ .idle)
      (hgen : r.1.child.generation = s.app.child.generation) (hr : restoring r.2 = false)
      (hw : ∀ wait k, r.2 ≠ .waiting wait k) : Spared (s.put .comparison r) :=
    comparison_spared he h hl hat hgen (fun hr' => by rw [hr] at hr'; cases hr')
      fun hw' => absurd hw' (hw _ _)
  cases hd with
  | startWaits hs hk hc hlogs hprep hrev =>
      obtain ⟨hat, _, _⟩ := starts_at hs
      refine comparison_spared he h (.of_carries hc hrev.unready) hat hrev.same
        (fun hf => by cases hf) fun {wait q ok} hw => ?_
      cases hw
      cases hk
      cases hs with
      | restore hpc hmode => exact hmode.trans (h.previous hat)
  | @startDone _ c q s₁ ok w hs hstart =>
      have hcaller := (starts_caller (hs.imp id fun ⟨wait, k, hpc, hk, _⟩ =>
        ⟨wait, k, hpc, hk, howner hpc⟩)).mp rfl
      rcases hs with hs | ⟨wait, k, hpc, hk, hk', _⟩
      · obtain ⟨hat, _, _⟩ := starts_at hs
        refine afterStart_spared he h hstart hat hcaller fun _ ⟨d, hd⟩ => ?_
        subst hd
        cases hs with
        | restore hpc hmode => exact hmode.trans (h.previous hat)
      · have hat : s.pc .comparison ≠ .idle := by rw [hpc]; exact fun hf => by cases hf
        refine afterStart_spared he h hstart hat hcaller fun hok ⟨d, hd⟩ => ?_
        subst hd
        rw [hk' hok] at hpc
        exact h.asked hpc
  | callWaits hcall hrev =>
      cases hcall with
      | observation hpc =>
          have hat : s.pc .comparison ≠ .idle := by rw [hpc]; exact fun hf => by cases hf
          refine comparison_spared he h (.of_carries ((beginLoad_carries _ _).trans
            (own_carries hrev.toMoved)) hrev.unready) hat hrev.same (fun hf => by cases hf)
            fun hw => by cases hw
  | @stopped _ k s₀ ch w hk hc hstop =>
      obtain ⟨o, a, path, id, mode, rfl, ho, hat, hnot⟩ : ∃ o a path id mode,
          k = .observation o a path id mode ∧ Owner o .comparison ∧ s.pc .comparison ≠ .idle ∧
            starts (s.pc .comparison) = false := by
        rcases hk with ⟨cause, hcall⟩ | ⟨⟨wait, hpc⟩, hstart, _⟩
        · cases hcall with
          | observation hpc =>
              rw [hpc]
              exact ⟨_, _, _, _, _, rfl, howner hpc, fun hf => (by cases hf), rfl⟩
        · have hw := howner hpc
          rw [hpc]
          cases k with
          | observation o a path id mode =>
              exact ⟨_, _, _, _, _, rfl, hw, fun hf => (by cases hf), rfl⟩
          | start | refused => cases hstart
          | loadCancelled | timedOut | mismatch | exit => cases hw
          | stopRoute | removeRoute =>
              obtain ⟨i, hi⟩ := hw
              cases hi
      have hgen' := hsame hat hnot
      rw [roundEnd_ne fun hf => by cases hf] at hgen' ⊢
      have hl := (Leaves.of_carries (hc.trans (own_carries hstop.toMoved)) hstop.unready).trans
        (afterStop_leaves (s := s₀.own ch) (k := .observation o a path id mode) w hstop.owned
          hstop.pid hstop.unready rfl)
      exact hcalm hl hat hgen' (afterObservation_restoring _ a ho)
        fun _ _ => afterStop_ne _ _ _
  | wakeWaits hpc hsince hcause =>
      have hat : s.pc .comparison ≠ .idle := by rw [hpc]; exact fun hf => by cases hf
      refine comparison_spared he h (.refl _) hat rfl (fun hf => by cases hf) fun {wait q ok} hw => ?_
      cases hw
      exact h.asked hpc
  | connect hpc =>
      have hat : s.pc .comparison ≠ .idle := by rw [hpc]; exact fun hf => by cases hf
      refine hcalm (.refl _) hat rfl ?_ fun _ _ => connects_ne _ _ _ _ _
      unfold connects
      split
      · split <;> rfl
      · rfl
  | answer hpc hr =>
      have hat : s.pc .comparison ≠ .idle := by rw [hpc]; exact fun hf => by cases hf
      exact hcalm (answers_leaves hr) hat (hsame hat (by rw [hpc]; rfl))
        (by rw [answers_snd hr]; rfl) (answers_ne hr)
  | observed hpc =>
      have hat : s.pc .comparison ≠ .idle := by rw [hpc]; exact fun hf => by cases hf
      exact hcalm (observationEnd_leaves ..) hat (hsame hat (by rw [hpc]; rfl)) rfl
        fun _ _ hf => by cases hf
  | @concluded _ o a rc hpc =>
      have hat : s.pc .comparison ≠ .idle := by rw [hpc]; exact fun hf => by cases hf
      have hfst := afterObservation_fst { s.app with generating := false } o a
      refine hcalm ?_ hat ?_ (afterObservation_restoring _ a (howner hpc))
        fun _ _ => afterObservation_ne _ _ _ _
      · rw [hfst]
        exact .of_eq rfl rfl rfl rfl rfl rfl rfl
      · rw [hfst]
  | compare hr => exact compares_spared he h hr

theorem initial_spared {s : Sys} (h : s.Initial) : Spared s := by
  have hpc : s.pc .comparison = .idle := h.others _ fun hf => by cases hf
  refine ⟨fun hr => ?_, fun hrun => ?_, fun hne => ?_, fun hrun => ?_, fun {wait r ok} hw => ?_,
    fun e hmem => ?_⟩
  · rw [h.ready] at hr
    cases hr
  · rw [h.compare] at hrun
    cases hrun
  · exact absurd hpc hne
  · rw [h.compare] at hrun
    cases hrun
  · rw [hpc] at hw
    cases hw
  · rw [h.compared] at hmem
    cases hmem

theorem step_spared {s s' : Sys} {act : Act} (hg : Grounded s) (he : Exclusive s)
    (h : Spared s) (hok : Unshared s act) (hstep : s.step act = some s') : Spared s' := by
  have hown := hok s' hstep
  rcases step_deed hg hstep with ⟨k, rfl, rfl⟩ | ⟨t, r, hact, hd, rfl⟩
  · have hready : (s.app.child.exit k).ready = s.app.child.ready := by
      unfold Child.exit
      split <;> rfl
    exact ⟨fun hr => h.armed (hready ▸ hr), h.saved, h.previous, h.mode, h.asked, h.compared⟩
  · by_cases ht : t = .comparison
    · subst ht
      exact deed_spared hg he h hd fun hrun hne => (hown hrun hne).2
    · refine effect_spared he h ht (fun hrun => ?_) (deed_effect hg hd ht)
      by_contra hne
      have := (hown hrun hne).1
      rw [hact] at this
      exact ht (Option.some.inj this)

theorem reach_spared {s : Sys} (h : appMachine.Reach Unshared s) :
    Grounded s ∧ Exclusive s ∧ Spared s := by
  refine h.invariant (I := fun s => Grounded s ∧ Exclusive s ∧ Spared s) (fun s hs => ?_)
    fun s act s' _ hok hstep hI => ?_
  · exact ⟨initial_grounded (s := s) hs, initial_exclusive hs, initial_spared hs⟩
  · obtain ⟨hg, he, hp⟩ := hI
    exact ⟨step_grounded hg hstep, step_exclusive hg he hstep, step_spared hg he hp hok hstep⟩

/-- In every run in which, while a comparison runs, no process is started but by its
own calls of `start_child_mode`: every comparison that is done has left the saved
preferences as they were, and a restored one the mode that was in force. -/
theorem comparison_leaves_preference {s : Sys} (h : appMachine.Reach Unshared s) :
    ∀ c ∈ s.app.compared, c.after = c.before ∧ (c.restored = true → c.modeAfter = c.mode) :=
  (reach_spared h).2.2.compared

def unshared (s : Sys) (act : Act) : Bool :=
  (s.step act).all fun s' =>
    decide (s.app.compare.running = true →
      s'.app.child.generation ≠ s.app.child.generation →
      act.thread = some .comparison ∧ starts (s.pc .comparison) = true)

theorem unshared_holds {s : Sys} {act : Act} (h : unshared s act = true) : Unshared s act :=
  fun s' hs' => of_decide_eq_true ((Option.all_eq_true _ _).mp h s' hs')

/-- The start of a comparison, as far as its first look at its flags. -/
def comparisonBegins : List Act :=
  boots ++ [.poll { answers := some (some .cpu) } {}, .accept 0, .handle 0 (.compare true) {},
    .compare false {}]

/-- A comparison that is cancelled at once and restored. -/
def comparisonCancelled : List Act :=
  comparisonBegins ++ [.accept 1, .handle 1 .performanceCancel {}, .compare false {},
    .compare false {}, .exit 1, .wake .comparison {}, .poll { answers := some (some .cpu) } {},
    .compare false {}, .compare false {}]

theorem comparison_leaves_preference_cancelled :
    ∃ s, appMachine.run (coldStart shelf (some 1)) comparisonCancelled = some s ∧
      (∃ c ∈ s.app.compared, c.restored = true) ∧
      ∀ c ∈ s.app.compared, c.after = c.before ∧
        (c.restored = true → c.modeAfter = c.mode) := by
  obtain ⟨s, hrun, hreach⟩ := Machine.checks_reach (M := appMachine) (p := unshared)
    (fun _ _ => unshared_holds) comparisonCancelled (.init (coldStart_initial shelf (some 1)))
    (by decide +kernel)
  have hsome : ((appMachine.run (coldStart shelf (some 1)) comparisonCancelled).any
      fun s => s.app.compared.any (·.restored)) = true := by decide +kernel
  rw [hrun] at hsome
  exact ⟨s, hrun, List.any_eq_true.mp hsome, comparison_leaves_preference hreach⟩

/-- The first repetition of a comparison fails with its process. `observation_end`
starts it again for the CPU and arms the saving; it becomes ready before the
comparison is restored. -/
def repetitionFails : List Act :=
  comparisonBegins ++ [.compare false {}, .exit 1, .wake .comparison {},
    .poll { answers := some none } {}, .compare false {}, .compare false {}, .compare false {},
    .connect .comparison true ⟨502, false, false⟩,
    .answer .comparison ⟨502, false, false⟩, .observed .comparison {}, .conclude .comparison {},
    .exit 2, .wake .comparison {}, .poll { answers := some none } {}, .compare false {}, .exit 3,
    .wake .comparison {}, .poll { answers := some none } {}, .compare false {}, .compare false {}]

/-- A comparison changes the preference that is saved for the model. -/
theorem comparison_changes_preference : ∃ s, appMachine.Reach Machine.free s ∧
    ∃ c ∈ s.app.compared, c.before 11 = some .auto ∧ c.after 11 = some .cpu := by
  obtain ⟨s, hreach, hs⟩ := cold_reaches shelf (some 1) repetitionFails
    (fun s => s.app.compared.any fun c : Compared =>
      decide (c.before 11 = some .auto ∧ c.after 11 = some .cpu)) (by decide +kernel)
  obtain ⟨c, hmem, hc⟩ := List.any_eq_true.mp hs
  exact ⟨s, hreach, c, hmem, of_decide_eq_true hc⟩

end GeistServe.Proofs
