import GeistServe.Proofs.Attribution

/-!
# Downloads beside a record

A record is marked from two sides: by `observation_begin`, when a background
download is running then, and by `begin_job`, when the record is attached as the
download begins. A download that has ended leaves the mark. So the mark says at
every moment whether a download has run since the record was begun, and
`step_contention` is the step of that.

The other jobs are begun at rest only, and then no record is attached.
-/

namespace GeistServe.Proofs

open GeistServe.Lib GeistServe.Supervisor

/-! ## Which section it is -/

theorem section_accepted {s : Sys} {act : Act} {t : Thread} {r : AppState × Pc}
    (hsec : Section s act t r) (hpc : s.pc t = .accepted) :
    ∃ i req w, act = .handle i req w ∧ r = handle s.app t req w := by
  cases hsec with
  | handle h => exact ⟨_, _, _, rfl, rfl⟩
  | startup h | accept _ h | poll h | wake h | jobStart h | jobEnd h | connect h | answer h
  | observed h | conclude h | monitorEnd h | drain h | leave h =>
      rw [h] at hpc
      cases hpc
  | compare hr =>
      rw [hpc] at hr
      cases hr

theorem section_answered {s : Sys} {act : Act} {t : Thread} {r : AppState × Pc} {o : Origin}
    {a : Answer} (hsec : Section s act t r) (hpc : s.pc t = .answered o a) :
    ∃ w, act = .observed t w := by
  cases hsec with
  | observed h => exact ⟨_, rfl⟩
  | startup h | accept _ h | handle h | poll h | wake h | jobStart h | jobEnd h | connect h
  | answer h | conclude h | monitorEnd h | drain h | leave h =>
      rw [h] at hpc
      cases hpc
  | compare hr =>
      rw [hpc] at hr
      cases hr

/-- While an answer is generated, `choose` begins background downloads only. -/
theorem choose_generating {s : AppState} (hgen : s.generating = true) (c : Choice)
    (id : Option Nat) (f : Facts) (w : World) :
    choose s c id f w = (s, .idle) ∨
      ∃ m, choose s c id f w = (beginJob s m true false f.thread, .idle) := by
  unfold choose
  split
  · exact .inl rfl
  · next m _ =>
      simp only
      split
      · exact .inl rfl
      · next hfree =>
          simp only [hgen, not_or, not_and, true_and, Bool.not_eq_true] at hfree
          obtain ⟨_, _, _, _, hback, _⟩ := hfree
          split
          · exact .inl rfl
          · next hpreview =>
              have hback := hback hpreview
              simp only [Bool.not_eq_false, Bool.and_eq_true, decide_eq_true_eq] at hback
              obtain ⟨⟨rfl, hpid⟩, _⟩ := hback
              simp only [reduceCtorEq, if_false, ne_eq, not_true_eq_false, false_and, decide_true,
                Bool.not_true, Bool.false_or]
              split
              · exact .inl rfl
              · obtain ⟨k, hk⟩ := Option.isSome_iff_exists.mp hpid
                rw [hk]
                exact .inr ⟨m, if_pos (.inr rfl)⟩

/-- While an answer is generated, a request marks a record only if it begins a
background download. -/
theorem handle_generating {s : AppState} (hgen : s.generating = true) (t : Thread) (req : Req)
    (w : World) :
    (∀ t', ((handle s t req w).1.records t').contention = (s.records t').contention) ∨
      ∃ c id f m, req = .choose c id f ∧
        handle s t req w = (beginJob s m true false f.thread, .idle) := by
  cases req with
  | choose c id f =>
      rcases choose_generating hgen c id f w with heq | ⟨m, heq⟩
      · left
        rw [handle, heq]
        exact fun _ => rfl
      · exact .inr ⟨c, id, f, m, rfl, heq⟩
  | generate passes | completions passes =>
      left
      simp [handle, admission, hgen]
  | compare thread =>
      left
      simp [handle, comparisonStart, hgen]
  | execution mode =>
      left
      simp [handle, execution, hgen]
  | catalog revision models conflict =>
      left
      simp [handle, importCatalog, hgen]
  | activityCancel instance_ id generation =>
      left
      simp only [handle, activityCancel, hgen, if_true]
      split <;> exact fun _ => rfl
  | quitIfIdle =>
      left
      simp [handle, hgen]
  | stop =>
      left
      simp [handle, hgen]
  | other | cancel | performanceCancel | quit => exact .inl fun _ => rfl

/-- The thread of every job that is begun can be created. -/
def manned : Act → Bool
  | .handle _ (.choose _ _ f) _ => f.thread
  | _ => true

theorem background_job {s s' : AppState} (h : s'.job = s.job) : background s' = background s := by
  unfold background
  rw [h]

/-! ## One step -/

section Step

variable {s s' : Sys} {act : Act} {t : Thread}

/-- A step, as far as the records go. -/
theorem step_recording (hg : Grounded s) (he : Exclusive s) (ha : Attached s)
    (hstep : s.step act = some s') :
    (∃ k, s' = ⟨s.app.own (s.app.child.exit k), s.pc⟩) ∨
      ∃ t r, Section s act t r ∧ Recording s t r ∧ s' = s.put t r := by
  have howned := (step_grounded hg hstep).owned
  rcases step_section hstep with ⟨k, _, rfl⟩ | ⟨t, r, hsec, rfl⟩
  · exact .inl ⟨k, rfl⟩
  · exact .inr ⟨t, r, hsec,
      deed_recording hg (section_deed hg.owned hg.placed hsec) howned (unattached he ha), rfl⟩

theorem step_attached (hg : Grounded s) (he : Exclusive s) (ha : Attached s)
    (hstep : s.step act = some s') : Attached s' := by
  have hexclusive := step_exclusive hg he hstep
  rcases step_recording hg he ha hstep with ⟨k, rfl⟩ | ⟨t, r, hsec, hr, rfl⟩
  · exact ha
  · exact recording_attached hexclusive ha hr

/-- An attached record stays attached until its own `observation_end`. -/
theorem step_observe (hg : Grounded s) (he : Exclusive s) (ha : Attached s)
    (hstep : s.step act = some s') (hobs : s.app.observe = some t)
    (hopen : ∀ w, act ≠ .observed t w) : s'.app.observe = some t := by
  have ha' := step_attached hg he ha hstep
  have hexclusive := step_exclusive hg he hstep
  rcases step_recording hg he ha hstep with ⟨k, rfl⟩ | ⟨t', r, hsec, hr, rfl⟩
  · exact hobs
  · cases hr with
    | aside hclosed hafter hbeside => exact hbeside.observe.trans hobs
    | begun hclosed =>
        have hthere := (ha t).mp hobs
        by_cases ht : t = t'
        · rw [ht, opens_false hclosed] at hthere
          cases hthere
        · rw [others_closed hexclusive rfl ht] at hthere
          cases hthere
    | @download m thread hpc =>
        exact (congrArg AppState.observe (beginJob_rest s.app m true false thread) :).trans hobs
    | connected hpc => exact hobs
    | answered hpc hr => exact (congrArg Policy.observe (answers_flags hr)).trans hobs
    | observed hpc =>
        obtain ⟨w, rfl⟩ := section_answered hsec hpc
        have hthere : s.app.observe = some t' := (ha t').mpr (by rw [hpc]; rfl)
        rw [hobs] at hthere
        exact absurd (by rw [Option.some.inj hthere]) (hopen w)

/-- A record is begun with the mark that the downloads of the moment give it. -/
theorem step_begins (hg : Grounded s) (he : Exclusive s) (ha : Attached s)
    (hstep : s.step act = some s') (hclosed : s.app.observe ≠ some t)
    (hobs : s'.app.observe = some t) :
    (s'.app.records t).contention = background s'.app := by
  rcases step_recording hg he ha hstep with ⟨k, rfl⟩ | ⟨t', r, hsec, hr, rfl⟩
  · exact absurd hobs hclosed
  · cases hr with
    | aside _ hafter hbeside => exact absurd (hbeside.observe.symm.trans hobs) hclosed
    | @begun o s₁ _ hthere hsub hchild hrec hjob hfresh hmark =>
        obtain rfl : t' = t := Option.some.inj (hthere.symm.trans hobs)
        rw [put_app, hmark, background_job hjob]
    | @download m thread hpc =>
        exact absurd ((congrArg AppState.observe
          (beginJob_rest s.app m true false thread) :).symm.trans hobs) hclosed
    | connected hpc => exact absurd hobs hclosed
    | answered hpc hr =>
        exact absurd ((congrArg Policy.observe (answers_flags hr)).symm.trans hobs) hclosed
    | observed hpc => cases hobs

/-- A step marks the attached record if and only if a background download is
running behind it. -/
theorem step_contention (hg : Grounded s) (he : Exclusive s) (ha : Attached s)
    (hstep : s.step act = some s') (hmanned : manned act = true)
    (hobs : s.app.observe = some t) (hobs' : s'.app.observe = some t)
    (hmarked : background s.app = true → (s.app.records t).contention = true) :
    (s'.app.records t).contention = true ↔
      (s.app.records t).contention = true ∨ background s'.app = true := by
  have hcalm (hmark : (s'.app.records t).contention = (s.app.records t).contention)
      (hback : background s'.app = true → background s.app = true) :
      (s'.app.records t).contention = true ↔
        (s.app.records t).contention = true ∨ background s'.app = true := by
    rw [hmark]
    exact ⟨.inl, fun h => h.elim id fun hb => hmarked (hback hb)⟩
  rcases step_recording hg he ha hstep with ⟨k, rfl⟩ | ⟨t', r, hsec, hr, rfl⟩
  · exact hcalm rfl id
  · cases hr with
    | aside _ hafter hbeside => exact hcalm (hbeside.contention t) hbeside.downloads
    | @begun o s₁ hclosed hthere =>
        obtain rfl : t' = t := Option.some.inj (hthere.symm.trans hobs')
        have hopen := (ha t').mp hobs
        rw [opens_false hclosed] at hopen
        cases hopen
    | @download m thread hpc =>
        obtain ⟨o, ho⟩ := opens_infers ((ha t).mp hobs)
        obtain ⟨i, req, w, rfl, hreq⟩ := section_accepted hsec hpc
        rcases handle_generating (he.generating ho) t' req w with hsame | ⟨c, name, f, m', rfl, heq⟩
        · rw [← hreq] at hsame
          rcases download_records s.app m thread with ⟨_, hjob⟩ | ⟨_, hrec⟩
          · exact hcalm (hsame t) (fun hb => background_job hjob ▸ hb)
          · -- The download finds the record marked.
            have hmark : ((beginJob s.app m true false thread).records t).contention = true := by
              rw [hrec, hobs]
              simp only [Function.update_self]
            exact ⟨fun _ => .inl ((hsame t).symm.trans hmark), fun _ => hmark⟩
        · rw [put_app, congrArg Prod.fst (hreq.trans heq)]
          rcases download_records s.app m' f.thread with ⟨hrec, hjob⟩ | ⟨hback, hrec⟩
          · rw [hrec, background_job hjob]
            exact ⟨.inl, fun h => h.elim id hmarked⟩
          · rw [hback, hrec, hobs]
            simp only [Function.update_self, true_iff]
            exact .inr hmanned
    | connected hpc => exact hcalm rfl id
    | answered hpc hr =>
        have hjob : r.1.job = s.app.job := congrArg Policy.job (answers_flags hr)
        refine hcalm ?_ fun hb => background_job hjob ▸ hb
        rcases answers_cases hr with ⟨_, rfl⟩ | ⟨_, _, _, hrec⟩
        · rw [put_app]
          by_cases ht : t = t'
          · subst ht
            simp only [Function.update_self]
          · simp only [Function.update_of_ne ht]
        · rw [put_app, hrec]
    | observed hpc => cases hobs'

end Step

/-! ## A run from the begin of a record to its end -/

/-- The states between two sections of a run in which the record of a thread is
attached, from a state in which its mark is right. -/
structure Marked (s : Sys) (t : Thread) : Prop where
  grounded : Grounded s
  exclusive : Exclusive s
  attached : Attached s
  observe : s.app.observe = some t
  marked : background s.app = true → (s.app.records t).contention = true

theorem step_marked {s s' : Sys} {act : Act} {t : Thread} (h : Marked s t)
    (hstep : s.step act = some s') (hmanned : manned act = true)
    (hopen : ∀ w, act ≠ .observed t w) :
    Marked s' t ∧ ((s'.app.records t).contention = true ↔
      (s.app.records t).contention = true ∨ background s'.app = true) := by
  have hobs := step_observe h.grounded h.exclusive h.attached hstep h.observe hopen
  have hmark :=
    step_contention h.grounded h.exclusive h.attached hstep hmanned h.observe hobs h.marked
  exact ⟨⟨step_grounded h.grounded hstep, step_exclusive h.grounded h.exclusive hstep,
    step_attached h.grounded h.exclusive h.attached hstep, hobs, fun hb => hmark.mpr (.inr hb)⟩,
    hmark⟩

theorem run_marked {t : Thread} {as : List Act} :
    ∀ {s s' : Sys}, Marked s t → appMachine.run s as = some s' →
      (∀ a ∈ as, manned a = true) → (∀ w, Act.observed t w ∉ as) →
      Marked s' t ∧ ((s'.app.records t).contention = true ↔
        (s.app.records t).contention = true ∨
          appMachine.Passes (fun s => background s.app = true) s as) := by
  induction as with
  | nil =>
      intro s s' h hrun _ _
      rw [Machine.run] at hrun
      injection hrun with hrun
      subst hrun
      rw [Machine.passes_nil]
      exact ⟨h, .inl, fun hor => hor.elim (fun hc => hc) h.marked⟩
  | cons act as ih =>
      intro s s' h hrun hmanned hopen
      rw [Machine.run] at hrun
      obtain ⟨s₁, hstep, hrun⟩ := Option.bind_eq_some_iff.mp hrun
      obtain ⟨h₁, hmark₁⟩ := step_marked h hstep (hmanned act (List.mem_cons_self ..))
        fun w heq => hopen w (heq ▸ List.mem_cons_self ..)
      obtain ⟨h', hmark'⟩ := ih h₁ hrun (fun a ha => hmanned a (List.mem_cons_of_mem _ ha))
        fun w ha => hopen w (List.mem_cons_of_mem _ ha)
      refine ⟨h', ?_⟩
      rw [hmark', hmark₁, Machine.passes_cons hstep]
      -- What the mark of the state behind the step says is one of its moments.
      have hfirst : background s₁.app = true →
          appMachine.Passes (fun s => background s.app = true) s₁ as :=
        fun hb => ⟨[], s₁, List.nil_prefix, rfl, hb⟩
      have hmarked := h.marked
      tauto

/-- The record that is submitted has the mark of the one that is detached. -/
theorem observed_submits {s s' : Sys} {t : Thread} {w : World}
    (h : s.step (.observed t w) = some s') :
    ∃ r, s'.app.submitted = r :: s.app.submitted ∧
      r.contention = (s.app.records t).contention := by
  rw [Sys.step] at h
  split at h
  · next o a _ =>
      injection h with h
      subst h
      have hends : ∃ r, (s.app.observationEnd t a w).1.submitted = r :: s.app.submitted ∧
          r.contention = ((s.app.sample w.samples).records t).contention := by
        unfold AppState.observationEnd
        simp only
        split <;> exact ⟨_, rfl, rfl⟩
      obtain ⟨r, hsub, hmark⟩ := hends
      exact ⟨r, hsub, hmark.trans (sample_contention s.app w.samples t)⟩
  · cases h

theorem reach_attachment {s : Sys} (h : appMachine.Reach Machine.free s) :
    Grounded s ∧ Exclusive s ∧ Attached s := by
  refine h.invariant (I := fun s => Grounded s ∧ Exclusive s ∧ Attached s) (fun s hs => ?_)
    fun s act s' _ _ hstep hI => ?_
  · exact ⟨initial_grounded (s := s) hs, initial_exclusive hs, initial_attached hs⟩
  · obtain ⟨hg, he, ha⟩ := hI
    exact ⟨step_grounded hg hstep, step_exclusive hg he hstep, step_attached hg he ha hstep⟩

/-- In every run, with any jobs, requests and comparisons in any order, from the step
that attaches the record of a thread to the `observation_end` that detaches it,
with the thread of every job created: the record that is submitted is marked if
and only if a background download was running at some moment between the two. -/
theorem contention_iff {s s₁ s₂ s₃ : Sys} {act : Act} {t : Thread} {as : List Act} {w : World}
    (hreach : appMachine.Reach Machine.free s) (hbegin : s.step act = some s₁)
    (hclosed : s.app.observe ≠ some t) (hopen : s₁.app.observe = some t)
    (hrun : appMachine.run s₁ as = some s₂) (hmanned : ∀ a ∈ as, manned a = true)
    (hbefore : ∀ w, Act.observed t w ∉ as) (hend : s₂.step (.observed t w) = some s₃) :
    ∃ r, s₃.app.submitted = r :: s₂.app.submitted ∧
      (r.contention = true ↔
        appMachine.Passes (fun s => background s.app = true) s₁ as) := by
  obtain ⟨hg, he, ha⟩ := reach_attachment hreach
  have hmark₁ := step_begins hg he ha hbegin hclosed hopen
  have h₁ : Marked s₁ t := ⟨step_grounded hg hbegin, step_exclusive hg he hbegin,
    step_attached hg he ha hbegin, hopen, fun hb => hmark₁.trans hb⟩
  obtain ⟨h₂, hmark₂⟩ := run_marked h₁ hrun hmanned hbefore
  have hmoments : (s₂.app.records t).contention = true ↔
      appMachine.Passes (fun s => background s.app = true) s₁ as := by
    rw [hmark₂, hmark₁]
    exact ⟨fun hor => hor.elim (fun hb => ⟨[], s₁, List.nil_prefix, rfl, hb⟩) id, .inr⟩
  obtain ⟨r, hsub, hsame⟩ := observed_submits hend
  exact ⟨r, hsub, hsame ▸ hmoments⟩

/-- A download that begins and ends while an answer is generated. -/
def downloadsBeside : List Act :=
  [.connect (.worker 0) true ⟨0, false, true⟩, .accept 1,
    .handle 1 (.choose .download (some 3) {}) {}, .jobStart, .jobEnd true {},
    .answer (.worker 0) ⟨0, false, true⟩]

theorem contention_iff_download : ∃ s s₁ s₂ s₃,
    appMachine.run (coldStart shelf (some 1)) (boots ++ [.poll { answers := some none } {},
      .accept 0]) = some s ∧
    s.step (.handle 0 (.generate true) {}) = some s₁ ∧
    appMachine.run s₁ downloadsBeside = some s₂ ∧
    s₂.step (.observed (.worker 0) {}) = some s₃ ∧
    ∃ r, s₃.app.submitted = r :: s₂.app.submitted ∧
      (r.contention = true ↔
        appMachine.Passes (fun s => background s.app = true) s₁ downloadsBeside) := by
  obtain ⟨s, hs, hreach⟩ := cold_runs Machine.free (fun _ _ _ => trivial) shelf (some 1)
    (boots ++ [.poll { answers := some none } {}, .accept 0]) (by decide +kernel)
  have hall : ((appMachine.run (coldStart shelf (some 1)) (boots ++
      [.poll { answers := some none } {}, .accept 0])).any fun s =>
      (s.step (.handle 0 (.generate true) {})).any fun s₁ =>
        decide (s.app.observe ≠ some (.worker 0) ∧ s₁.app.observe = some (.worker 0)) &&
          (appMachine.run s₁ downloadsBeside).any fun s₂ =>
            (s₂.step (.observed (.worker 0) {})).isSome) = true := by decide +kernel
  rw [hs, Option.any_some] at hall
  obtain ⟨s₁, hbegin, hall⟩ := (Option.any_eq_true _ _).mp hall
  rw [Bool.and_eq_true] at hall
  obtain ⟨hattached, hall⟩ := hall
  obtain ⟨hclosed, hopen⟩ := of_decide_eq_true hattached
  obtain ⟨s₂, hrun, hall⟩ := (Option.any_eq_true _ _).mp hall
  obtain ⟨s₃, hend⟩ := Option.isSome_iff_exists.mp hall
  exact ⟨s, s₁, s₂, s₃, hs, hbegin, hrun, hend, contention_iff hreach hbegin hclosed hopen hrun
    (by decide) (fun w hw => by simp [downloadsBeside] at hw) hend⟩

end GeistServe.Proofs
