import GeistServe.Proofs.Deeds

/-!
# Admissions exclude each other

`Exclusive` ties the flags of the app to where the threads are: an inference has
`generating` set, there is one at most, the inference of a request has neither a
comparison nor an activating job beside it, and the comparison and the job have
their own flags set for as long as their threads are at work. It holds in every
run.

The catalog is another matter: a change of the execution mode has no flag, and
only the process that it stops keeps the table from being replaced.
-/

namespace GeistServe.Proofs

open GeistServe.Lib GeistServe.Supervisor

/-- The inference that a thread is in, from its admission to its end. -/
def infers : Pc → Option Origin
  | .admitted o | .inferring o _ | .answered o _ | .observed o _ _ => some o
  | .waiting _ (.observation o ..) => some o
  | _ => none

/-- The flags of the admissions. -/
structure Exclusive (s : Sys) : Prop where
  generating : ∀ {t o}, infers (s.pc t) = some o → s.app.generating = true
  alone : ∀ {t t' o o'}, infers (s.pc t) = some o → infers (s.pc t') = some o' → t = t'
  request : ∀ {t}, infers (s.pc t) = some .request → s.app.compare.running = false ∧
    (s.app.job.running = true → s.app.job.activate = false)
  comparing : s.pc .comparison ≠ .idle → s.app.compare.running = true
  working : s.pc .job ≠ .idle → s.app.job.running = true

theorem infers_owner {t : Thread} {pc : Pc} {o : Origin} (hp : Placed t pc)
    (h : infers pc = some o) : Owner o t := by
  unfold infers at h
  split at h
  · cases h
    exact hp
  · cases h
    exact hp
  · cases h
    exact hp
  · cases h
    exact hp
  · cases h
    exact hp
  · cases h

theorem owner_ne_job {o : Origin} {t : Thread} (h : Owner o t) : t ≠ .job := by
  intro he
  subst he
  cases o with
  | request =>
      obtain ⟨i, hi⟩ := h
      cases hi
  | repetition n r => cases h

theorem infers_waiting (w w' : Wait) (k : Cont) : infers (.waiting w k) = infers (.waiting w' k) := by
  cases k <;> rfl

/-- What an inference needs of the flags. -/
structure Admitted (s : AppState) (o : Origin) : Prop where
  generating : s.generating = true
  request : o = .request → s.compare.running = false ∧
    (s.job.running = true → s.job.activate = false)

theorem Exclusive.admitted {s : Sys} (h : Exclusive s) {t : Thread} {o : Origin}
    (ho : infers (s.pc t) = some o) : Admitted s.app o :=
  ⟨h.generating ho, fun hr => h.request (hr ▸ ho)⟩

/-- What a section has to see to: that the inferences of the others go on as they
were admitted, that its own is admitted, and that the flags of the comparison
and of the job stand. -/
theorem Exclusive.put {s : Sys} (h : Exclusive s) {t : Thread} {r : AppState × Pc}
    (hothers : ∀ {t' o}, t' ≠ t → infers (s.pc t') = some o →
      Admitted r.1 o ∧ infers r.2 = none)
    (hown : ∀ {o}, infers r.2 = some o → Admitted r.1 o)
    (hcompare : (s.put t r).pc .comparison ≠ .idle → r.1.compare.running = true)
    (hjob : (s.put t r).pc .job ≠ .idle → r.1.job.running = true) : Exclusive (s.put t r) := by
  have hall {t' : Thread} {o : Origin} (ho : infers ((s.put t r).pc t') = some o) :
      Admitted r.1 o := by
    by_cases ht : t' = t
    · subst ht
      rw [put_pc_same] at ho
      exact hown ho
    · rw [put_pc_ne s r ht] at ho
      exact (hothers ht ho).1
  refine ⟨fun ho => (hall ho).generating, fun {t₁ t₂ o o'} ho ho' => ?_,
    fun ho => (hall ho).request rfl, hcompare, hjob⟩
  by_cases h₁ : t₁ = t
  · by_cases h₂ : t₂ = t
    · exact h₁.trans h₂.symm
    · subst h₁
      rw [put_pc_same] at ho
      rw [put_pc_ne s r h₂] at ho'
      rw [(hothers h₂ ho').2] at ho
      cases ho
  · rw [put_pc_ne s r h₁] at ho
    by_cases h₂ : t₂ = t
    · subst h₂
      rw [put_pc_same] at ho'
      rw [(hothers h₁ ho).2] at ho'
      cases ho'
    · rw [put_pc_ne s r h₂] at ho'
      exact h.alone ho ho'

/-- A section that leaves the flags as they are, with an inference only where there
was one. -/
theorem Exclusive.calm {s : Sys} (h : Exclusive s) {t : Thread} {r : AppState × Pc}
    (hgen : r.1.generating = s.app.generating)
    (hrun : r.1.compare.running = s.app.compare.running) (hj : r.1.job = s.app.job)
    (hinf : ∀ {o}, infers r.2 = some o → infers (s.pc t) = some o)
    (hcompare : t = .comparison → r.2 ≠ .idle → s.pc .comparison ≠ .idle)
    (hjob : t = .job → r.2 ≠ .idle → s.app.job.running = true) : Exclusive (s.put t r) := by
  have hadm {t' : Thread} {o : Origin} (ho : infers (s.pc t') = some o) : Admitted r.1 o := by
    refine ⟨hgen.trans (h.generating ho), fun hr => ?_⟩
    rw [hrun, hj]
    exact (h.admitted ho).request hr
  refine h.put (fun {t' o} ht ho => ⟨hadm ho, ?_⟩) (fun ho => hadm (hinf ho)) (fun hc => ?_)
    fun hc => ?_
  · cases hr : infers r.2 with
    | none => rfl
    | some o' => exact absurd (h.alone ho (hinf hr)) ht
  · rw [hrun]
    by_cases ht : t = .comparison
    · subst ht
      rw [put_pc_same] at hc
      exact h.comparing (hcompare rfl hc)
    · rw [put_pc_ne s r (Ne.symm ht)] at hc
      exact h.comparing hc
  · rw [hj]
    by_cases ht : t = .job
    · subst ht
      rw [put_pc_same] at hc
      exact hjob rfl hc
    · rw [put_pc_ne s r (Ne.symm ht)] at hc
      exact h.working hc

/-- The same for what starts, stops and the monitor do. -/
theorem Exclusive.carries {s : Sys} (h : Exclusive s) {t : Thread} {r : AppState × Pc}
    (hc : Carries s.app r.1) (hinf : ∀ {o}, infers r.2 = some o → infers (s.pc t) = some o)
    (hcompare : t = .comparison → r.2 ≠ .idle → s.pc .comparison ≠ .idle)
    (hjob : t = .job → r.2 ≠ .idle → s.app.job.running = true) : Exclusive (s.put t r) :=
  h.calm (congrArg Policy.generating hc.policy)
    (congrArg (·.compare.running) hc.policy) (congrArg Policy.job hc.policy) hinf hcompare hjob

/-! ## What the sections do to the flags -/

theorem jobDone_flags (s : AppState) (ok : Bool) (w : World) :
    (s.jobDone ok w).generating = s.generating ∧ (s.jobDone ok w).compare = s.compare ∧
      (s.jobDone ok w).job.running = false := by
  have hrest := jobDone_rest s ok w
  refine ⟨(congrArg AppState.generating hrest :), (congrArg AppState.compare hrest :), ?_⟩
  unfold AppState.jobDone
  simp only

theorem removed_flags (s : AppState) (m : Model) (unlinks saves : Bool) :
    (s.removed m unlinks saves).generating = s.generating ∧
      (s.removed m unlinks saves).compare = s.compare ∧
      (s.removed m unlinks saves).job = s.job := by
  have hrest := removed_rest s m unlinks saves
  exact ⟨(congrArg AppState.generating hrest :), (congrArg AppState.compare hrest :),
    (congrArg AppState.job hrest :)⟩

theorem beginJob_flags (s : AppState) (m : Model) (download activate thread : Bool) :
    (beginJob s m download activate thread).generating = s.generating ∧
      (beginJob s m download activate thread).compare = s.compare ∧
      ((beginJob s m download activate thread).job = s.job ∨
        (beginJob s m download activate thread).job.activate = activate) := by
  have hrest := beginJob_rest s m download activate thread
  refine ⟨(congrArg AppState.generating hrest :), (congrArg AppState.compare hrest :), ?_⟩
  rcases beginJob_job s m download activate thread with heq | ⟨op, heq⟩
  · exact .inl heq
  · exact .inr (by rw [heq])

theorem observationEnd_flags (s : AppState) (t : Thread) (a : Answer) (w : World) :
    (s.observationEnd t a w).1.generating = s.generating ∧
      (s.observationEnd t a w).1.compare = s.compare ∧
      (s.observationEnd t a w).1.job = s.job := by
  have hrest := observationEnd_rest s t a w
  exact ⟨(congrArg AppState.generating hrest :), (congrArg AppState.compare hrest :),
    (congrArg AppState.job hrest :)⟩

theorem answers_flags {s : AppState} {t : Thread} {o : Origin} {k : Nat} {a : Answer}
    {r : AppState × Pc} (hr : answers s t o k a = some r) :
    policy r.1 = policy s := by
  unfold answers at hr
  split at hr
  · split at hr <;> cases hr
    rfl
  · cases hr
    simp only
    split <;> rfl

theorem roundEnd_policy (t : Thread) (r : AppState × Pc) (w : World) :
    policy (roundEnd t r w).1 = policy r.1 := by
  unfold roundEnd
  split <;> rfl

/-! ## Where an inference goes on and where it ends -/

theorem connects_infers (s : AppState) (o : Origin) (succeeds : Bool) (a : Answer) :
    infers (connects s o succeeds a) = some o := by
  unfold connects
  split
  · split <;> rfl
  · rfl

theorem afterStart_infers (s : AppState) (c : Caller) (ok : Bool) (w : World) :
    infers (afterStart c s ok w).2 = none := by
  unfold afterStart
  cases c with
  | boot | job | execution path id => rfl
  | slot n | restore done =>
      simp only
      split <;> rfl

theorem afterObservation_infers (s : AppState) (o : Origin) (a : Answer) :
    infers (afterObservation s o a).2 = none := by
  unfold afterObservation
  cases o with
  | request => rfl
  | repetition n r =>
      simp only
      generalize (if s.compare.gpu = true then 2 else 1) = slots
      split
      · split
        · rfl
        · split <;> rfl
      · rfl

theorem afterStop_infers (s : AppState) (k : Cont) (w : World) :
    infers (afterStop k s w).2 = none := by
  cases k with
  | start | refused => exact afterStart_infers _ _ _ _
  | observation => exact afterObservation_infers _ _ _
  | loadCancelled | timedOut | mismatch | stopRoute | removeRoute | exit => rfl

theorem not_infers {pc : Pc} {o : Origin} (h : infers pc = none) : infers pc ≠ some o := by
  rw [h]
  exact fun hf => by cases hf

/-- The end of an inference. -/
theorem Exclusive.ends {s : Sys} (h : Exclusive s) {t : Thread} {o : Origin} {r : AppState × Pc}
    (ho : infers (s.pc t) = some o) (hrun : r.1.compare.running = s.app.compare.running)
    (hj : r.1.job = s.app.job) (hinf : infers r.2 = none) (hne : t ≠ .job) :
    Exclusive (s.put t r) := by
  refine h.put (fun ht ho' => absurd (h.alone ho' ho) ht) (fun ho' => absurd ho' (not_infers hinf))
    (fun hc => ?_) fun hc => ?_
  · rw [hrun]
    by_cases ht : t = .comparison
    · subst ht
      refine h.comparing fun hidle => ?_
      rw [hidle] at ho
      cases ho
    · rw [put_pc_ne s r (Ne.symm ht)] at hc
      exact h.comparing hc
  · rw [hj]
    rw [put_pc_ne s r (Ne.symm hne)] at hc
    exact h.working hc

/-- While no inference runs, a request may set the flags. -/
theorem Exclusive.plain {s : Sys} (h : Exclusive s) {t : Thread} {s' : AppState}
    (hgen : s.app.generating = false) (hrun : s.app.compare.running = true →
      s'.compare.running = true) (hjob : s.app.job.running = true → s'.job.running = true)
    (hc : t ≠ .comparison) (hj : t ≠ .job) : Exclusive (s.put t (s', .idle)) := by
  refine h.put (fun {t' o} _ ho => ?_) (fun ho => absurd ho (not_infers rfl)) (fun hpc => ?_)
    fun hpc => ?_
  · have := h.generating ho
    rw [hgen] at this
    cases this
  · rw [put_pc_ne s _ (Ne.symm hc)] at hpc
    exact hrun (h.comparing hpc)
  · rw [put_pc_ne s _ (Ne.symm hj)] at hpc
    exact hjob (h.working hpc)

theorem plain_exclusive {s : Sys} (h : Exclusive s) {i : Fin WORKER_CAP} {w : World}
    {r : AppState × Pc} (hr : Supervisor.Plain s.app (.worker i) w r) : Exclusive (s.put (.worker i) r) := by
  have hc : Thread.worker i ≠ .comparison := fun he => by cases he
  have hj : Thread.worker i ≠ .job := fun he => by cases he
  have hquiet {s' : AppState} (hg : s'.generating = s.app.generating)
      (hr : s'.compare.running = s.app.compare.running) (hjob : s'.job = s.app.job) :
      Exclusive (s.put (.worker i) (s', .idle)) :=
    h.calm hg hr hjob (fun ho => absurd ho (not_infers rfl)) (fun he => absurd he hc)
      fun he => absurd he hj
  cases hr with
  | admitted hclosing hready hcompare hgen hjob =>
      refine h.put (fun {t' o} _ ho => ?_) (fun ho => ⟨rfl, fun _ => ⟨hcompare, hjob⟩⟩)
        (fun hpc => ?_) fun hpc => ?_
      · have := h.generating ho
        rw [hgen] at this
        cases this
      · rw [put_pc_ne s _ (Ne.symm hc)] at hpc
        exact h.comparing hpc
      · rw [put_pc_ne s _ (Ne.symm hj)] at hpc
        exact h.working hpc
  | compare hready hq =>
      refine h.plain hq.generating (fun hrun => ?_) (fun hrun => hrun) hc hj
      rw [hq.compare] at hrun
      cases hrun
  | removed hstopping hq =>
      obtain ⟨hg, hr, hjob⟩ := removed_flags s.app _ _ _
      exact hquiet hg (congrArg Compare.running hr) hjob
  | @background m thread hstopping hcompare hjob =>
      obtain ⟨hg, hr, hact⟩ := beginJob_flags s.app m true false thread
      refine h.put (fun {t' o} _ ho => ⟨⟨hg.trans (h.generating ho), fun hreq => ?_⟩, rfl⟩)
        (fun ho => absurd ho (not_infers rfl)) (fun hpc => ?_) fun hpc => ?_
      · obtain ⟨hrun, hold⟩ := (h.admitted ho).request hreq
        rw [hr]
        refine ⟨hrun, fun hrunning => ?_⟩
        rcases hact with hsame | hact
        · rw [hsame] at hrunning ⊢
          exact hold hrunning
        · exact hact
      · rw [put_pc_ne s _ (Ne.symm hc)] at hpc
        rw [hr]
        exact h.comparing hpc
      · rw [put_pc_ne s _ (Ne.symm hj)] at hpc
        have := h.working hpc
        rw [hjob] at this
        cases this
  | @switch m thread hstopping hq hpid =>
      obtain ⟨hg, hr, _⟩ := beginJob_flags s.app m false true thread
      refine h.plain hq.generating (fun hrun => ?_) (fun hrun => ?_) hc hj
      · rw [hr]
        exact hrun
      · rw [hq.job] at hrun
        cases hrun
  | @select m download thread hstopping hq hpid =>
      obtain ⟨hg, hr, _⟩ := beginJob_flags (s.app.saveSelection (some m.id)) m download true thread
      refine h.plain hq.generating (fun hrun => ?_) (fun hrun => ?_) hc hj
      · rw [hr]
        exact hrun
      · rw [hq.job] at hrun
        cases hrun
  | nothing | prefer | catalog | cancelRequest | cancelLoad | cancel | performanceCancel | quit =>
      exact hquiet rfl rfl rfl

theorem compares_exclusive {s : Sys} (hg : Grounded s) (h : Exclusive s) {w : World}
    {r : AppState × Pc} (hr : Compares s.app w (s.pc .comparison) r) :
    Exclusive (s.put .comparison r) := by
  have hjob : Thread.comparison = .job → r.2 ≠ .idle → s.app.job.running = true :=
    fun he => by cases he
  generalize hpc : s.pc .comparison = pc at hr
  have hrunning (hne : pc ≠ .idle) : s.app.compare.running = true :=
    h.comparing (hpc ▸ hne)
  cases hr with
  | begins hrun =>
      exact h.put (fun {t' o} ht ho => ⟨⟨h.generating ho, (h.admitted ho).request⟩, rfl⟩)
        (fun ho => absurd ho (not_infers rfl)) (fun _ => hrun) fun hj => h.working hj
  | repetition =>
      have hrun := hrunning fun hf => by cases hf
      refine h.put (fun {t' o} ht ho => ?_) (fun ho => ?_) (fun _ => hrun) fun hj => h.working hj
      · -- A comparison that runs has no request beside it.
        cases o with
        | request =>
            have := (h.request ho).1
            rw [hrun] at this
            cases this
        | repetition n r =>
            exact absurd (infers_owner (hg.placed t') ho) ht
      · cases ho
        exact ⟨rfl, fun hf => by cases hf⟩
  | finish =>
      refine h.put (fun {t' o} ht ho => ⟨⟨h.generating ho, fun hreq => ?_⟩, rfl⟩)
        (fun ho => absurd ho (not_infers rfl)) (fun hf => ?_) fun hj => h.working hj
      · exact ⟨rfl, ((h.admitted ho).request hreq).2⟩
      · rw [put_pc_same] at hf
        exact absurd rfl hf
  | slotCancelled | slotWaits | slotReady | slotFails | checked | refused | repetitionCancelled
  | restoreClosed | restoreWaits | restored =>
      exact h.calm rfl rfl rfl (fun ho => absurd ho (not_infers rfl))
        (fun _ _ hf => by rw [hpc] at hf; cases hf) hjob

/-! ## Every run -/

theorem Exclusive.jobEnds {s : Sys} (h : Exclusive s) {s' : AppState}
    (hgen : s'.generating = s.app.generating)
    (hrun : s'.compare.running = s.app.compare.running) (hj : s'.job.running = false) :
    Exclusive (s.put .job (s', .idle)) := by
  refine h.put (fun {t' o} _ ho => ⟨⟨hgen.trans (h.generating ho), fun hreq => ?_⟩, rfl⟩)
    (fun ho => absurd ho (not_infers rfl)) (fun hc => ?_) fun hc => ?_
  · rw [hrun, hj]
    exact ⟨((h.admitted ho).request hreq).1, fun hf => by cases hf⟩
  · rw [hrun]
    exact h.comparing hc
  · rw [put_pc_same] at hc
    exact absurd rfl hc

theorem afterStart_exclusive {s : Sys} (h : Exclusive s) {t : Thread} {c : Caller} {r : Start}
    {s₁ : AppState} {ok : Bool} {w : World} (hstart : Started s.app r s₁ ok)
    (hat : s.pc t ≠ .idle) (ht : c = .job ↔ t = .job) :
    Exclusive (s.put t (afterStart c s₁ ok w)) := by
  have hinf {o : Origin} (ho : infers (afterStart c s₁ ok w).2 = some o) :
      infers (s.pc t) = some o := absurd ho (not_infers (afterStart_infers _ _ _ _))
  have hcmp : t = .comparison → (afterStart c s₁ ok w).2 ≠ .idle → s.pc .comparison ≠ .idle :=
    fun he _ => he ▸ hat
  have hgen : s₁.generating = s.app.generating := congrArg Policy.generating hstart.policy
  have hrun : s₁.compare.running = s.app.compare.running :=
    congrArg (·.compare.running) hstart.policy
  have hjob : s₁.job = s.app.job := congrArg Policy.job hstart.policy
  cases c with
  | boot => exact h.carries hstart.toCarries hinf hcmp fun he => by cases ht.mpr he
  | execution path id =>
      refine h.carries ?_ hinf hcmp fun he => by cases ht.mpr he
      cases ok with
      | true => exact hstart.toCarries
      | false =>
          exact hstart.toCarries.trans (startIdle_started hstart.owned (hstart.fails rfl).1 path id
            .cpu none w.again w.engine).toCarries
  | slot n | restore done =>
      exact h.calm hgen hrun hjob hinf hcmp fun he => by cases ht.mpr he
  | job =>
      obtain rfl := ht.mp rfl
      obtain ⟨s₂, heq, hfollow⟩ := afterStart_job s₁ ok w
      obtain ⟨hg, hc, hj⟩ := jobDone_flags s₂ true w
      have hgen₂ : s₂.generating = s₁.generating := (congrArg AppState.generating hfollow.rest :)
      have hrun₂ : s₂.compare = s₁.compare := (congrArg AppState.compare hfollow.rest :)
      rw [heq]
      exact h.jobEnds ((hg.trans hgen₂).trans hgen)
        ((congrArg Compare.running (hc.trans hrun₂)).trans hrun) hj

theorem afterStop_exclusive {s : Sys} (h : Exclusive s) {t : Thread} {k : Cont} {s₀ : AppState}
    {ch : Child} {w : World} (hc : Carries s.app s₀) (hstop : Stops s₀.child ch)
    (hk : Waiter k t) (hstart : starting k = false) (ht : t = .monitor ∨ s.pc t ≠ .idle)
    (hobs : ∀ {o a path id mode}, k = .observation o a path id mode →
      infers (s.pc t) = some o) :
    Exclusive (s.put t (roundEnd t (afterStop k (s₀.own ch) w) w)) := by
  have hown : Carries s.app (s₀.own ch) := hc.trans (own_carries hstop.toMoved)
  have hinf {o : Origin} (ho : infers (roundEnd t (afterStop k (s₀.own ch) w) w).2 = some o) :
      infers (s.pc t) = some o := by
    rw [roundEnd_snd] at ho
    exact absurd ho (not_infers (afterStop_infers _ _ _))
  have hpol := roundEnd_policy t (afterStop k (s₀.own ch) w) w
  have hmonitor (hm : t = .monitor) :
      Exclusive (s.put t (roundEnd t (afterStop k (s₀.own ch) w) w)) := by
    subst hm
    have hcarries := hown.trans (monitorStop_carries (s := s₀.own ch) w hstop.owned hstop.pid hk)
    have hall := hpol.trans hcarries.policy
    exact h.calm (congrArg Policy.generating hall) (congrArg (·.compare.running) hall)
      (congrArg Policy.job hall) hinf (fun he => by cases he) fun he => by cases he
  cases k with
  | start | refused => cases hstart
  | loadCancelled | timedOut | mismatch => exact hmonitor hk
  | observation o a path id mode =>
      rw [roundEnd_ne (observed_ne hk)]
      refine h.ends (hobs rfl) ?_ ?_ (afterStop_infers _ _ _) (owner_ne_job hk)
      · simp only [afterStop, afterObservation_fst]
        split
        · exact (congrArg (·.compare.running) (startIdle_started (s := s₀.own ch) hstop.owned
            hstop.pid path id mode none w.fault w.engine).policy).trans
            (congrArg (·.compare.running) hown.policy)
        · exact congrArg (·.compare.running) hown.policy
      · simp only [afterStop, afterObservation_fst]
        split
        · exact (congrArg Policy.job (startIdle_started (s := s₀.own ch) hstop.owned
            hstop.pid path id mode none w.fault w.engine).policy).trans
            (congrArg Policy.job hown.policy)
        · exact congrArg Policy.job hown.policy
  | stopRoute =>
      obtain ⟨i, rfl⟩ := hk
      rw [roundEnd_ne fun he => by cases he]
      exact h.calm (congrArg Policy.generating hown.policy)
        (congrArg (·.compare.running) hown.policy) (congrArg Policy.job hown.policy)
        (fun ho => absurd ho (not_infers rfl)) (fun he => by cases he) fun he => by cases he
  | removeRoute m unlinks saves =>
      obtain ⟨i, rfl⟩ := hk
      obtain ⟨hg, hr, hj⟩ := removed_flags (s₀.own ch) m unlinks saves
      rw [roundEnd_ne fun he => by cases he]
      exact h.calm (hg.trans (congrArg Policy.generating hown.policy))
        ((congrArg Compare.running hr).trans (congrArg (·.compare.running) hown.policy))
        (hj.trans (congrArg Policy.job hown.policy))
        (fun ho => absurd ho (not_infers rfl)) (fun he => by cases he) fun he => by cases he
  | exit =>
      obtain rfl := hk
      rw [roundEnd_ne fun he => by cases he]
      exact h.carries hown (fun ho => absurd ho (not_infers rfl)) (fun he => by cases he)
        fun he => by cases he

theorem starts_at {s : Sys} {t : Thread} {c : Caller} {r : Start} (h : Starts s t c r) :
    s.pc t ≠ .idle ∧ infers (s.pc t) = none ∧ (c = .job ↔ t = .job) := by
  cases h with
  | boot hpc | execution hpc | job hpc | slot hpc | restore hpc =>
      rw [hpc]
      exact ⟨fun hf => (by cases hf), rfl, by simp⟩

theorem startCont_at {s : Sys} {t : Thread} {c : Caller} {r : Start} {k : Cont} {wait : Wait}
    (hplaced : Placed t (s.pc t)) (hpc : s.pc t = .waiting wait k) (hk : StartCont c r k) :
    s.pc t ≠ .idle ∧ infers (s.pc t) = none ∧ (c = .job ↔ t = .job) := by
  rw [hpc] at hplaced ⊢
  have hw : Waiter (.refused c) t := by cases hk <;> exact hplaced
  refine ⟨fun hf => (by cases hf), by cases hk <;> rfl, ?_⟩
  cases c with
  | boot => exact hw.elim
  | job => exact ⟨fun _ => hw, fun _ => rfl⟩
  | execution =>
      obtain ⟨i, rfl⟩ := hw
      simp
  | slot | restore =>
      obtain rfl := hw
      simp

theorem calls_at {s : Sys} {t : Thread} {k : Cont} {cause : Option Nat} {s₀ : AppState}
    (h : Calls s t k cause s₀) : (t = .monitor ∨ s.pc t ≠ .idle) ∧ starting k = false ∧
      ∀ {wait o}, infers (.waiting wait k) = some o → infers (s.pc t) = some o := by
  cases h with
  | stopRoute hpc | removeRoute hpc | exit hpc =>
      rw [hpc]
      exact ⟨.inr fun hf => (by cases hf), rfl, fun ho => by cases ho⟩
  | cancelled | timedOut | mismatch => exact ⟨.inl rfl, rfl, fun ho => by cases ho⟩
  | observation hpc =>
      rw [hpc]
      exact ⟨.inr fun hf => (by cases hf), rfl, fun ho => ho⟩

theorem deed_exclusive {s : Sys} {t : Thread} {r : AppState × Pc} (hg : Grounded s)
    (h : Exclusive s) (hd : Deed s t r) : Exclusive (s.put t r) := by
  cases hd with
  | bootNothing hpc =>
      exact h.carries (.refl _) (fun ho => absurd ho (not_infers rfl)) (fun he => by cases he)
        fun he => by cases he
  | @bootJob m thread hpc =>
      have hinit := hg.fresh hpc
      have hpcs (t : Thread) (ht : t ≠ .main) : s.pc t = .idle := hinit.others t ht
      refine h.put (fun {t' o} ht ho => ?_) (fun ho => absurd ho (not_infers rfl)) (fun hc => ?_)
        fun hc => ?_
      · rw [hpcs t' ht] at ho
        cases ho
      · rw [put_pc_ne s _ (fun he => by cases he)] at hc
        exact absurd (hpcs .comparison fun he => by cases he) hc
      · rw [put_pc_ne s _ (fun he => by cases he)] at hc
        exact absurd (hpcs .job fun he => by cases he) hc
  | startWaits hs hk hc hlogs hprep hrev =>
      obtain ⟨hat, _, hjob⟩ := starts_at hs
      refine h.carries hc (fun ho => absurd ho (not_infers (by cases hk <;> rfl)))
        (fun he _ => he ▸ hat) fun he _ => h.working (he ▸ hat)
  | startDone hs hstart =>
      rcases hs with hs | ⟨wait, k, hpc, hk, _⟩
      · obtain ⟨hat, _, hjob⟩ := starts_at hs
        exact afterStart_exclusive h hstart hat hjob
      · obtain ⟨hat, _, hjob⟩ := startCont_at (hg.placed t) hpc hk
        exact afterStart_exclusive h hstart hat hjob
  | callWaits hcall hrev =>
      obtain ⟨hat, _, hinf⟩ := calls_at hcall
      exact h.carries (hcall.carries.trans (own_carries hrev.toMoved)) hinf
        (fun he _ => he ▸ hat.resolve_left (by rw [he]; exact fun hf => by cases hf))
        fun he _ => h.working (he ▸ hat.resolve_left (by rw [he]; exact fun hf => by cases hf))
  | stopped hk hc hstop =>
      rcases hk with ⟨cause, hcall⟩ | ⟨⟨wait, hpc⟩, hstart, _⟩
      · obtain ⟨hat, hstart, hinf⟩ := calls_at hcall
        exact afterStop_exclusive h hc hstop (calls_waiter hg.placed hcall) hstart hat
          fun he => @hinf ⟨0, 0, none⟩ _ (by rw [he]; rfl)
      · have hw := hg.placed t
        rw [hpc] at hw
        refine afterStop_exclusive h hc hstop hw hstart (.inr ?_) fun he => ?_
        · rw [hpc]
          exact fun hf => by cases hf
        · rw [hpc, he]
          rfl
  | wakeWaits hpc hsince hcause =>
      refine h.carries (.refl _) (fun ho => ?_) (fun he _ hf => ?_) fun he _ => h.working fun hf => ?_
      · rw [hpc, ← ho]
        exact infers_waiting _ _ _
      · rw [← he, hpc] at hf
        cases hf
      · rw [← he, hpc] at hf
        cases hf
  | accept hpc hi =>
      exact h.carries (.refl _) (fun ho => absurd ho (not_infers rfl)) (fun he => by cases he)
        fun he => by cases he
  | request hpc hr => exact plain_exclusive h hr
  | pollNothing hpc =>
      exact h.calm rfl rfl rfl (fun ho => absurd ho (not_infers rfl)) (fun he => by cases he)
        fun he => by cases he
  | pollEnded hpc hpid hstopping hflag hswitch hfail =>
      exact h.calm (congrArg Policy.generating hfail.policy)
        (congrArg (·.compare.running) hfail.policy) (congrArg Policy.job hfail.policy)
        (fun ho => absurd ho (not_infers rfl)) (fun he => by cases he) fun he => by cases he
  | pollPublished | monitorEnd | drain =>
      exact h.calm rfl rfl rfl (fun ho => absurd ho (not_infers rfl)) (fun he => by cases he)
        fun he => by cases he
  | jobStart hpc hrun =>
      exact h.calm rfl rfl rfl (fun ho => absurd ho (not_infers rfl)) (fun he => by cases he)
        fun _ _ => hrun
  | jobDone hpc =>
      obtain ⟨hgen, hc, hj⟩ := jobDone_flags s.app _ _
      exact h.jobEnds hgen (congrArg Compare.running hc) hj
  | connect hpc =>
      refine h.carries (.refl _) (fun ho => ?_) (fun he _ hf => ?_) fun he _ => h.working fun hf => ?_
      · rw [connects_infers] at ho
        rw [hpc]
        exact ho
      · rw [← he, hpc] at hf
        cases hf
      · rw [← he, hpc] at hf
        cases hf
  | answer hpc hr =>
      have hpol := answers_flags hr
      refine h.calm (congrArg Policy.generating hpol) (congrArg (·.compare.running) hpol)
        (congrArg Policy.job hpol) (fun ho => ?_) (fun he _ hf => ?_) fun he _ => h.working fun hf => ?_
      · rw [answers_snd hr] at ho
        rw [hpc]
        exact ho
      · rw [← he, hpc] at hf
        cases hf
      · rw [← he, hpc] at hf
        cases hf
  | observed hpc =>
      obtain ⟨hgen, hc, hj⟩ := observationEnd_flags s.app t _ _
      refine h.calm hgen (congrArg Compare.running hc) hj (fun ho => ?_) (fun he _ hf => ?_)
        fun he _ => h.working fun hf => ?_
      · rw [hpc]
        exact ho
      · rw [← he, hpc] at hf
        cases hf
      · rw [← he, hpc] at hf
        cases hf
  | @concluded _ o _ _ hpc =>
      have howner := hg.placed t
      rw [hpc] at howner
      have ho : infers (s.pc t) = some o := congrArg infers hpc
      exact h.ends ho (congrArg (·.compare.running) (afterObservation_fst _ _ _))
        (congrArg (·.job) (afterObservation_fst _ _ _)) (afterObservation_infers _ _ _)
        (owner_ne_job howner)
  | compare hr => exact compares_exclusive hg h hr

theorem initial_exclusive {s : Sys} (h : s.Initial) : Exclusive s := by
  have hidle (t : Thread) : infers (s.pc t) = none := by
    by_cases ht : t = .main
    · rw [ht, h.main]
      rfl
    · rw [h.others t ht]
      rfl
  refine ⟨fun ho => absurd ho (not_infers (hidle _)), fun ho => absurd ho (not_infers (hidle _)),
    fun ho => absurd ho (not_infers (hidle _)), fun hc => ?_, fun hj => ?_⟩
  · exact absurd (h.others .comparison fun he => by cases he) hc
  · exact absurd (h.others .job fun he => by cases he) hj

theorem step_exclusive {s s' : Sys} {act : Act} (hg : Grounded s) (h : Exclusive s)
    (hstep : s.step act = some s') : Exclusive s' := by
  rcases step_deed hg hstep with ⟨k, rfl, rfl⟩ | ⟨t, r, _, hd, rfl⟩
  · exact ⟨h.generating, h.alone, h.request, h.comparing, h.working⟩
  · exact deed_exclusive hg h hd

theorem reach_exclusive {s : Sys} {ok : Sys → Act → Prop} (h : appMachine.Reach ok s) :
    Grounded s ∧ Exclusive s := by
  refine h.invariant (I := fun s => Grounded s ∧ Exclusive s) (fun s hs => ?_)
    fun s act s' _ _ hstep hI => ?_
  · exact ⟨initial_grounded (s := s) hs, initial_exclusive hs⟩
  · exact ⟨step_grounded hI.1 hstep, step_exclusive hI.1 hI.2 hstep⟩

/-! ## The catalog -/

/-- A model load in progress: a process that is not ready yet, or a thread that is
in `start_child_mode`. -/
def Loading (s : Sys) : Prop :=
  (s.app.child.pid ≠ none ∧ s.app.child.ready = false) ∨
    ∃ t wait k, s.pc t = .waiting wait k ∧ starting k = true

/-- A job, a generation, a comparison or a model load in progress. -/
def Busy (s : Sys) : Prop :=
  (s.app.job.running = true ∨ s.pc .job ≠ .idle) ∨
  (s.app.generating = true ∨ ∃ t o, infers (s.pc t) = some o) ∨
  (s.app.compare.running = true ∨ s.pc .comparison ≠ .idle) ∨ Loading s

/-- While a change of the execution mode waits in its `start_child_mode`, no step
of another thread takes away the process that it stops. -/
def Attended (s : Sys) (act : Act) : Prop :=
  ∀ s', s.step act = some s' → s'.app.child.pid ≠ s.app.child.pid →
    ∀ t wait k path id, s.pc t = .waiting wait k →
      k = .refused (.execution path id) ∨ (∃ r, k = .start r (.execution path id)) →
      act.thread = some t

/-- A change of the execution mode that waits still has the process it stops. -/
def Stopping (s : Sys) : Prop :=
  ∀ t wait k path id, s.pc t = .waiting wait k →
    k = .refused (.execution path id) ∨ (∃ r, k = .start r (.execution path id)) →
    s.app.child.pid ≠ none ∧ s.app.child.stopping = true ∧ s.app.child.ready = false

theorem afterStart_models {s : AppState} (c : Caller) {ok : Bool} (w : World)
    (h : Owned False s.child) (hok : ok = false → s.child.pid = none) :
    (afterStart c s ok w).1.models = s.models := by
  cases c with
  | boot | slot n | restore done => rfl
  | execution path id =>
      cases ok with
      | true => rfl
      | false =>
          exact congrArg Policy.models
            (startIdle_started h (hok rfl) path id .cpu none w.again w.engine).policy
  | job =>
      obtain ⟨s₂, heq, hfollow⟩ := afterStart_job s ok w
      rw [heq]
      exact (congrArg AppState.models (jobDone_rest s₂ true w) :).trans
        (congrArg AppState.models hfollow.rest :)

theorem afterStop_models {s : AppState} {k : Cont} (w : World) (h : Owned False s.child)
    (hpid : s.child.pid = none) (hk : starting k = false) :
    (afterStop k s w).1.models = s.models := by
  cases k with
  | start | refused => cases hk
  | loadCancelled p cause =>
      exact congrArg Policy.models
        (monitorStop_carries (k := .loadCancelled p cause) w h hpid rfl).policy
  | timedOut p =>
      exact congrArg Policy.models (monitorStop_carries (k := .timedOut p) w h hpid rfl).policy
  | mismatch p =>
      exact congrArg Policy.models (monitorStop_carries (k := .mismatch p) w h hpid rfl).policy
  | observation o a path id mode =>
      simp only [afterStop, afterObservation_fst]
      split
      · exact congrArg Policy.models
          (startIdle_started h hpid path id mode none w.fault w.engine).policy
      · rfl
  | removeRoute m unlinks saves =>
      exact (congrArg AppState.models (removed_rest s m unlinks saves) :)
  | stopRoute | exit => rfl

/-- The table is replaced by a catalog request that finds the app at rest. -/
theorem deed_models {s : Sys} {t : Thread} {r : AppState × Pc} (hd : Deed s t r) :
    r.1.models = s.app.models ∨
      Supervisor.Quiet s.app ∧ (s.app.child.pid.isSome → s.app.child.ready = true) := by
  cases hd with
  | startWaits hs hk hc hlogs hprep hrev => exact .inl (congrArg Policy.models hc.policy)
  | startDone hs hstart =>
      exact .inl ((afterStart_models _ _ hstart.owned fun hf => (hstart.fails hf).1).trans
        (congrArg Policy.models hstart.policy))
  | callWaits hcall hrev => exact .inl (congrArg Policy.models hcall.carries.policy)
  | @stopped _ k s₀ ch w hk hc hstop =>
      have hstart : starting k = false := by
        rcases hk with ⟨cause, hcall⟩ | ⟨_, hstart, _⟩
        · exact (calls_at hcall).2.1
        · exact hstart
      exact .inl ((congrArg Policy.models (roundEnd_policy _ _ _)).trans
        ((afterStop_models (s := s₀.own ch) w hstop.owned hstop.pid hstart).trans
          (congrArg Policy.models hc.policy)))
  | request hpc hr =>
      cases hr with
      | catalog hq hload => exact .inr ⟨hq, hload⟩
      | removed => exact .inl (congrArg AppState.models (removed_rest s.app _ _ _) :)
      | @background m thread => exact .inl (congrArg AppState.models (beginJob_rest s.app m _ _ _) :)
      | @switch m thread => exact .inl (congrArg AppState.models (beginJob_rest s.app m _ _ _) :)
      | @select m download thread =>
          exact .inl (congrArg AppState.models (beginJob_rest (s.app.saveSelection _) m _ _ _) :)
      | _ => exact .inl rfl
  | @bootJob m thread hpc => exact .inl (congrArg AppState.models (beginJob_rest s.app m _ _ _) :)
  | pollEnded hpc hpid hstopping hflag hswitch hfail =>
      exact .inl (congrArg Policy.models hfail.policy)
  | jobDone => exact .inl (congrArg AppState.models (jobDone_rest s.app _ _) :)
  | answer hpc hr => exact .inl (congrArg Policy.models (answers_flags hr))
  | observed => exact .inl (congrArg AppState.models (observationEnd_rest s.app t _ _) :)
  | concluded => exact .inl (by simp only [afterObservation_fst])
  | compare hr =>
      generalize s.pc .comparison = pc at hr
      cases hr <;> exact .inl rfl
  | bootNothing | wakeWaits | accept | pollNothing | pollPublished | monitorEnd | jobStart
  | connect | drain => exact .inl rfl

/-- A process that is stopped and not taken away stays stopped. -/
theorem stopping_stays {c c' : Child} (hm : Moved c c') (hc : Owned False c)
    (hc' : Owned False c') (hpid : c'.pid = c.pid) (hne : c.pid ≠ none)
    (hstop : c.stopping = true) (hready : c.ready = false) :
    c'.stopping = true ∧ c'.ready = false := by
  obtain ⟨k, hk⟩ := Option.ne_none_iff_exists'.mp hne
  have hgen : c'.generation = c.generation := (hc'.last (hpid.trans hk)).symm.trans (hc.last hk)
  exact (hm.still hgen).stopping hpid hne hstop hready

theorem step_stopping {s s' : Sys} {act : Act} (hg : Grounded s) (hok : Attended s act)
    (hstep : s.step act = some s') (h : Stopping s) : Stopping s' := by
  have howned' := (step_grounded hg hstep).owned
  intro t wait k path id hpc hk
  rcases step_deed hg hstep with ⟨n, rfl, rfl⟩ | ⟨t', r, hact, hd, rfl⟩
  · obtain ⟨hne, hstop, hready⟩ := h t wait k path id hpc hk
    have hm := exit_moved s.app.child n
    have hpid : (s.app.child.exit n).pid = s.app.child.pid := by
      unfold Child.exit
      split <;> rfl
    obtain ⟨hstop', hready'⟩ := stopping_stays hm hg.owned howned' hpid hne hstop hready
    exact ⟨fun hnone => hne (hpid.symm.trans hnone), hstop', hready'⟩
  · by_cases ht : t = t'
    · subst ht
      rw [put_pc_same] at hpc
      rcases deed_waits hd hpc with ⟨c, q, hs, _, _, hrev⟩ | ⟨cause, s₀, hcall, _⟩ |
        ⟨wait₀, hpc₀, _, _, heq⟩
      · obtain ⟨n, hn⟩ := hrev.alive
        refine ⟨fun hnone => ?_, hrev.stopped, hrev.unready⟩
        rw [put_app, hrev.pid, hn] at hnone
        cases hnone
      · have := (calls_at hcall).2.1
        rcases hk with rfl | ⟨q, rfl⟩ <;> cases this
      · rw [put_app, heq]
        exact h t wait₀ k path id hpc₀ hk
    · rw [put_pc_ne s r ht] at hpc
      obtain ⟨hne, hstop, hready⟩ := h t wait k path id hpc hk
      have hpid : r.1.child.pid = s.app.child.pid := by
        by_contra hchanged
        have := hok (s.put t' r) hstep hchanged t wait k path id hpc hk
        rw [hact] at this
        exact ht (Option.some.inj this).symm
      obtain ⟨hstop', hready'⟩ := stopping_stays (deed_moved hg hd) hg.owned howned' hpid hne hstop
        hready
      exact ⟨fun hnone => hne (hpid.symm.trans hnone), hstop', hready'⟩

theorem reach_stopping {s : Sys} (h : appMachine.Reach Attended s) :
    Grounded s ∧ Exclusive s ∧ Stopping s := by
  refine h.invariant (I := fun s => Grounded s ∧ Exclusive s ∧ Stopping s) (fun s hs => ?_)
    fun s act s' _ hok hstep hI => ?_
  · refine ⟨initial_grounded (s := s) hs, initial_exclusive hs, fun t wait k path id hpc => ?_⟩
    have hs : s.Initial := hs
    by_cases ht : t = .main
    · rw [ht, hs.main] at hpc
      cases hpc
    · rw [hs.others t ht] at hpc
      cases hpc
  · obtain ⟨hg, he, hst⟩ := hI
    exact ⟨step_grounded hg hstep, step_exclusive hg he hstep, step_stopping hg hok hstep hst⟩

/-- The app at rest has nothing in progress. -/
theorem quiet_not_busy {s : Sys} (hg : Grounded s) (he : Exclusive s) (hst : Stopping s)
    (hq : Supervisor.Quiet s.app) (hload : s.app.child.pid.isSome → s.app.child.ready = true) : ¬ Busy s := by
  have hjob : s.pc .job = .idle := by
    by_contra hne
    have := he.working hne
    rw [hq.job] at this
    cases this
  have hcompare : s.pc .comparison = .idle := by
    by_contra hne
    have := he.comparing hne
    rw [hq.compare] at this
    cases this
  have hloaded (hpid : s.app.child.pid ≠ none) (hready : s.app.child.ready = false) : False := by
    have := hload (Option.isSome_iff_ne_none.mpr hpid)
    rw [hready] at this
    cases this
  rintro ((hj | hj) | (hgen | ⟨t, o, ho⟩) | (hc | hc) | ⟨hpid, hready⟩ | ⟨t, wait, k, hpc, hk⟩)
  · rw [hq.job] at hj
    cases hj
  · exact hj hjob
  · rw [hq.generating] at hgen
    cases hgen
  · have := he.generating ho
    rw [hq.generating] at this
    cases this
  · rw [hq.compare] at hc
    cases hc
  · exact hc hcompare
  · exact hloaded hpid hready
  · obtain ⟨c, q, hcont⟩ := startCont_iff hk
    have hw := hg.placed t
    rw [hpc] at hw
    have hw : Waiter (.refused c) t := by cases hcont <;> exact hw
    cases c with
    | boot => exact hw.elim
    | job =>
        obtain rfl := hw
        rw [hjob] at hpc
        cases hpc
    | slot n | restore ok =>
        obtain rfl := hw
        rw [hcompare] at hpc
        cases hpc
    | execution path id =>
        have hexec : k = .refused (.execution path id) ∨ ∃ r, k = .start r (.execution path id) := by
          cases hcont with
          | start => exact .inr ⟨_, rfl⟩
          | refused => exact .inl rfl
        obtain ⟨hpid, _, hready⟩ := hst t wait k path id hpc hexec
        exact hloaded hpid hready

/-- A start whose time is up is being stopped when the next model is chosen; the
change of the mode that comes then stops the new process, and loses it to the
monitor. -/
def modeChange : List Act :=
  boots ++ selects 0 3 ++
    [.poll { timedOut := true } {}, .exit 1, .jobEnd true {}, .accept 1, .handle 1 .stop {},
      .exit 2, .wake .monitor {}] ++
    selects 2 3 ++
    [.jobEnd true {}, .poll { answers := some none } {}, .accept 3, .handle 3 (.execution .gpu) {},
      .exit 3, .wake (.worker 1) {}, .accept 4]

/-- The thread waits for a process to stop before it starts another. -/
def waitsToStart : Pc → Bool
  | .waiting _ k => starting k
  | _ => false

end GeistServe.Proofs
