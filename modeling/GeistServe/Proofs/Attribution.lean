import GeistServe.Proofs.Admission

/-!
# Whose figures a record holds

A record is filled in when it is begun; the socket path is read, the answer is
generated and the samples are taken later. `Attributed` says what then holds as
long as no process is started while a record is open and every record is begun
with a ready process: the process of the record is the one that answers and the
one that is sampled.
-/

namespace GeistServe.Proofs

open GeistServe.Lib GeistServe.Supervisor

/-- The places of a thread whose record is open. -/
def opens : Pc → Bool
  | .admitted _ | .inferring .. | .answered .. => true
  | _ => false

theorem opens_infers {pc : Pc} (h : opens pc = true) : ∃ o, infers pc = some o := by
  cases pc with
  | admitted o | inferring o k | answered o a => exact ⟨o, rfl⟩
  | _ => cases h

/-- A background download is running. -/
def background (s : AppState) : Bool := s.job.running && !s.job.activate

/-! ## What a step does to the records -/

/-- What a section leaves of the records that it does not work on. -/
structure Beside (s s' : AppState) : Prop where
  generation : s.child.generation ≤ s'.child.generation
  observe : s'.observe = s.observe
  submitted : s'.submitted = s.submitted
  records : ∀ t, Sampled s.child.generation s'.child.generation (s.records t) (s'.records t)
  contention : ∀ t, (s'.records t).contention = (s.records t).contention
  downloads : background s' = true → background s = true

theorem Beside.refl (s : AppState) : Beside s s :=
  ⟨Nat.le_refl _, rfl, rfl, fun _ => .refl _ _ _, fun _ => rfl, id⟩

theorem Beside.trans {s s' s'' : AppState} (h : Beside s s') (h' : Beside s' s'') : Beside s s'' :=
  ⟨h.generation.trans h'.generation, h'.observe.trans h.observe, h'.submitted.trans h.submitted,
    fun t => (h.records t).trans h.generation h'.generation (h'.records t),
    fun t => (h'.contention t).trans (h.contention t), fun hb => h.downloads (h'.downloads hb)⟩

theorem Carries.beside {s s' : AppState} (h : Carries s s') : Beside s s' := by
  refine ⟨h.child.generation, congrArg Policy.observe h.policy, congrArg Policy.submitted h.policy,
    h.records, h.contention, fun hb => ?_⟩
  have hjob : s'.job = s.job := congrArg Policy.job h.policy
  unfold background at hb ⊢
  rw [← hjob]
  exact hb

theorem Beside.of_eq {s s' : AppState} (hgen : s'.child.generation = s.child.generation)
    (hobs : s'.observe = s.observe) (hsub : s'.submitted = s.submitted)
    (hrec : s'.records = s.records) (hback : background s' = true → background s = true) :
    Beside s s' :=
  ⟨Nat.le_of_eq hgen.symm, hobs, hsub, fun t => by rw [hrec]; exact .refl _ _ _,
    fun t => by rw [hrec], hback⟩

theorem roundEnd_beside {t : Thread} {r : AppState × Pc} (w : World)
    (h : Owned False r.1.child) : Beside r.1 (roundEnd t r w).1 := by
  unfold roundEnd
  split
  · exact (sample_carries r.1 w.samples fun k hk => h.last hk).beside
  · exact .refl _

theorem jobDone_beside (s : AppState) (ok : Bool) (w : World) : Beside s (s.jobDone ok w) := by
  have hrest := jobDone_rest s ok w
  exact .of_eq (congrArg (·.child.generation) hrest :) (congrArg AppState.observe hrest :)
    (congrArg AppState.submitted hrest :) (congrArg AppState.records hrest :)
    (fun hb => by cases hb)

/-- A job that replaces the process, or makes the first one, is begun beside no record
that it would mark. -/
theorem beginJob_beside (s : AppState) (m : Model) {download : Bool} (thread : Bool)
    (h : download = false ∨ s.observe = none) : Beside s (beginJob s m download true thread) := by
  have hrest := beginJob_rest s m download true thread
  refine .of_eq (congrArg (·.child.generation) hrest :) (congrArg AppState.observe hrest :)
    (congrArg AppState.submitted hrest :) ?_ fun hb => ?_
  · unfold beginJob
    simp only
    split
    · rfl
    · rcases h with rfl | hnone
      · cases hobs : s.observe <;> cases thread <;>
          simp [AppState.beginLoad, AppState.endLoad, hobs]
      · cases thread <;> simp [AppState.beginLoad, AppState.endLoad, hnone]
  · rcases beginJob_job s m download true thread with heq | ⟨op, heq⟩
    · unfold background at hb ⊢
      rw [heq] at hb
      exact hb
    · unfold background at hb
      rw [heq] at hb
      simp at hb

theorem removed_beside (s : AppState) (m : Model) (unlinks saves : Bool) :
    Beside s (s.removed m unlinks saves) := by
  have hrest := removed_rest s m unlinks saves
  have hjob : (s.removed m unlinks saves).job = s.job := (congrArg AppState.job hrest :)
  exact .of_eq (congrArg (·.child.generation) hrest :) (congrArg AppState.observe hrest :)
    (congrArg AppState.submitted hrest :) (congrArg AppState.records hrest :)
    (fun hb => by unfold background at hb ⊢; rw [← hjob]; exact hb)

theorem afterStart_beside {s : AppState} (c : Caller) {ok : Bool} (w : World)
    (h : Owned False s.child) (hok : ok = false → s.child.pid = none) :
    Beside s (afterStart c s ok w).1 := by
  cases c with
  | boot | slot n | restore done => exact .of_eq rfl rfl rfl rfl id
  | execution path id =>
      cases ok with
      | true => exact .refl s
      | false =>
          exact (startIdle_started h (hok rfl) path id .cpu none w.again w.engine).toCarries.beside
  | job =>
      obtain ⟨s₁, heq, hfollow⟩ := afterStart_job s ok w
      have hsame : Beside s s₁ := by
        refine .of_eq (congrArg (·.child.generation) hfollow.rest :)
          (congrArg AppState.observe hfollow.rest :) (congrArg AppState.submitted hfollow.rest :)
          (congrArg AppState.records hfollow.rest :) fun hb => ?_
        unfold background at hb ⊢
        rw [hfollow.job] at hb
        exact hb
      rw [heq]
      exact hsame.trans (jobDone_beside s₁ true w)

theorem afterStop_beside {s : AppState} {k : Cont} (w : World) (h : Owned False s.child)
    (hpid : s.child.pid = none) (hk : starting k = false) : Beside s (afterStop k s w).1 := by
  cases k with
  | start | refused => cases hk
  | loadCancelled p cause =>
      exact (monitorStop_carries (k := .loadCancelled p cause) w h hpid rfl).beside
  | timedOut p => exact (monitorStop_carries (k := .timedOut p) w h hpid rfl).beside
  | mismatch p => exact (monitorStop_carries (k := .mismatch p) w h hpid rfl).beside
  | observation o a path id mode =>
      have hend (s' : AppState) : Beside s' { s' with generating := false } :=
        .of_eq rfl rfl rfl rfl fun hb => hb
      simp only [afterStop, afterObservation_fst]
      split
      · exact (startIdle_started h hpid path id mode none w.fault w.engine).toCarries.beside.trans
          (hend _)
      · exact (endLoad_carries s _).beside.trans (hend _)
  | removeRoute m unlinks saves => exact removed_beside s m unlinks saves
  | stopRoute | exit => exact .of_eq rfl rfl rfl rfl id

/-- A background download marks the record that is attached. -/
theorem download_records (s : AppState) (m : Model) (thread : Bool) :
    (beginJob s m true false thread).records = s.records ∧
        (beginJob s m true false thread).job = s.job ∨
      background (beginJob s m true false thread) = thread ∧
        (beginJob s m true false thread).records = match s.observe with
          | some t => Function.update s.records t { s.records t with contention := true }
          | none => s.records := by
  unfold beginJob background
  simp only
  split
  · exact .inl ⟨rfl, rfl⟩
  · right
    cases thread <;> exact ⟨rfl, rfl⟩

theorem download_sampled (s : AppState) (m : Model) (thread : Bool) (g : Nat) (t : Thread) :
    Sampled g g (s.records t) ((beginJob s m true false thread).records t) := by
  rcases download_records s m thread with ⟨heq, _⟩ | ⟨_, heq⟩
  · rw [heq]
    exact .refl _ _ _
  · rw [heq]
    cases hobs : s.observe with
    | none => exact .refl _ _ _
    | some t' =>
        simp only
        by_cases ht : t = t'
        · subst ht
          rw [Function.update_self]
          exact ⟨rfl, rfl, rfl, rfl, rfl, rfl, fun _ hx => .inl hx⟩
        · rw [Function.update_of_ne ht]
          exact .refl _ _ _

/-- A record that has just been begun. -/
structure Fresh (c : Child) (r : Record) : Prop where
  generation : r.generation = c.generation
  backend : r.backend = c.active
  engine : r.engine = c.engine
  samples : ∀ x ∈ r.rss ++ r.memory, x = c.generation

/-- A step beside the records, or a part of the life of one. -/
inductive Recording (s : Sys) (t : Thread) : AppState × Pc → Prop where
  | aside {r : AppState × Pc} (hclosed : opens (s.pc t) = false) (hafter : opens r.2 = false)
      (hbeside : Beside s.app r.1) : Recording s t r
  | begun {o : Origin} {s' : AppState} (hclosed : infers (s.pc t) = none)
      (hobs : s'.observe = some t) (hsub : s'.submitted = s.app.submitted)
      (hchild : s'.child = s.app.child)
      (hrec : ∀ t', t' ≠ t → s'.records t' = s.app.records t') (hjob : s'.job = s.app.job)
      (hfresh : Fresh s.app.child (s'.records t))
      (hmark : (s'.records t).contention = background s.app) : Recording s t (s', .admitted o)
  | download {m : Model} {thread : Bool} (hpc : s.pc t = .accepted) :
      Recording s t (beginJob s.app m true false thread, .idle)
  | connected {o : Origin} {succeeds : Bool} {a : Answer} (h : s.pc t = .admitted o) :
      Recording s t (s.app, connects s.app o succeeds a)
  | answered {o : Origin} {k : Nat} {a : Answer} {r : AppState × Pc}
      (h : s.pc t = .inferring o k) (hr : answers s.app t o k a = some r) : Recording s t r
  | observed {o : Origin} {a : Answer} {w : World} (h : s.pc t = .answered o a) :
      Recording s t ((s.app.observationEnd t a w).1, .observed o a (s.app.observationEnd t a w).2)

theorem opens_false {pc : Pc} (h : infers pc = none) : opens pc = false := by
  cases pc with
  | admitted | inferring | answered => cases h
  | _ => rfl

theorem observationBegin_fresh (s : AppState) (t : Thread) (w : World)
    (hlast : ∀ k, s.child.pid = some k → k = s.child.generation) :
    Fresh s.child ((s.observationBegin t w).records t) ∧
      ((s.observationBegin t w).records t).contention = background s ∧
      ∀ t', t' ≠ t → (s.observationBegin t w).records t' = s.records t' := by
  unfold AppState.observationBegin
  simp only
  generalize hs₁ : ({ s.beginRequest s.child.generation with
    requestCancelled := .clear, observe := some t, records := Function.update _ t _ } :
      AppState) = s₁
  have hchild : s₁.child = s.child := by rw [← hs₁]; rfl
  have hnew : Fresh s.child (s₁.records t) := by
    rw [← hs₁]
    simp only [Function.update_self]
    exact ⟨rfl, rfl, rfl, fun x hx => by cases hx⟩
  have hmark : (s₁.records t).contention = background s := by
    rw [← hs₁]
    simp only [Function.update_self]
    rfl
  have hrec (t' : Thread) (ht : t' ≠ t) : s₁.records t' = s.records t' := by
    rw [← hs₁]
    exact Function.update_of_ne ht ..
  have hsampled := (sample_carries s₁ w.samples fun k hk => by
    rw [hchild] at hk ⊢
    exact hlast k hk).records t
  refine ⟨⟨hsampled.generation.trans hnew.generation, hsampled.backend.trans hnew.backend,
    hsampled.engine.trans hnew.engine, fun x hx => ?_⟩,
    (sample_contention s₁ w.samples t).trans hmark, fun t' ht => ?_⟩
  · rcases hsampled.samples x hx with hx | ⟨hlo, hhi⟩
    · exact hnew.samples x hx
    · rw [sample_child, hchild] at hhi
      rw [hchild] at hlo
      exact Nat.le_antisymm hhi hlo
  · rcases sample_records s₁ w.samples with heq | ⟨t'', k, hobs, _, heq⟩
    · rw [heq]
      exact hrec t' ht
    · have ht'' : t'' = t := by
        rw [← hs₁] at hobs
        exact (Option.some.inj hobs).symm
      rw [heq, ht'', Function.update_of_ne ht]
      exact hrec t' ht

theorem calls_closed {s : Sys} {t : Thread} {k : Cont} {cause : Option Nat} {s₀ : AppState}
    (h : Calls s t k cause s₀) : opens (s.pc t) = false := by
  cases h with
  | stopRoute hpc | removeRoute hpc | cancelled hpc | timedOut hpc | mismatch hpc
  | observation hpc | exit hpc =>
      rw [hpc]
      rfl

theorem plain_recording {s : Sys} {i : Fin WORKER_CAP} {w : World} {r : AppState × Pc}
    (hpc : s.pc (.worker i) = .accepted)
    (hlast : ∀ k, s.app.child.pid = some k → k = s.app.child.generation)
    (hrest : s.app.generating = false → s.app.observe = none)
    (hr : Supervisor.Plain s.app (.worker i) w r) : Recording s (.worker i) r := by
  have hclosed : opens (s.pc (.worker i)) = false := by rw [hpc]; rfl
  cases hr with
  | admitted =>
      obtain ⟨hfresh, hmark, hrec⟩ :=
        observationBegin_fresh { s.app with generating := true } (.worker i) w hlast
      exact .begun (by rw [hpc]; rfl) rfl rfl rfl hrec rfl hfresh hmark
  | removed => exact .aside hclosed rfl (removed_beside ..)
  | background => exact .download hpc
  | switch => exact .aside hclosed rfl (beginJob_beside s.app _ _ (.inl rfl))
  | @select m download thread hstopping hq hpid =>
      have hsaved : Beside s.app (s.app.saveSelection (some m.id)) := .of_eq rfl rfl rfl rfl id
      exact .aside hclosed rfl
        (hsaved.trans (beginJob_beside _ _ _ (.inr (hrest hq.generating))))
  | _ => exact .aside hclosed rfl (.of_eq rfl rfl rfl rfl id)

theorem compares_recording {s : Sys} {w : World} {r : AppState × Pc}
    (hlast : ∀ k, s.app.child.pid = some k → k = s.app.child.generation)
    (hr : Compares s.app w (s.pc .comparison) r) : Recording s .comparison r := by
  generalize hpc : s.pc .comparison = pc at hr
  cases hr with
  | repetition =>
      obtain ⟨hfresh, hmark, hrec⟩ :=
        observationBegin_fresh { s.app with generating := true } .comparison w hlast
      exact .begun (by rw [hpc]; rfl) rfl rfl rfl hrec rfl hfresh hmark
  | _ => exact .aside (by rw [hpc]; rfl) rfl (.of_eq rfl rfl rfl rfl id)

theorem deed_recording {s : Sys} {t : Thread} {r : AppState × Pc} (hg : Grounded s)
    (hd : Deed s t r) (howned : Owned False r.1.child)
    (hrest : s.app.generating = false → s.app.observe = none) : Recording s t r := by
  have hlast (k : Nat) (hk : s.app.child.pid = some k) : k = s.app.child.generation :=
    hg.owned.last hk
  have hopen (hpc : infers (s.pc t) = none) : opens (s.pc t) = false := opens_false hpc
  cases hd with
  | bootNothing hpc | drain hpc =>
      exact .aside (by rw [hpc]; rfl) rfl (.of_eq rfl rfl rfl rfl id)
  | bootJob hpc => exact .aside (by rw [hpc]; rfl) rfl (beginJob_beside _ _ _ (.inl rfl))
  | startWaits hs hk hc hlogs hprep hrev =>
      exact .aside (opens_false (starts_at hs).2.1) rfl hc.beside
  | startDone hs hstart =>
      refine .aside (opens_false ?_) (opens_false (afterStart_infers ..))
        (hstart.toCarries.beside.trans (afterStart_beside _ _ hstart.owned
          fun hf => (hstart.fails hf).1))
      rcases hs with hs | ⟨wait, k, hpc, hk, _⟩
      · exact (starts_at hs).2.1
      · exact (startCont_at (hg.placed t) hpc hk).2.1
  | callWaits hcall hrev =>
      exact .aside (calls_closed hcall) rfl
        (hcall.carries.trans (own_carries hrev.toMoved)).beside
  | @stopped _ k s₀ ch w hk hc hstop =>
      obtain ⟨hclosed, hstart⟩ : opens (s.pc t) = false ∧ starting k = false := by
        rcases hk with ⟨cause, hcall⟩ | ⟨⟨wait, hpc⟩, hstart, _⟩
        · exact ⟨calls_closed hcall, (calls_at hcall).2.1⟩
        · exact ⟨by rw [hpc]; rfl, hstart⟩
      rw [roundEnd_child] at howned
      refine .aside hclosed ?_ ?_
      · rw [roundEnd_snd]
        exact opens_false (afterStop_infers ..)
      · exact ((hc.trans (own_carries hstop.toMoved)).beside.trans
          (afterStop_beside (s := s₀.own ch) w hstop.owned hstop.pid hstart)).trans
          (roundEnd_beside w howned)
  | wakeWaits hpc hsince hcause => exact .aside (by rw [hpc]; rfl) rfl (.refl _)
  | accept hpc hi => exact .aside (by rw [hi]; rfl) rfl (.refl _)
  | request hpc hr => exact plain_recording hpc hlast hrest hr
  | pollNothing hpc =>
      exact .aside (by rw [hpc]; rfl) rfl (sample_carries s.app _ hlast).beside
  | @pollEnded _ _ s₁ _ hpc hpid hstopping hflag hswitch hfail =>
      exact .aside (by rw [hpc]; rfl) rfl (hfail.toCarries.beside.trans
        (sample_carries s₁ _ fun k hk => howned.last hk).beside)
  | @pollPublished _ saves _ hpc hpid hstopping hready hflag =>
      obtain ⟨p, hp, _⟩ := hg.owned.alive hpid
      exact .aside (by rw [hpc]; rfl) rfl ((published_carries hpid hp hstopping saves).beside.trans
        (sample_carries ((s.app.own s.app.child.identified).published saves) _
          fun k hk => howned.last hk).beside)
  | monitorEnd hpc => exact .aside (by rw [hpc]; rfl) rfl (.refl _)
  | jobStart hpc hrun => exact .aside (by rw [hpc]; rfl) rfl (.refl _)
  | jobDone hpc => exact .aside (by rw [hpc]; rfl) rfl (jobDone_beside ..)
  | connect hpc => exact .connected hpc
  | answer hpc hr => exact .answered hpc hr
  | observed hpc => exact .observed hpc
  | concluded hpc =>
      refine .aside (by rw [hpc]; rfl) (opens_false (afterObservation_infers ..)) ?_
      rw [afterObservation_fst]
      exact .of_eq rfl rfl rfl rfl id
  | compare hr => exact compares_recording hlast hr

/-- The record that is attached is the one of the thread whose inference is open. -/
def Attached (s : Sys) : Prop := ∀ t, s.app.observe = some t ↔ opens (s.pc t) = true

theorem put_opens {s : Sys} {t : Thread} {r : AppState × Pc}
    (hopen : opens r.2 = opens (s.pc t)) (t' : Thread) :
    opens ((s.put t r).pc t') = opens (s.pc t') := by
  by_cases ht : t' = t
  · rw [ht, put_pc_same, hopen]
  · rw [put_pc_ne s r ht]

theorem Attached.keeps {s : Sys} {t : Thread} {r : AppState × Pc} (h : Attached s)
    (hobs : r.1.observe = s.app.observe) (hopen : opens r.2 = opens (s.pc t)) :
    Attached (s.put t r) := by
  intro t'
  rw [put_opens hopen, put_app, hobs]
  exact h t'

theorem connects_opens (s : AppState) (o : Origin) (succeeds : Bool) (a : Answer) :
    opens (connects s o succeeds a) = true := by
  unfold connects
  split
  · split <;> rfl
  · rfl

/-- No other inference is open beside one that is admitted. -/
theorem others_closed {s : Sys} {t : Thread} {r : AppState × Pc} {o : Origin}
    (he : Exclusive (s.put t r)) (ho : infers r.2 = some o) {t' : Thread} (ht : t' ≠ t) :
    opens (s.pc t') = false := by
  refine opens_false ?_
  cases ho' : infers (s.pc t') with
  | none => rfl
  | some o' =>
      have hthere : infers ((s.put t r).pc t') = some o' := by
        rw [put_pc_ne s r ht]
        exact ho'
      have hhere : infers ((s.put t r).pc t) = some o := by
        rw [put_pc_same]
        exact ho
      exact absurd (he.alone hthere hhere) ht

theorem recording_attached {s : Sys} {t : Thread} {r : AppState × Pc}
    (he : Exclusive (s.put t r)) (h : Attached s) (hr : Recording s t r) :
    Attached (s.put t r) := by
  cases hr with
  | aside hclosed hafter hbeside => exact h.keeps hbeside.observe (hafter.trans hclosed.symm)
  | @begun o s' hclosed hobs hsub hchild hrec hjob hfresh hmark =>
      intro t'
      by_cases ht : t' = t
      · rw [ht, put_pc_same, put_app, hobs]
        exact ⟨fun _ => rfl, fun _ => rfl⟩
      · rw [put_pc_ne _ _ ht, put_app, hobs, others_closed he rfl ht]
        exact ⟨fun heq => absurd (Option.some.inj heq).symm ht, fun hf => by cases hf⟩
  | @download m thread hpc =>
      refine h.keeps (congrArg AppState.observe (beginJob_rest s.app m true false thread) :) ?_
      rw [hpc]
      rfl
  | @connected o succeeds a hpc =>
      refine h.keeps rfl ?_
      rw [connects_opens, hpc]
      rfl
  | answered hpc hr =>
      refine h.keeps (congrArg Policy.observe (answers_flags hr)) ?_
      rw [answers_snd hr, hpc]
      rfl
  | @observed o a w hpc =>
      intro t'
      by_cases ht : t' = t
      · rw [ht, put_pc_same]
        exact ⟨fun hf => (by cases hf), fun hf => by cases hf⟩
      · rw [put_pc_ne _ _ ht]
        refine ⟨fun hf => (by cases hf), fun hopen => ?_⟩
        have hhere : s.app.observe = some t := (h t).mpr (by rw [hpc]; rfl)
        exact absurd (Option.some.inj (((h t').mpr hopen).symm.trans hhere)) ht

theorem unattached {s : Sys} (he : Exclusive s) (h : Attached s)
    (hgen : s.app.generating = false) : s.app.observe = none := by
  cases hobs : s.app.observe with
  | none => rfl
  | some t =>
      obtain ⟨o, ho⟩ := opens_infers ((h t).mp hobs)
      have hon := he.generating ho
      rw [hgen] at hon
      cases hon

theorem initial_closed {s : Sys} (h : s.Initial) (t : Thread) : opens (s.pc t) = false := by
  by_cases ht : t = .main
  · rw [ht, h.main]
    rfl
  · rw [h.others t ht]
    rfl

theorem initial_attached {s : Sys} (h : s.Initial) : Attached s := by
  intro t
  rw [h.observe, initial_closed h]
  exact ⟨fun hf => (by cases hf), fun hf => by cases hf⟩

/-! ## What holds of an open record -/

/-- The process that a record was begun with, and that its samples were taken
from. -/
structure Names (c : Child) (r : Record) : Prop where
  process : ∃ p, c.procs r.generation = some p ∧ p.processor = r.backend ∧ p.engine = r.engine
  samples : ∀ x ∈ r.rss ++ r.memory, x = r.generation

theorem Names.moved {c c' : Child} {r r' : Record} (h : Names c r) (hm : Kin c c')
    (hr : Sampled r.generation r.generation r r') : Names c' r' := by
  obtain ⟨p, hp, hproc, hengine⟩ := h.process
  obtain ⟨p', hp', hsame⟩ := hm.procs hp
  refine ⟨⟨p', by rw [hr.generation]; exact hp', ?_, ?_⟩, fun x hx => ?_⟩
  · rw [hsame.processor, hr.backend]
    exact hproc
  · rw [hsame.engine, hr.engine]
    exact hengine
  · rw [hr.generation]
    rcases hr.samples x hx with hx | ⟨hlo, hhi⟩
    · exact h.samples x hx
    · exact Nat.le_antisymm hhi hlo

/-- A record names the process that answers, if it is complete, and has samples
of the process of its generation only. -/
structure Attests (c : Child) (r : Record) : Prop where
  completed : r.outcome = some .completed → r.answeredBy = some r.generation ∧
    ∃ p, c.procs r.generation = some p ∧ p.processor = r.backend ∧ p.engine = r.engine
  samples : ∀ x ∈ r.rss ++ r.memory, x = r.generation

theorem Attests.moved {c c' : Child} {r : Record} (h : Attests c r) (hm : Kin c c') :
    Attests c' r := by
  refine ⟨fun hr => ?_, h.samples⟩
  obtain ⟨hby, p, hp, hproc, hengine⟩ := h.completed hr
  obtain ⟨p', hp', hsame⟩ := hm.procs hp
  exact ⟨hby, p', hp', hsame.processor.trans hproc, hsame.engine.trans hengine⟩

/-- The record of a thread whose inference is open names the process that runs, and
the inference is with that process. -/
structure Open (c : Child) (r : Record) (pc : Pc) : Prop extends Names c r where
  current : r.generation = c.generation
  inferring : ∀ {o k}, pc = .inferring o k → k = c.generation
  answered : ∀ {o a}, pc = .answered o a → a.rc = 0 → r.answeredBy = some r.generation

theorem Open.beside {s s' : AppState} {t : Thread} {pc : Pc} (h : Open s.child (s.records t) pc)
    (hm : Kin s.child s'.child)
    (hb : Sampled s.child.generation s'.child.generation (s.records t) (s'.records t))
    (hgen : s'.child.generation = s.child.generation) : Open s'.child (s'.records t) pc := by
  have hr : Sampled (s.records t).generation (s.records t).generation (s.records t)
      (s'.records t) := by
    rw [hgen, ← h.current] at hb
    exact hb
  refine ⟨h.toNames.moved hm hr, ?_, fun hpc => (h.inferring hpc).trans hgen.symm,
    fun hpc hrc => ?_⟩
  · rw [hr.generation, hgen]
    exact h.current
  · rw [hr.answeredBy, hr.generation]
    exact h.answered hpc hrc

/-- What holds of the records. -/
structure Attributed (s : Sys) : Prop where
  observe : ∀ {t}, s.app.observe = some t ↔ opens (s.pc t) = true
  opened : ∀ {t}, opens (s.pc t) = true → Open s.app.child (s.app.records t) (s.pc t)
  submitted : ∀ r ∈ s.app.submitted, Attests s.app.child r

/-- A step that begins no record without a ready process, and starts no process
while a record is open. -/
def Steady (s : Sys) (act : Act) : Prop :=
  ∀ s', s.step act = some s' →
    (s.app.observe = none → s'.app.observe ≠ none → s.app.child.ready = true) ∧
    (s.app.observe ≠ none → s'.app.child.generation = s.app.child.generation)

/-! ## One step -/

theorem Fresh.open {c : Child} {r : Record} {o : Origin} (h : Fresh c r) (howned : Owned False c)
    (hf : Fitted c) (hready : c.ready = true) : Open c r (.admitted o) := by
  obtain ⟨k, p, hpid, hp, hengine⟩ := hf.engine hready
  obtain rfl : k = c.generation := howned.last hpid
  refine ⟨⟨⟨p, h.generation ▸ hp, ?_, ?_⟩, fun x hx => ?_⟩, h.generation,
    fun hpc => (by cases hpc), fun hpc => by cases hpc⟩
  · exact (hf.active hp).trans h.backend.symm
  · exact hengine.symm.trans h.engine.symm
  · exact (h.samples x hx).trans h.generation.symm

theorem connects_cases (s : AppState) (o : Origin) (succeeds : Bool) (a : Answer) :
    (∃ k, connects s o succeeds a = .inferring o k ∧ s.child.socketPath = some k) ∨
    ∃ b, connects s o succeeds a = .answered o b ∧ b.rc ≠ 0 := by
  have hrefused : (if a.rc = 0 then 502 else a.rc) ≠ 0 := by
    split
    · exact fun h => by cases h
    · next h => exact h
  unfold connects
  split
  · next k hk =>
      split
      · exact .inl ⟨k, rfl, hk⟩
      · exact .inr ⟨_, rfl, hrefused⟩
  · exact .inr ⟨_, rfl, hrefused⟩

theorem outcomeOf_completed {rc : Nat} {noAnswer : Bool}
    (h : outcomeOf rc noAnswer = .completed) : rc = 0 := by
  unfold outcomeOf at h
  split at h
  · cases h
  · split at h
    · cases h
    · split at h
      · cases h
      · split at h
        · cases h
        · split at h
          · cases h
          · next hrc => exact Decidable.not_not.mp hrc

/-- The record that is submitted: the open one, with a last sample and its outcome. -/
theorem observationEnd_submits (s : AppState) (t : Thread) (a : Answer) (w : World)
    (hlast : ∀ k, s.child.pid = some k → k = s.child.generation) :
    ∃ r rc, Sampled s.child.generation s.child.generation (s.records t) r ∧
      (rc = 0 → a.rc = 0) ∧
      (s.observationEnd t a w).1.submitted =
        { r with outcome := some (outcomeOf rc a.noAnswer) } :: s.submitted := by
  have hsampled := (sample_carries s w.samples hlast).records t
  rw [sample_child] at hsampled
  unfold AppState.observationEnd
  simp only
  generalize (decide (a.rc = 498) && (s.sample w.samples).requestCancelled.isSet) = turned
  cases turned with
  | true => exact ⟨(s.sample w.samples).records t, 499, hsampled, fun h => (by cases h), rfl⟩
  | false => exact ⟨(s.sample w.samples).records t, a.rc, hsampled, id, rfl⟩

/-- What an answer leaves of the records: it is kept with the record of its thread
which process has answered. -/
theorem answers_cases {s : AppState} {t : Thread} {o : Origin} {k : Nat} {a : Answer}
    {r : AppState × Pc} (hr : answers s t o k a = some r) :
    (a.rc = 0 ∧ r = ({ s with
      records := Function.update s.records t { s.records t with answeredBy := some k } },
      .answered o a)) ∨
    (a.rc ≠ 0 ∧ r.2 = .answered o a ∧ r.1.child = s.child ∧ r.1.records = s.records) := by
  have hpol := answers_snd hr
  unfold answers at hr
  split at hr
  · next hrc =>
      split at hr <;> cases hr
      exact .inl ⟨hrc, rfl⟩
  · next hrc =>
      cases hr
      refine .inr ⟨hrc, rfl, ?_⟩
      simp only
      split <;> exact ⟨rfl, rfl⟩

theorem recording_attributed {s : Sys} {t : Thread} {r : AppState × Pc}
    (hg : Grounded s) (he : Exclusive (s.put t r)) (h : Attributed s)
    (hok : (s.app.observe = none → r.1.observe ≠ none → s.app.child.ready = true) ∧
      (s.app.observe ≠ none → r.1.child.generation = s.app.child.generation))
    (hm : Moved s.app.child r.1.child) (hr : Recording s t r) : Attributed (s.put t r) := by
  have hobserve := recording_attached he (fun _ => h.observe) hr
  have hne {t' : Thread} (ht : t' ≠ t) : (s.put t r).pc t' = s.pc t' := put_pc_ne s r ht
  have hsame : (s.put t r).pc t = r.2 := put_pc_same s t r
  have hsubmitted (hsub : r.1.submitted = s.app.submitted) (q : Record)
      (hq : q ∈ r.1.submitted) : Attests r.1.child q :=
    (h.submitted q (hsub ▸ hq)).moved hm.toKin
  refine ⟨fun {t'} => hobserve t', fun {t'} ht' => ?_, ?_⟩
  · cases hr with
    | aside hclosed hafter hbeside =>
        rw [put_opens (hafter.trans hclosed.symm)] at ht'
        have htt : t' ≠ t := fun heq => by
          rw [heq, hclosed] at ht'
          cases ht'
        have hobs := h.observe.mpr ht'
        rw [hne htt]
        exact (h.opened ht').beside hm.toKin (hbeside.records t')
          (hok.2 (by rw [hobs]; exact fun hf => by cases hf))
    | @download m thread hpc =>
        have hclosed : opens (s.pc t) = false := by rw [hpc]; rfl
        have hchild := (congrArg AppState.child (beginJob_rest s.app m true false thread) :)
        rw [put_opens (r := (beginJob s.app m true false thread, .idle)) hclosed.symm] at ht'
        have htt : t' ≠ t := fun heq => by
          rw [heq, hclosed] at ht'
          cases ht'
        have hgen : (beginJob s.app m true false thread).child.generation =
            s.app.child.generation := congrArg Child.generation hchild
        rw [hne htt]
        refine (h.opened ht').beside hm.toKin ?_ hgen
        rw [put_app, hgen]
        exact download_sampled s.app m thread _ t'
    | @begun o s' hclosed hobs hsub hchild hrec hjob hfresh hmark =>
        have hnone : s.app.observe = none := by
          cases hobs' : s.app.observe with
          | none => rfl
          | some t' =>
              have hopen := h.observe.mp hobs'
              by_cases ht : t' = t
              · rw [ht, opens_false hclosed] at hopen
                cases hopen
              · rw [others_closed he rfl ht] at hopen
                cases hopen
        have hready := hok.1 hnone (by rw [hobs]; exact fun hf => by cases hf)
        obtain rfl : t = t' := Option.some.inj (hobs.symm.trans ((hobserve t').mpr ht'))
        rw [hsame, put_app, hchild]
        exact hfresh.open hg.owned hg.fitted hready
    | @connected o succeeds a hpc =>
        rw [put_opens (by rw [connects_opens, hpc]; rfl)] at ht'
        by_cases ht : t' = t
        · subst ht
          rw [hsame]
          have hold := h.opened ht'
          rcases connects_cases s.app o succeeds a with ⟨k, heq, hsock⟩ | ⟨b, heq, hb⟩
          · rw [heq]
            refine ⟨hold.toNames, hold.current, fun hk => ?_, fun hk => by cases hk⟩
            cases hk
            exact hg.owned.last (hg.owned.socket.symm.trans hsock)
          · rw [heq]
            refine ⟨hold.toNames, hold.current, fun hk => (by cases hk), fun hk hrc => ?_⟩
            cases hk
            exact absurd hrc hb
        · rw [hne ht]
          exact h.opened ht'
    | @answered o k a r hpc hr =>
        have hopen : opens (s.pc t) = true := by rw [hpc]; rfl
        rw [put_opens (by rw [answers_snd hr, hpc]; rfl)] at ht'
        have hold := h.opened ht'
        have htt : t' = t := Option.some.inj ((h.observe.mpr ht').symm.trans (h.observe.mpr hopen))
        subst htt
        rw [hsame]
        rcases answers_cases hr with ⟨_, rfl⟩ | ⟨hrc, heq, hchild, hrec⟩
        · simp only [put_app, Function.update_self]
          refine ⟨⟨hold.process, hold.samples⟩, hold.current, fun hk => (by cases hk),
            fun hk _ => ?_⟩
          rw [hold.inferring hpc]
          exact congrArg some hold.current.symm
        · rw [put_app, hchild, hrec, heq]
          refine ⟨hold.toNames, hold.current, fun hk => (by cases hk), fun hk hzero => ?_⟩
          cases hk
          exact absurd hzero hrc
    | observed hpc => cases (hobserve t').mpr ht'
  · cases hr with
    | aside hclosed hafter hbeside => exact hsubmitted hbeside.submitted
    | begun hclosed hobs hsub hchild hrec hjob hfresh hmark => exact hsubmitted hsub
    | @download m thread hpc =>
        exact hsubmitted (congrArg AppState.submitted (beginJob_rest s.app m true false thread) :)
    | connected hpc => exact hsubmitted rfl
    | answered hpc hr => exact hsubmitted (congrArg Policy.submitted (answers_flags hr))
    | @observed o a w hpc =>
        intro q hq
        have hold := h.opened (t := t) (by rw [hpc]; rfl)
        have hchild : (s.app.observationEnd t a w).1.child = s.app.child := observationEnd_child ..
        obtain ⟨r, rc, hsampled, hrc, hsub⟩ :=
          observationEnd_submits s.app t a w fun k hk => hg.owned.last hk
        rw [put_app] at hq ⊢
        rw [hsub, List.mem_cons] at hq
        rw [hchild]
        rcases hq with rfl | hq
        · rw [← hold.current] at hsampled
          have hnames := hold.toNames.moved (.refl _) hsampled
          refine ⟨fun hdone => ?_, hnames.samples⟩
          have hzero := hrc (outcomeOf_completed (Option.some.inj hdone))
          refine ⟨?_, hnames.process⟩
          rw [hsampled.generation]
          exact hsampled.answeredBy.trans (hold.answered hpc hzero)
        · exact h.submitted q hq

/-! ## Every run -/

theorem initial_attributed {s : Sys} (h : s.Initial) : Attributed s := by
  refine ⟨fun {t} => initial_attached h t, fun {t} ho => ?_, fun r hr => ?_⟩
  · rw [initial_closed h] at ho
    cases ho
  · rw [h.submitted] at hr
    cases hr

theorem step_attributed {s s' : Sys} {act : Act} (hg : Grounded s) (he : Exclusive s)
    (h : Attributed s) (hok : Steady s act) (hstep : s.step act = some s') : Attributed s' := by
  have hsteady := hok s' hstep
  have howned := (step_grounded hg hstep).owned
  have hexclusive := step_exclusive hg he hstep
  rcases step_deed hg hstep with ⟨k, rfl, rfl⟩ | ⟨t, r, _, hd, rfl⟩
  · have hm := exit_moved s.app.child k
    have hb : Beside s.app (s.app.own (s.app.child.exit k)) := (own_carries hm).beside
    have hgen : (s.app.child.exit k).generation = s.app.child.generation := by
      unfold Child.exit
      split <;> rfl
    exact ⟨h.observe, fun ho => (h.opened ho).beside hm.toKin (hb.records _) hgen,
      fun r hr => (h.submitted r hr).moved hm.toKin⟩
  · exact recording_attributed hg hexclusive h hsteady (deed_moved hg hd)
      (deed_recording hg hd howned (unattached he fun _ => h.observe))

theorem reach_attributed {s : Sys} (h : appMachine.Reach Steady s) :
    Grounded s ∧ Exclusive s ∧ Attributed s := by
  refine h.invariant (I := fun s => Grounded s ∧ Exclusive s ∧ Attributed s) (fun s hs => ?_)
    fun s act s' _ hok hstep hI => ?_
  · exact ⟨initial_grounded (s := s) hs, initial_exclusive hs, initial_attributed hs⟩
  · obtain ⟨hg, he, ha⟩ := hI
    exact ⟨step_grounded hg hstep, step_exclusive hg he hstep,
      step_attributed hg he ha hok hstep⟩

/-- In every run in which a record is begun with a ready process only, and no
process is started while one is open: a complete record names the process that
has generated its answer, with its processor and its identity, and every sample
of a record is taken from the process of its generation. -/
theorem record_names_its_process {s : Sys} (h : appMachine.Reach Steady s) :
    ∀ r ∈ s.app.submitted,
      (r.outcome = some .completed → ∃ k p, r.answeredBy = some k ∧
        s.app.child.procs k = some p ∧ r.generation = k ∧ r.backend = p.processor ∧
        r.engine = p.engine) ∧
      ∀ x ∈ r.rss ++ r.memory, x = r.generation := by
  obtain ⟨_, _, ha⟩ := reach_attributed h
  intro r hr
  have hattests := ha.submitted r hr
  refine ⟨fun hdone => ?_, hattests.samples⟩
  obtain ⟨hby, p, hp, hproc, hengine⟩ := hattests.completed hdone
  exact ⟨r.generation, p, hby, hp, rfl, hproc.symm, hengine.symm⟩

/-- A request that is answered by the selected model. -/
def answersOnce : List Act :=
  boots ++ [.poll { answers := some none } {}, .accept 0, .handle 0 (.generate true) { samples := true },
    .connect (.worker 0) true ⟨0, false, true⟩, .answer (.worker 0) ⟨0, false, true⟩,
    .observed (.worker 0) { samples := true }, .conclude (.worker 0) {}]

def steady (s : Sys) (act : Act) : Bool :=
  (s.step act).all fun s' =>
    decide ((s.app.observe = none → s'.app.observe ≠ none → s.app.child.ready = true) ∧
      (s.app.observe ≠ none → s'.app.child.generation = s.app.child.generation))

theorem steady_holds {s : Sys} {act : Act} (h : steady s act = true) : Steady s act :=
  fun s' hs' => of_decide_eq_true ((Option.all_eq_true _ _).mp h s' hs')

theorem record_names_its_process_once :
    ∃ s, appMachine.run (coldStart shelf (some 1)) answersOnce = some s ∧ s.app.submitted ≠ [] ∧
    ∀ r ∈ s.app.submitted,
      (r.outcome = some .completed → ∃ k p, r.answeredBy = some k ∧
        s.app.child.procs k = some p ∧ r.generation = k ∧ r.backend = p.processor ∧
        r.engine = p.engine) ∧
      ∀ x ∈ r.rss ++ r.memory, x = r.generation := by
  obtain ⟨s, hrun, hreach⟩ := Machine.checks_reach (M := appMachine) (p := steady)
    (fun _ _ => steady_holds) answersOnce (.init (coldStart_initial shelf (some 1)))
    (by decide +kernel)
  have hsome : ((appMachine.run (coldStart shelf (some 1)) answersOnce).any
      fun s => decide (s.app.submitted ≠ [])) = true := by decide +kernel
  rw [hrun] at hsome
  exact ⟨s, hrun, of_decide_eq_true hsome, record_names_its_process hreach⟩

/-- A process starts on the GPU and ends while a record that names it is open; the
fallback answers. -/
def fallsBack : List Act :=
  [.startup .nothing {}, .accept 0, .handle 0 (.choose .select (some 2) {}) {}, .jobStart,
    .jobEnd true { engine := 100 }, .poll { answers := some (some .gpu) } {}, .accept 0,
    .handle 0 (.generate true) {}, .exit 1, .poll {} { engine := 200 },
    .connect (.worker 0) true ⟨0, false, true⟩, .answer (.worker 0) ⟨0, false, true⟩,
    .observed (.worker 0) {}]

/-- A complete record names the process that failed, not the one that has
answered. -/
theorem record_names_another : ∃ s, appMachine.Reach Machine.free s ∧
    ∃ r ∈ s.app.submitted, r.outcome = some .completed ∧ r.answeredBy ≠ some r.generation ∧
      ∃ k p, r.answeredBy = some k ∧ s.app.child.procs k = some p ∧ r.backend ≠ p.processor := by
  obtain ⟨s, hreach, hs⟩ := cold_reaches shelf none fallsBack
    (fun s => s.app.submitted.any fun r =>
      decide (r.outcome = some .completed ∧ r.answeredBy ≠ some r.generation) &&
        r.answeredBy.any fun k =>
          (s.app.child.procs k).any fun p => decide (r.backend ≠ p.processor)) (by decide +kernel)
  obtain ⟨r, hr, hboth⟩ := List.any_eq_true.mp hs
  rw [Bool.and_eq_true] at hboth
  obtain ⟨hdone, hby⟩ := hboth
  obtain ⟨hcompleted, hne⟩ := of_decide_eq_true hdone
  obtain ⟨k, hk, hproc⟩ := (Option.any_eq_true _ _).mp hby
  obtain ⟨p, hp, hbackend⟩ := (Option.any_eq_true _ _).mp hproc
  exact ⟨s, hreach, r, hr, hcompleted, hne, k, p, hk, hp, of_decide_eq_true hbackend⟩

end GeistServe.Proofs
