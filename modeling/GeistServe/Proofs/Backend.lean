import GeistServe.Proofs.Touches

/-!
# What starting and stopping leaves alone

Starts, stops and the rounds of the monitor run beside everything else the app
does, at any time. `Carries` says what such a section leaves as it was: the
admissions and the jobs, the records and the selection, and, while no process
is started, also the mode and the preferences. It is a preorder, so a section
carries what its parts do.

`Kin` is the same for the child alone. `Fitted` is what holds of it in every
state: its processor is that of the last process, and a ready process has
handed over its identity.
-/

namespace GeistServe.Proofs

open GeistServe.Lib GeistServe.Supervisor

variable {strict : Prop} {c : Child}

/-! ## The child -/

/-- Two states of one process: what it was started with stays. -/
structure SameStart (p p' : Process) : Prop where
  processor : p'.processor = p.processor
  engine : p'.engine = p.engine
  load : p'.load = p.load
  switch : p'.switch = p.switch
  published : p.published = true → p'.published = true

theorem SameStart.refl (p : Process) : SameStart p p := ⟨rfl, rfl, rfl, rfl, id⟩

theorem SameStart.trans {p p' p'' : Process} (h : SameStart p p') (h' : SameStart p' p'') :
    SameStart p p'' :=
  ⟨h'.processor.trans h.processor, h'.engine.trans h.engine, h'.load.trans h.load,
    h'.switch.trans h.switch, fun hp => h'.published (h.published hp)⟩

/-- What stays while no process is started: the process can only go, and one
that is being stopped does not become ready. -/
structure Still (c c' : Child) : Prop where
  active : c'.active = c.active
  pid : c'.pid = c.pid ∨ c'.pid = none
  stopping : c'.pid = c.pid → c.pid ≠ none → c.stopping = true → c.ready = false →
    c'.stopping = true ∧ c'.ready = false

/-- The process is not the one that the app has, or it is being stopped. -/
def Leaving (c : Child) (k : Nat) : Prop :=
  c.pid ≠ some k ∨ c.stopping = true ∧ c.ready = false

/-- What a section makes of the child. -/
structure Kin (c c' : Child) : Prop where
  generation : c.generation ≤ c'.generation
  procs : ∀ {k p}, c.procs k = some p → ∃ p', c'.procs k = some p' ∧ SameStart p p'
  fresh : ∀ {k}, c.procs k = none → c'.procs k = none ∨ c.generation < k
  still : c'.generation = c.generation → Still c c'
  newer : c'.generation ≠ c.generation → ∀ k, c'.pid = some k → c.generation < k
  published : ∀ {k p p'}, c.procs k = some p → c'.procs k = some p' → k ≤ c.generation →
    Leaving c k → p'.published = p.published

/-- A process that leaves does not come back. -/
theorem leaving_stays {c c' : Child} (hstill : c'.generation = c.generation → Still c c')
    (hnewer : c'.generation ≠ c.generation → ∀ k, c'.pid = some k → c.generation < k) {k : Nat}
    (hle : k ≤ c.generation) (h : Leaving c k) : Leaving c' k := by
  by_cases hgen : c'.generation = c.generation
  · have hs := hstill hgen
    rcases hs.pid with hpid | hnone
    · rcases h with hne | ⟨hstopping, hready⟩
      · exact .inl (hpid ▸ hne)
      · by_cases hc : c.pid = none
        · exact .inl (by rw [hpid, hc]; exact fun hf => by cases hf)
        · exact .inr (hs.stopping hpid hc hstopping hready)
    · exact .inl (by rw [hnone]; exact fun hf => by cases hf)
  · exact .inl fun hpid => absurd (hnewer hgen k hpid) (Nat.not_lt.mpr hle)

theorem Kin.leaving {c c' : Child} (h : Kin c c') {k : Nat} (hle : k ≤ c.generation)
    (hl : Leaving c k) : Leaving c' k := leaving_stays h.still h.newer hle hl

/-- A child with the same processes, and no more. -/
theorem Kin.of_procs {c c' : Child} (hgen : c'.generation = c.generation)
    (hprocs : c'.procs = c.procs) (hstill : Still c c') : Kin c c' := by
  refine ⟨Nat.le_of_eq hgen.symm, fun {k p} hp => ⟨p, hprocs ▸ hp, .refl p⟩,
    fun {k} hk => .inl (hprocs ▸ hk), fun _ => hstill, fun hne => absurd hgen hne,
    fun hp hp' _ _ => ?_⟩
  rw [hprocs, hp] at hp'
  cases hp'
  rfl

theorem Kin.refl (c : Child) : Kin c c :=
  .of_procs rfl rfl ⟨rfl, .inl rfl, fun _ _ h h' => ⟨h, h'⟩⟩

theorem Kin.trans {c c' c'' : Child} (h : Kin c c') (h' : Kin c' c'') : Kin c c'' := by
  refine ⟨h.generation.trans h'.generation, fun {k p} hp => ?_, fun {k} hk => ?_, fun hgen => ?_,
    fun hne k hpid => ?_, fun {k p p''} hp hp'' hle hl => ?_⟩
  · obtain ⟨p', hp', hsame⟩ := h.procs hp
    obtain ⟨p'', hp'', hsame'⟩ := h'.procs hp'
    exact ⟨p'', hp'', hsame.trans hsame'⟩
  · rcases h.fresh hk with hk' | hlt
    · rcases h'.fresh hk' with hk'' | hlt
      · exact .inl hk''
      · exact .inr (Nat.lt_of_le_of_lt h.generation hlt)
    · exact .inr hlt
  · have hle := h.generation
    have hle' := h'.generation
    have hs := h.still (by omega)
    have hs' := h'.still (by omega)
    refine ⟨hs'.active.trans hs.active, ?_, fun hpid hne hstop hready => ?_⟩
    · rcases hs'.pid with hpid | hpid
      · exact hs.pid.imp hpid.trans hpid.trans
      · exact .inr hpid
    · have hpid' : c'.pid = c.pid := by
        rcases hs.pid with hpid' | hnone
        · exact hpid'
        · rcases hs'.pid with hsame | hsame
          · exact absurd (hpid.symm.trans (hsame.trans hnone)) hne
          · exact absurd (hpid.symm.trans hsame) hne
      obtain ⟨hstop', hready'⟩ := hs.stopping hpid' hne hstop hready
      exact hs'.stopping (hpid.trans hpid'.symm) (hpid'.symm ▸ hne) hstop' hready'
  · by_cases hgen : c''.generation = c'.generation
    · rcases (h'.still hgen).pid with hsame | hnone
      · exact h.newer (hgen ▸ hne) k (hsame.symm.trans hpid)
      · rw [hnone] at hpid
        cases hpid
    · exact Nat.lt_of_le_of_lt h.generation (h'.newer hgen k hpid)
  · obtain ⟨p', hp', _⟩ := h.procs hp
    rw [h'.published hp' hp'' (hle.trans h.generation) (h.leaving hle hl), h.published hp hp' hle hl]

/-- What holds of the child in every state. -/
structure Fitted (c : Child) : Prop where
  active : ∀ {p}, c.procs c.generation = some p → p.processor = c.active
  engine : c.ready = true → ∃ k p, c.pid = some k ∧ c.procs k = some p ∧ c.engine = p.engine
  unready : ∀ {k p}, c.pid = some k → c.ready = false → c.stopping = false →
    c.procs k = some p → p.published = false

/-- What a section does to the child, beside what happens to its process. -/
structure Moved (c c' : Child) : Prop extends Kin c c' where
  fitted : Fitted c → Fitted c'

theorem Moved.refl (c : Child) : Moved c c := ⟨.refl c, id⟩

theorem Moved.trans {c c' c'' : Child} (h : Moved c c') (h' : Moved c' c'') : Moved c c'' :=
  ⟨h.toKin.trans h'.toKin, fun hf => h'.fitted (h.fitted hf)⟩

/-- A child whose process is gone or is not ready, with the same processes. -/
theorem Moved.of_procs {c c' : Child} (hgen : c'.generation = c.generation)
    (hactive : c'.active = c.active) (hprocs : c'.procs = c.procs) (hready : c'.ready = false)
    (hpid : c'.pid = c.pid ∧ c'.stopping = true ∨ c'.pid = none) : Moved c c' := by
  refine ⟨.of_procs hgen hprocs ⟨hactive, hpid.imp And.left id, ?_⟩, fun hf => ?_⟩
  · intro heq hne _ _
    rcases hpid with ⟨_, hstop⟩ | hnone
    · exact ⟨hstop, hready⟩
    · exact absurd (heq.symm.trans hnone) hne
  · refine ⟨fun {p} hp => ?_, fun h => absurd h (by rw [hready]; exact Bool.false_ne_true),
      fun {k p} hk _ hstopping _ => ?_⟩
    · rw [hactive]
      rw [hprocs, hgen] at hp
      exact hf.active hp
    · rcases hpid with ⟨_, hstop⟩ | hnone
      · rw [hstop] at hstopping
        cases hstopping
      · rw [hnone] at hk
        cases hk

theorem setLife_moved (c : Child) (k : Nat) (l : Life) : Moved c (c.setLife k l) := by
  have hkept : ∀ {n p}, c.procs n = some p →
      ∃ p', (c.setLife k l).procs n = some p' ∧ SameStart p p' := by
    intro n p hp
    by_cases hn : n = k
    · subst hn
      exact ⟨{ p with life := l }, by rw [setLife_procs_same, hp]; rfl, rfl, rfl, rfl, rfl, id⟩
    · exact ⟨p, by rw [setLife_procs_ne l hn]; exact hp, .refl p⟩
  have hback : ∀ {n p'}, (c.setLife k l).procs n = some p' →
      ∃ p, c.procs n = some p ∧ p'.processor = p.processor ∧ p'.published = p.published := by
    intro n p' hp'
    obtain ⟨p, hp, hother, hsame⟩ := setLife_procs hp'
    refine ⟨p, hp, ?_⟩
    by_cases hn : n = k
    · rw [hsame hn]
      exact ⟨rfl, rfl⟩
    · rw [hother hn]
      exact ⟨rfl, rfl⟩
  refine ⟨⟨Nat.le_refl _, hkept, fun {n} hn => .inl ?_, fun _ =>
    ⟨rfl, .inl rfl, fun _ _ h h' => ⟨h, h'⟩⟩, fun hne => absurd rfl hne,
    fun {n p p'} hp hp' _ _ => ?_⟩, fun hf => ⟨fun {p} hp => ?_, fun hready => ?_,
    fun {n p} hpid hready hstopping hp => ?_⟩⟩
  · by_cases hk : n = k
    · subst hk
      rw [setLife_procs_same, hn]
      rfl
    · rw [setLife_procs_ne l hk]
      exact hn
  · obtain ⟨p₀, hp₀, _, hpub⟩ := hback hp'
    rw [hp] at hp₀
    cases hp₀
    exact hpub
  · obtain ⟨p₀, hp₀, hproc, _⟩ := hback hp
    exact hproc.trans (hf.active hp₀)
  · obtain ⟨n, p, hpid, hp, hengine⟩ := hf.engine hready
    obtain ⟨p', hp', hstart⟩ := hkept hp
    exact ⟨n, p', hpid, hp', hengine.trans hstart.engine.symm⟩
  · obtain ⟨p₀, hp₀, _, hpub⟩ := hback hp
    exact hpub.trans (hf.unready hpid hready hstopping hp₀)

theorem exit_moved (c : Child) (k : Nat) : Moved c (c.exit k) := by
  unfold Child.exit
  split
  · exact setLife_moved c k .zombie
  · exact .refl c

theorem waitpid_moved (c : Child) : Moved c c.waitpid.1 := by
  unfold Child.waitpid
  split
  · next k _ =>
      split
      · exact .refl c
      · exact setLife_moved c k .reaped
  · exact .refl c

theorem touch_moved (c : Child) (w : Wait) (k : Option Nat) : Moved c (c.touch w k) :=
  ⟨.of_procs rfl rfl ⟨rfl, .inl rfl, fun _ _ h h' => ⟨h, h'⟩⟩, fun hf =>
    ⟨hf.active, hf.engine, hf.unready⟩⟩

theorem stopEnd_moved (c : Child) (w : Wait) : Moved c (c.stopEnd w) := by
  obtain ⟨hpid, _⟩ := stopEnd_pid c w
  unfold Child.stopEnd at hpid ⊢
  cases hk : c.pid with
  | some k =>
      rw [hk] at hpid
      exact ((touch_moved c w (some k)).trans (setLife_moved _ k .reaped)).trans
        (.of_procs rfl rfl rfl rfl (.inr hpid))
  | none =>
      rw [hk] at hpid
      exact .of_procs rfl rfl rfl rfl (.inr hpid)

theorem stopLook_moved (c : Child) (w : Wait) : Moved c (c.stopLook w).1 := by
  rcases stopLook_cases c w with ⟨c₀, heq, hc₀⟩ | ⟨k, _, _, _, heq⟩
  · rw [heq]
    obtain ⟨hpid, _⟩ := stopEnd_pid c₀ w
    rcases hc₀ with rfl | ⟨k, _, _, rfl⟩ | ⟨hnone, rfl⟩
    · exact stopEnd_moved c₀ w
    · exact ((setLife_moved c k .reaped).trans (touch_moved _ w (some k))).trans
        (.of_procs rfl rfl rfl rfl (.inr hpid))
    · exact .of_procs rfl rfl rfl rfl (.inr hpid)
  · rw [heq]
    exact .refl c

theorem revoke_moved (c : Child) : Moved c c.revoke :=
  .of_procs rfl rfl rfl rfl (.inl ⟨rfl, rfl⟩)

theorem beginStop_moved (c : Child) (cause : Option Nat) : Moved c (c.beginStop cause).1 := by
  cases hpid : c.pid with
  | none =>
      rw [beginStop_none hpid]
      exact .of_procs rfl rfl rfl rfl (.inr hpid)
  | some k =>
      rw [beginStop_some hpid]
      exact ((revoke_moved c).trans (touch_moved _ _ (some k))).trans (stopLook_moved _ _)

/-- A stop that is done leaves a child that is not ready. -/
theorem stopLook_unready {c : Child} {w : Wait} (h : (c.stopLook w).2 = none) :
    (c.stopLook w).1.ready = false := by
  rcases stopLook_cases c w with ⟨c₀, heq, _⟩ | ⟨k, _, _, _, heq⟩
  · rw [heq]
    rfl
  · rw [heq] at h
    cases h

theorem beginStop_unready (c : Child) (cause : Option Nat) :
    (c.beginStop cause).1.ready = false := by
  cases hpid : c.pid with
  | none =>
      rw [beginStop_none hpid]
      rfl
  | some k =>
      rw [beginStop_some hpid]
      rcases stopLook_cases (c.revoke.touch ⟨c.generation, 20, cause⟩ (some k))
        ⟨c.generation, 20, cause⟩ with ⟨c₀, heq, _⟩ | ⟨_, _, _, _, heq⟩
      · rw [heq]
        rfl
      · rw [heq]
        rfl

theorem dropped_moved {c : Child} : Moved c c.waitpid.1.dropped :=
  (waitpid_moved c).trans (.of_procs rfl rfl rfl rfl (.inr rfl))

theorem gone_moved (c : Child) : Moved c c.gone := .of_procs rfl rfl rfl rfl (.inr rfl)

theorem identified_moved (c : Child) : Moved c c.identified := by
  refine ⟨.of_procs rfl rfl ⟨rfl, .inl rfl, fun _ _ h h' => ⟨h, h'⟩⟩, fun hf =>
    ⟨hf.active, fun hready => ?_, hf.unready⟩⟩
  obtain ⟨k, p, hpid, hp, _⟩ := hf.engine hready
  refine ⟨k, p, hpid, hp, ?_⟩
  unfold Child.identified
  simp only [hpid, Option.bind_some, hp, Option.map_some, Option.getD_some]

/-- What was running before the process became ready is still what it is. -/
theorem publish_start {c : Child} {n : Nat} {p : Process} (h : c.procs n = some p) :
    ∃ p', c.publish.procs n = some p' ∧ SameStart p p' := by
  unfold Child.publish
  simp only
  split
  · exact ⟨{ p with published := true }, by rw [h]; rfl, rfl, rfl, rfl, rfl, fun _ => rfl⟩
  · exact ⟨p, h, .refl p⟩

theorem publish_other {c : Child} {n : Nat} (h : c.pid ≠ some n) :
    c.publish.procs n = c.procs n := by
  unfold Child.publish
  simp only
  rw [if_neg h]

/-- A process that is identified becomes ready. -/
theorem publish_moved {c : Child} {k : Nat} {p : Process} (hpid : c.pid = some k)
    (hp : c.procs k = some p) (hstopping : c.stopping = false) :
    Moved c c.identified.publish := by
  have hengine : c.identified.engine = p.engine := by
    unfold Child.identified
    simp only [hpid, Option.bind_some, hp, Option.map_some, Option.getD_some]
  refine ⟨⟨Nat.le_refl _, fun {_ _} h => publish_start (c := c.identified) h,
    fun {n} hn => .inl ?_, fun _ => ⟨rfl, .inl rfl, fun _ _ h _ => ?_⟩, fun hne => absurd rfl hne,
    fun {n q q'} hq hq' _ hleaving => ?_⟩, fun hf =>
    ⟨fun {q} hq => ?_, fun _ => ?_, fun _ hready => ?_⟩⟩
  · unfold Child.publish
    simp only
    split
    · change (c.procs n).map _ = none
      rw [hn]
      rfl
    · exact hn
  · rw [hstopping] at h
    cases h
  · rcases hleaving with hne | ⟨h, _⟩
    · rw [publish_other (c := c.identified) hne, show c.identified.procs n = some q from hq] at hq'
      cases hq'
      rfl
    · rw [hstopping] at h
      cases h
  · obtain ⟨p₀, hp₀, _, hproc, _⟩ := publish_procs hq
    exact hproc.trans (hf.active hp₀)
  · obtain ⟨p', hp', hsame⟩ := publish_start (c := c.identified) hp
    exact ⟨k, p', hpid, hp', hengine.trans hsame.engine.symm⟩
  · cases (hready : true = false)

theorem Owned.new (h : Owned strict c) : c.procs (c.generation + 1) = none := by
  cases hp : c.procs (c.generation + 1) with
  | none => rfl
  | some p => exact absurd (h.known hp).2 (Nat.not_succ_le_self _)

/-- A start that finds no process, and that succeeds. -/
theorem spawn_moved {c : Child} (h : Owned strict c) (hready : c.ready = false) {p : Process}
    (hnew : p.published = false) :
    Moved c ((c.directory.bind true).spawn p) := by
  have hprocs : ((c.directory.bind true).spawn p).procs =
      Function.update c.procs (c.generation + 1) (some p) := rfl
  refine ⟨⟨Nat.le_succ _, fun {k q} hq => ?_, fun {k} hk => ?_, fun hgen => ?_,
    fun _ k hk => ?_, fun {k q q'} hq hq' hle _ => ?_⟩, fun _ =>
    ⟨fun {q} hq => ?_, fun hr => ?_, fun {k q} hk _ _ hq => ?_⟩⟩
  · refine ⟨q, ?_, .refl q⟩
    rw [hprocs, Function.update_of_ne (fun hk => ?_)]
    · exact hq
    · rw [hk, h.new] at hq
      cases hq
  · by_cases hk' : k = c.generation + 1
    · exact .inr (by omega)
    · rw [hprocs, Function.update_of_ne hk']
      exact .inl hk
  · exact absurd hgen (Nat.succ_ne_self _)
  · have hk : some (c.generation + 1) = some k := hk
    injection hk with hk
    omega
  · rw [hprocs, Function.update_of_ne (by omega), hq] at hq'
    cases hq'
    rfl
  · rw [hprocs] at hq
    have hq : Function.update c.procs (c.generation + 1) (some p) (c.generation + 1) = some q := hq
    rw [Function.update_self] at hq
    injection hq with hq
    exact congrArg Process.processor hq.symm
  · have hr : c.ready = true := hr
    rw [hready] at hr
    cases hr
  · have hk : some (c.generation + 1) = some k := hk
    injection hk with hk
    rw [hprocs, ← hk, Function.update_self] at hq
    cases hq
    exact hnew

theorem launch_unready {c c' : Child} {packaged : Nat} {p : Process} {fault : Option Fault}
    {ok : Bool} (hready : c.ready = false) (h : c.launch packaged p fault = (c', ok)) :
    c'.ready = false := by
  unfold Child.launch at h
  split at h <;> cases h <;> (try exact hready)
  exact beginStop_unready _ _

theorem launch_moved {c c' : Child} {packaged : Nat} {p : Process} {fault : Option Fault}
    {ok : Bool} (hc : Owned strict c) (hpid : c.pid = none) (hready : c.ready = false)
    (hnew : p.published = false) (h : c.launch packaged p fault = (c', ok)) : Moved c c' := by
  cases ok with
  | true =>
      have hpack : Owned strict { c with engine := packaged } :=
        ⟨⟨hc.named, hc.last, hc.known, hc.touches⟩, hc.alive, hc.socket⟩
      have hmoved : Moved c { c with engine := packaged } :=
        .of_procs rfl rfl rfl hready (.inr hpid)
      rw [launch_starts h]
      exact hmoved.trans (spawn_moved hpack hready hnew)
  | false =>
      obtain ⟨hpid', hgen, hactive, hprocs⟩ := launch_same hpid h
      exact .of_procs hgen hactive hprocs (launch_unready hready h) (.inr hpid')

/-! ## The app -/

/-- What starts, stops and the monitor never touch. -/
structure Policy where
  generating : Bool
  job : Job
  compare : Compare
  observe : Option Thread
  request : Activity
  download : Activity
  models : List Model
  selected : Option Nat
  selection : Option Nat
  closing : Bool
  cancelled : Flag
  compareCancelled : Flag
  requestCancelled : Flag
  submitted : List Record
  compared : List Compared
  begun : (Nat → Option Mode) × Mode

def policy (s : AppState) : Policy :=
  ⟨s.generating, s.job, s.compare, s.observe, s.request, s.download, s.models, s.selected,
    s.selection, s.closing, s.cancelled, s.compareCancelled, s.requestCancelled, s.submitted,
    s.compared, s.begun⟩

/-- What stays of the mode and the preferences while no process is started. -/
structure ModeKept (s s' : AppState) : Prop where
  mode : s'.mode = s.mode
  save : s'.save = true → s.save = true
  preference : s'.preference = s.preference ∨ s.save = true

/-- A record and what samples make of it; the processes they are taken from lie
between two numbers. -/
structure Sampled (first last : Nat) (r r' : Record) : Prop where
  generation : r'.generation = r.generation
  backend : r'.backend = r.backend
  engine : r'.engine = r.engine
  outcome : r'.outcome = r.outcome
  op : r'.op = r.op
  answeredBy : r'.answeredBy = r.answeredBy
  samples : ∀ x ∈ r'.rss ++ r'.memory, x ∈ r.rss ++ r.memory ∨ first ≤ x ∧ x ≤ last

theorem Sampled.refl (first last : Nat) (r : Record) : Sampled first last r r :=
  ⟨rfl, rfl, rfl, rfl, rfl, rfl, fun _ hx => .inl hx⟩

theorem Sampled.trans {a b c : Nat} {r r' r'' : Record} (hab : a ≤ b) (hbc : b ≤ c)
    (h : Sampled a b r r') (h' : Sampled b c r' r'') : Sampled a c r r'' := by
  refine ⟨h'.generation.trans h.generation, h'.backend.trans h.backend,
    h'.engine.trans h.engine, h'.outcome.trans h.outcome, h'.op.trans h.op,
    h'.answeredBy.trans h.answeredBy, fun x hx => ?_⟩
  rcases h'.samples x hx with hx | hx
  · rcases h.samples x hx with hx | hx
    · exact .inl hx
    · exact .inr ⟨hx.1, hx.2.trans hbc⟩
  · exact .inr ⟨hab.trans hx.1, hx.2⟩

/-- What a start, a stop or a round of the monitor does. -/
structure Carries (s s' : AppState) : Prop where
  policy : policy s' = policy s
  child : Moved s.child s'.child
  records : ∀ t, Sampled s.child.generation s'.child.generation (s.records t) (s'.records t)
  kept : s'.child.generation = s.child.generation → ModeKept s s'
  contention : ∀ t, (s'.records t).contention = (s.records t).contention

theorem Carries.refl (s : AppState) : Carries s s :=
  ⟨rfl, .refl s.child, fun _ => .refl _ _ _, fun _ => ⟨rfl, id, .inl rfl⟩, fun _ => rfl⟩

theorem Carries.trans {s s' s'' : AppState} (h : Carries s s') (h' : Carries s' s'') :
    Carries s s'' := by
  refine ⟨h'.policy.trans h.policy, h.child.trans h'.child, fun t =>
    (h.records t).trans h.child.generation h'.child.generation (h'.records t), fun hgen => ?_,
    fun t => (h'.contention t).trans (h.contention t)⟩
  have hle := h.child.generation
  have hle' := h'.child.generation
  have hk := h.kept (by omega)
  have hk' := h'.kept (by omega)
  refine ⟨hk'.mode.trans hk.mode, fun hs => hk.save (hk'.save hs), ?_⟩
  rcases hk'.preference with heq | hsave
  · exact hk.preference.imp heq.trans id
  · exact .inr (hk.save hsave)

theorem own_carries {s : AppState} {c : Child} (h : Moved s.child c) : Carries s (s.own c) :=
  ⟨rfl, h, fun _ => .refl _ _ _, fun _ => ⟨rfl, id, .inl rfl⟩, fun _ => rfl⟩

/-! ### What the other sections leave alone -/

section Rest

variable (s : AppState)

/-- A job that is done, with the fields that it sets put back. -/
theorem jobDone_rest (ok : Bool) (w : World) :
    { s.jobDone ok w with
      cancelled := s.cancelled, load := s.load, download := s.download, ended := s.ended
      hits := s.hits, job := s.job } = s := by
  unfold AppState.jobDone
  simp only
  split <;> split <;> split <;> (try split) <;> rfl

/-- What the job does behind its start and in front of its end: it works under the
activity of the start, and the selection may follow. -/
structure Followed (s s₁ : AppState) (ok : Bool) : Prop where
  rest : { s₁ with selection := s.selection, selected := s.selected, job := s.job } = s
  job : s₁.job = { s.job with op := s.load.id }
  selection : ok = false → s₁.selection = s.selection

theorem afterStart_job (ok : Bool) (w : World) :
    ∃ s₁, afterStart .job s ok w = (s₁.jobDone true w, .idle) ∧ Followed s s₁ ok := by
  unfold afterStart
  simp only
  split
  · next hboth => exact ⟨_, rfl, rfl, rfl, fun hf => by rw [hf] at hboth; cases hboth.1⟩
  · exact ⟨_, rfl, rfl, rfl, fun _ => rfl⟩

theorem removed_rest (m : Model) (unlinks saves : Bool) :
    { s.removed m unlinks saves with
      selection := s.selection, selected := s.selected, activeId := s.activeId } = s := by
  unfold AppState.removed
  simp only
  split
  · split <;> split <;> rfl
  · rfl

theorem beginJob_rest (m : Model) (download activate thread : Bool) :
    { beginJob s m download activate thread with
      operationId := s.operationId, load := s.load, loadCancelled := s.loadCancelled
      download := s.download, records := s.records, cancelled := s.cancelled, job := s.job } =
      s := by
  unfold beginJob
  simp only
  split
  · rfl
  · split <;> split <;> (try split) <;> rfl

/-- The job that is begun, unless the hardware refuses it. -/
theorem beginJob_job (m : Model) (download activate thread : Bool) :
    (beginJob s m download activate thread).job = s.job ∨
      ∃ op, (beginJob s m download activate thread).job =
        ⟨some m, thread, download, activate, op,
          if activate ∧ s.child.pid.isSome then some s.selection else none⟩ := by
  unfold beginJob
  simp only
  split
  · exact .inl rfl
  · right
    split
    · exact ⟨_, by split <;> rfl⟩
    · exact ⟨_, by split <;> rfl⟩

theorem observationEnd_rest (t : Thread) (a : Answer) (w : World) :
    { (s.observationEnd t a w).1 with
      records := s.records, hits := s.hits, request := s.request, observe := s.observe
      submitted := s.submitted } = s := by
  unfold AppState.observationEnd
  simp only
  split <;> rfl
end Rest

section Parts

variable (s : AppState) (w : World)

theorem endLoad_carries (o : Outcome) : Carries s (s.endLoad o) :=
  ⟨rfl, .refl s.child, fun _ => .refl _ _ _, fun _ => ⟨rfl, id, .inl rfl⟩, fun _ => rfl⟩

theorem beginLoad_carries (g : Nat) : Carries s (s.beginLoad g) :=
  ⟨rfl, .refl s.child, fun _ => .refl _ _ _, fun _ => ⟨rfl, id, .inl rfl⟩, fun _ => rfl⟩

theorem hit_carries (cause : Option Nat) (among : List Nat) : Carries s (s.hit cause among) :=
  ⟨rfl, .refl s.child, fun _ => .refl _ _ _, fun _ => ⟨rfl, id, .inl rfl⟩, fun _ => rfl⟩

theorem switchEnds_carries (switch : Option (Option Nat)) : Carries s (s.switchEnds switch) :=
  ⟨rfl, .refl s.child, fun _ => .refl _ _ _, fun _ => ⟨rfl, id, .inl rfl⟩, fun _ => rfl⟩

theorem fallbacks_carries (f : Fallback) :
    Carries s { s with fallbacks := f :: s.fallbacks } :=
  ⟨rfl, .refl s.child, fun _ => .refl _ _ _, fun _ => ⟨rfl, id, .inl rfl⟩, fun _ => rfl⟩

theorem sample_records (reads : Bool) : (s.sample reads).records = s.records ∨
    ∃ t k, s.observe = some t ∧ s.child.pid = some k ∧
      (s.sample reads).records = Function.update s.records t { s.records t with
        rss := (s.records t).rss ++ [k]
        memory := if !s.child.stopping && decide ((s.records t).generation = s.child.generation)
          then (s.records t).memory ++ [k] else (s.records t).memory } := by
  unfold AppState.sample
  cases hobs : s.observe with
  | none => exact .inl rfl
  | some t =>
      cases hpid : s.child.pid with
      | none => exact .inl rfl
      | some k =>
          cases reads with
          | false => exact .inl rfl
          | true => exact .inr ⟨t, k, rfl, rfl, rfl⟩

theorem sample_contention (reads : Bool) (t : Thread) :
    ((s.sample reads).records t).contention = (s.records t).contention := by
  rcases sample_records s reads with heq | ⟨t', k, _, _, heq⟩
  · rw [heq]
  · rw [heq]
    by_cases ht : t = t'
    · subst ht
      rw [Function.update_self]
    · rw [Function.update_of_ne ht]

/-- The samples are taken from the last process. -/
theorem sample_carries (reads : Bool) (hlast : ∀ k, s.child.pid = some k → k = s.child.generation) :
    Carries s (s.sample reads) := by
  refine ⟨rfl, .refl s.child, fun t => ?_, fun _ => ⟨rfl, id, .inl rfl⟩, sample_contention s reads⟩
  rcases sample_records s reads with heq | ⟨t', k, _, hpid, heq⟩
  · rw [heq]
    exact .refl _ _ _
  · have hk := hlast k hpid
    rw [heq]
    by_cases ht : t = t'
    · subst ht
      rw [Function.update_self]
      refine ⟨rfl, rfl, rfl, rfl, rfl, rfl, fun x hx => ?_⟩
      simp only [List.mem_append, List.mem_singleton] at hx ⊢
      rcases hx with (hx | hx) | hx
      · exact .inl (.inl hx)
      · exact .inr (by rw [hx, hk, sample_child]; exact ⟨Nat.le_refl _, Nat.le_refl _⟩)
      · split at hx
        · simp only [List.mem_append, List.mem_singleton] at hx
          rcases hx with hx | hx
          · exact .inl (.inr hx)
          · exact .inr (by rw [hx, hk, sample_child]; exact ⟨Nat.le_refl _, Nat.le_refl _⟩)
        · exact .inl (.inr hx)
    · rw [Function.update_of_ne ht]
      exact .refl _ _ _

theorem prepare_carries : Carries s s.prepare := by
  unfold AppState.prepare
  split <;>
    exact ⟨rfl, .refl s.child, fun _ => .refl _ _ _, fun _ => ⟨rfl, id, .inl rfl⟩, fun _ => rfl⟩

end Parts

/-- What is kept of the ends, the starts and the cancellations. -/
def logs (s : AppState) : List (Option Nat × Option Nat) × List Fallback × List Supervisor.Hit :=
  (s.ended, s.fallbacks, s.hits)

/-- The next process runs, as it was asked for. -/
structure Spawns (s : AppState) (r : Start) (s' : AppState) : Prop where
  mode : s'.mode = r.mode
  load : s'.load.generation = s'.child.generation
  generation : s'.child.generation = s.child.generation + 1
  pid : s'.child.pid = some s'.child.generation
  process : ∃ engine, s'.child.procs s'.child.generation =
    some ⟨r.processor, engine, s'.load.id, r.switch, false, .running⟩

/-- Whose cancellation the flag of the load is: it has been cleared, or it and the
load activity stand. -/
def FlagKept (s s' : AppState) : Prop :=
  s'.loadCancelled = .clear ∨ s'.loadCancelled = s.loadCancelled ∧ s'.load.id = s.load.id

theorem FlagKept.trans {s s' s'' : AppState} (h : FlagKept s s') (h' : FlagKept s' s'') :
    FlagKept s s'' := by
  rcases h' with hclear | ⟨hflag, hid⟩
  · exact .inl hclear
  · rcases h with hclear | ⟨hflag', hid'⟩
    · exact .inl (hflag.trans hclear)
    · exact .inr ⟨hflag.trans hflag', hid.trans hid'⟩

/-- The flag of the load and the load activity stand. -/
def FlagStands (s s' : AppState) : Prop :=
  s'.loadCancelled = s.loadCancelled ∧ s'.load.id = s.load.id

/-- What a start has made: the next process, as it was asked for, or none. -/
structure Started (s : AppState) (r : Start) (s' : AppState) (ok : Bool) : Prop
    extends Carries s s' where
  owned : Owned False s'.child
  logs : logs s' = logs s
  preference : s'.preference = s.preference
  flag : FlagKept s s'
  unready : s'.child.ready = false
  fails : ok = false → s'.child.pid = none ∧ s'.child.generation = s.child.generation
  starts : ok = true → Spawns s r s'

variable {s : AppState} {w : World}

/-- A start behind something that starts nothing. -/
theorem Started.of_carries {s₀ s' : AppState} {r : Start} {ok : Bool} (hc : Carries s₀ s)
    (hgen : s.child.generation = s₀.child.generation)
    (hlogs : Proofs.logs s = Proofs.logs s₀) (hpref : s.preference = s₀.preference)
    (hflag : FlagKept s₀ s) (h : Started s r s' ok) : Started s₀ r s' ok := by
  refine ⟨hc.trans h.toCarries, h.owned, h.logs.trans hlogs, h.preference.trans hpref,
    hflag.trans h.flag, h.unready, fun hf => ?_, fun ht => ?_⟩
  · obtain ⟨hpid, hsame⟩ := h.fails hf
    exact ⟨hpid, hsame.trans hgen⟩
  · obtain ⟨hmode, hload, hnext, hpid, hnew⟩ := h.starts ht
    exact ⟨hmode, hload, hnext.trans (congrArg (· + 1) hgen), hpid, hnew⟩

theorem prepare_logs (s : AppState) : logs s.prepare = logs s := by
  unfold AppState.prepare
  split <;> rfl

theorem prepare_preference (s : AppState) : s.prepare.preference = s.preference := by
  unfold AppState.prepare
  split <;> rfl

theorem prepare_flag (s : AppState) : FlagKept s s.prepare := .inl rfl

theorem finish_id (a : Activity) (o : Outcome) : (a.finish o).id = a.id := by
  unfold Activity.finish
  split <;> rfl

theorem endLoad_flag (s : AppState) (o : Outcome) : FlagKept s (s.endLoad o) :=
  .inr ⟨rfl, finish_id s.load o⟩

theorem own_flag (s : AppState) (c : Child) : FlagKept s (s.own c) := .inr ⟨rfl, rfl⟩

theorem Owned.weaken (h : Owned strict c) : Owned False c :=
  ⟨⟨h.named, h.last, h.known, fun hf => hf.elim⟩, h.alive, h.socket⟩

theorem launch_started (h : Owned strict s.child) (hpid : s.child.pid = none)
    (hready : s.child.ready = false) (r : Start) (fault : Option Fault) (engine : Nat) :
    Started s r (s.launch r fault engine).1 (s.launch r fault engine).2 := by
  have howned := (launch_owned h hpid r fault engine).1.weaken
  unfold AppState.launch at howned ⊢
  simp only at howned ⊢
  generalize hstarted : s.child.launch s.packaged
    ⟨r.processor, engine, s.load.id, r.switch, false, .running⟩ fault = started at howned ⊢
  obtain ⟨c, ok⟩ := started
  have hmoved := launch_moved h hpid hready rfl hstarted
  cases ok with
  | true =>
      have hunready := launch_unready hready hstarted
      have hc := launch_starts hstarted
      have hgen : c.generation = s.child.generation + 1 := by rw [hc]; rfl
      have hnew : c.procs c.generation =
          some ⟨r.processor, engine, s.load.id, r.switch, false, .running⟩ := by
        rw [hc]
        exact Function.update_self ..
      rw [if_pos rfl] at howned ⊢
      refine ⟨⟨rfl, hmoved, fun _ => .refl _ _ _, fun heq => ?_, fun _ => rfl⟩, howned, rfl, rfl,
        .inr ⟨rfl, rfl⟩, hunready, fun hf => (by cases hf), fun _ =>
        ⟨rfl, rfl, hgen, by rw [hc]; rfl, engine, hnew⟩⟩
      have heq : c.generation = s.child.generation := heq
      omega
  | false =>
      obtain ⟨hpid', hgen, _⟩ := launch_same hpid hstarted
      have hdone : (c.beginStop none).2 = none := by rw [beginStop_none hpid']
      obtain ⟨hnone, _, hgen'⟩ := beginStop_done hdone
      refine ⟨(own_carries (hmoved.trans (beginStop_moved c none))).trans (endLoad_carries _ _),
        howned, rfl, rfl, (own_flag s _).trans (endLoad_flag _ _), beginStop_unready c none,
        fun _ => ⟨hnone, hgen'.trans hgen⟩, fun hf => by cases hf⟩

theorem launch_stands (s : AppState) (r : Start) (fault : Option Fault) (engine : Nat) :
    FlagStands s (s.launch r fault engine).1 := by
  unfold AppState.launch
  simp only
  split
  · exact ⟨rfl, rfl⟩
  · exact ⟨rfl, finish_id s.load .failed⟩

theorem idle_stop (hpid : s.child.pid = none) (h : Owned strict s.child) :
    Owned strict (s.child.beginStop none).1 ∧ (s.child.beginStop none).1.pid = none ∧
      (s.child.beginStop none).1.generation = s.child.generation := by
  have hdone : (s.child.beginStop none).2 = none := by rw [beginStop_none hpid]
  obtain ⟨hnone, _, hgen⟩ := beginStop_done hdone
  exact ⟨(h.toSpawned.beginStop none).2 hdone, hnone, hgen⟩

theorem startIdle_started (h : Owned strict s.child) (hpid : s.child.pid = none) (path : Nat)
    (id : Option Nat) (mode : Mode) (switch : Option (Option Nat)) (fault : Option Fault)
    (engine : Nat) :
    Started s ⟨path, id, mode, s.processorOf id mode, switch⟩
      (s.startIdle path id mode switch fault engine).1
      (s.startIdle path id mode switch fault engine).2 := by
  obtain ⟨howned, hnone, hgen⟩ := idle_stop hpid h
  unfold AppState.startIdle
  split
  · exact ⟨(own_carries (beginStop_moved s.child none)).trans (endLoad_carries _ _),
      howned.weaken, rfl, rfl, (own_flag s _).trans (endLoad_flag _ _),
      beginStop_unready s.child none, fun _ => ⟨hnone, hgen⟩, fun hf => by cases hf⟩
  · have hproc : s.prepare.processorOf id mode = s.processorOf id mode := by
      unfold AppState.prepare
      split <;> rfl
    have hcarries : Carries s (s.prepare.own (s.child.beginStop none).1) :=
      (prepare_carries s).trans (own_carries (by
        rw [prepare_child]
        exact beginStop_moved s.child none))
    have hstart := launch_started (s := s.prepare.own (s.child.beginStop none).1) howned hnone
      (beginStop_unready s.child none) ⟨path, id, mode, s.processorOf id mode, switch⟩ fault engine
    simp only [prepare_child, hproc]
    exact hstart.of_carries hcarries hgen (prepare_logs s) (prepare_preference s)
      ((prepare_flag s).trans (own_flag _ _))

/-- How a failed process is dealt with: its switch ends, or a process is started
on the CPU in its place. -/
structure Failed (s : AppState) (k : Nat) (switch : Option (Option Nat)) (s' : AppState) : Prop
    extends Carries s s' where
  hits : s'.hits = s.hits
  unready : s'.child.ready = false
  cases : s'.child.generation = s.child.generation ∧ s'.child.pid = none ∧
      s'.fallbacks = s.fallbacks ∧ s'.ended = switch.toList.map (·, s.selection) ++ s.ended ∨
    s.child.active ≠ .cpu ∧ s.load.generation ≤ s.child.generation ∧
      s'.fallbacks = ⟨k, s'.child.generation, s.load.generation⟩ :: s.fallbacks ∧
      s'.ended = s.ended ∧ ∃ path id, Spawns s ⟨path, id, .cpu, .cpu, switch⟩ s'

theorem Started.failed {path : Nat} {id : Option Nat} {mode : Mode} {processor : Processor}
    {switch : Option (Option Nat)} {s' : AppState} {k : Nat}
    (h : Started s ⟨path, id, mode, processor, switch⟩ s' false) :
    Failed s k switch (s'.switchEnds switch) := by
  obtain ⟨hpid, hgen⟩ := h.fails rfl
  have hended : s'.ended = s.ended := congrArg (·.1) h.logs
  have hfall : s'.fallbacks = s.fallbacks := congrArg (·.2.1) h.logs
  have hhits : s'.hits = s.hits := congrArg (·.2.2) h.logs
  have hsel : s'.selection = s.selection := congrArg Policy.selection h.policy
  refine ⟨h.toCarries.trans (switchEnds_carries s' switch), hhits, h.unready,
    .inl ⟨hgen, hpid, hfall, ?_⟩⟩
  unfold AppState.switchEnds
  simp only
  rw [hsel, hended]

theorem fallBack_failed (h : Owned strict s.child) (hpid : s.child.pid = none)
    (hready : s.child.ready = false) (k : Nat) (switch : Option (Option Nat)) (w : World)
    (hload : s.load.generation ≤ s.child.generation) :
    Failed s k switch (s.fallBack k switch w) := by
  have hstart := startIdle_started h hpid s.chosen s.activeId .cpu switch w.fault w.engine
  unfold AppState.fallBack
  generalize s.startIdle s.chosen s.activeId .cpu switch w.fault w.engine = started at hstart
  obtain ⟨s₁, ok⟩ := started
  split
  · next hactive =>
      simp only
      cases ok with
      | true =>
          have hended : s₁.ended = s.ended := congrArg (·.1) hstart.logs
          have hfall : s₁.fallbacks = s.fallbacks := congrArg (·.2.1) hstart.logs
          obtain ⟨hmode, hgen, hnext, hpid', hnew⟩ := hstart.starts rfl
          rw [if_pos rfl]
          refine ⟨hstart.toCarries.trans (fallbacks_carries s₁ _), congrArg (·.2.2) hstart.logs,
            hstart.unready, .inr ⟨hactive.1, hload, ?_, hended, s.chosen, s.activeId, hmode, hgen, hnext, hpid',
              hnew⟩⟩
          exact congrArg (_ :: ·) hfall
      | false =>
          rw [if_neg Bool.false_ne_true]
          exact hstart.failed
  · exact ⟨switchEnds_carries s switch, rfl, hready, .inl ⟨rfl, hpid, rfl, rfl⟩⟩

theorem Failed.of_carries {s₀ : AppState} {k : Nat} {switch : Option (Option Nat)} {s' : AppState}
    (hc : Carries s₀ s) (hgen : s.child.generation = s₀.child.generation)
    (hactive : s.child.active = s₀.child.active) (hlogs : logs s = logs s₀)
    (hload : s.load.generation = s₀.load.generation) (h : Failed s k switch s') :
    Failed s₀ k switch s' := by
  have hended : s.ended = s₀.ended := congrArg (·.1) hlogs
  have hfall : s.fallbacks = s₀.fallbacks := congrArg (·.2.1) hlogs
  have hhits : s.hits = s₀.hits := congrArg (·.2.2) hlogs
  have hsel : s.selection = s₀.selection := congrArg Policy.selection hc.policy
  refine ⟨hc.trans h.toCarries, h.hits.trans hhits, h.unready, ?_⟩
  rcases h.cases with ⟨hg, hp, hf, he⟩ | ⟨ha, hl, hf, he, path, id, hmode, hload', hnext, hp, hnew⟩
  · refine .inl ⟨hg.trans hgen, hp, hf.trans hfall, ?_⟩
    rw [he, hsel, hended]
  · rw [hactive] at ha
    rw [hload, hgen] at hl
    rw [hload, hfall] at hf
    exact .inr ⟨ha, hl, hf, he.trans hended, path, id, hmode, hload', by rw [hnext, hgen], hp, hnew⟩

/-- The switch that a process which fails belongs to: one that was ready has
ended its switch. -/
def failedSwitch (c : Child) (k : Nat) (loading : Bool) : Option (Option Nat) :=
  if loading then (c.procs k).bind (·.switch) else none

theorem finish_generation (a : Activity) (o : Outcome) : (a.finish o).generation = a.generation := by
  unfold Activity.finish
  split <;> rfl

/-- A process that failed, when it is gone or reaped. -/
theorem childFailed_failed (h : Owned strict s.child) (hpid : s.child.pid = none) (k : Nat)
    (loading : Bool) (w : World) :
    Failed s k (failedSwitch s.child k loading) (s.childFailed k loading w) := by
  have hgone : Carries s (s.own s.child.gone) := own_carries (gone_moved s.child)
  have hbefore : Carries s ((s.own s.child.gone).endLoad .failed) :=
    hgone.trans (endLoad_carries _ _)
  have hload : ((s.own s.child.gone).endLoad .failed).load.generation = s.load.generation :=
    finish_generation s.load .failed
  unfold AppState.childFailed
  simp only
  split
  · exact ⟨hgone.trans (switchEnds_carries _ _), rfl, rfl, .inl ⟨rfl, rfl, rfl, rfl⟩⟩
  · next hnewer =>
      have hle : s.load.generation ≤ s.child.generation := Nat.not_lt.mp hnewer
      refine Failed.of_carries hbefore rfl rfl rfl hload ?_
      exact fallBack_failed (Owned.gone h hpid) rfl rfl k _ w (hload ▸ hle)

/-- The model becomes ready. -/
theorem published_carries {k : Nat} {p : Process} (hpid : s.child.pid = some k)
    (hp : s.child.procs k = some p) (hstopping : s.child.stopping = false) (saves : Bool) :
    Carries s ((s.own s.child.identified).published saves) := by
  refine ⟨rfl, publish_moved hpid hp hstopping, fun _ => .refl _ _ _, fun _ =>
    ⟨rfl, fun hs => (by cases hs), ?_⟩, fun _ => rfl⟩
  unfold AppState.published
  simp only
  split
  · next hsave =>
      simp only [Bool.and_eq_true] at hsave
      exact .inr hsave.1
  · exact .inl rfl

/-! ## The calls that can wait -/

/-- A `stop_child` that is done. -/
structure Stops (c c' : Child) : Prop extends Moved c c' where
  owned : Owned False c'
  pid : c'.pid = none
  same : c'.generation = c.generation
  unready : c'.ready = false

/-- A `stop_child` that has begun and waits. -/
structure Revoked (c : Child) (cause : Option Nat) (wait : Wait) (c' : Child) : Prop
    extends Moved c c' where
  pid : c'.pid = c.pid
  alive : ∃ k, c.pid = some k
  same : c'.generation = c.generation
  procs_eq : c'.procs = c.procs
  stopped : c'.stopping = true
  unready : c'.ready = false
  since : wait.since = c.generation
  cause_eq : wait.cause = cause
  touched : Touches cause c c'

theorem beginStop_stops (h : Spawned False c) {cause : Option Nat}
    (hdone : (c.beginStop cause).2 = none) : Stops c (c.beginStop cause).1 :=
  ⟨beginStop_moved c cause, (h.beginStop cause).2 hdone, (beginStop_done hdone).1,
    (beginStop_done hdone).2.2, beginStop_unready c cause⟩

theorem beginStop_revoked {cause : Option Nat} {wait : Wait}
    (hwait : (c.beginStop cause).2 = some wait) : Revoked c cause wait (c.beginStop cause).1 := by
  obtain ⟨hsince, hcause, k, hpid, _, heq⟩ := beginStop_waits hwait
  refine ⟨beginStop_moved c cause, ?_, ⟨k, hpid⟩, ?_, ?_, ?_, beginStop_unready c cause, hsince,
    hcause, beginStop_touches c cause⟩ <;> rw [heq] <;> rfl

theorem stopChild_cases (h : Spawned False s.child) (cause : Option Nat) (k : Cont) (w : World) :
    (∃ wait c, stopChild s cause k w = (s.own c, .waiting wait k) ∧
      Revoked s.child cause wait c) ∨
    ∃ c, stopChild s cause k w = afterStop k (s.own c) w ∧ Stops s.child c ∧
      Touches cause s.child c := by
  unfold stopChild
  simp only
  split
  · next wait heq => exact .inl ⟨wait, _, rfl, beginStop_revoked heq⟩
  · next heq => exact .inr ⟨_, rfl, beginStop_stops h heq, beginStop_touches s.child cause⟩

theorem wakes_cases (h : Owned strict s.child) (wait : Wait) (k : Cont) (w : World) :
    (∃ wait', wakes s wait k w = (s, .waiting wait' k) ∧ wait'.since = wait.since ∧
      wait'.cause = wait.cause) ∨
    ∃ c, wakes s wait k w = afterStop k (s.own c) w ∧ Stops s.child c ∧
      Touches wait.cause s.child c := by
  have hspawned : Spawned False s.child := ⟨h.named, h.last, h.known, fun hf => hf.elim⟩
  unfold wakes
  simp only
  split
  · next wait' heq =>
      obtain ⟨hc, hsince, hcause, _⟩ := stopLook_waits heq
      exact .inl ⟨wait', by rw [hc, own_self], hsince, hcause⟩
  · next heq =>
      obtain ⟨hpid, _, hgen⟩ := stopLook_done heq
      exact .inr ⟨_, rfl, ⟨stopLook_moved s.child wait,
        (hspawned.stopLook fun hf => hf.elim).2 heq, hpid, hgen, stopLook_unready heq⟩,
        stopLook_touches s.child wait⟩

/-- What follows a `stop_child` for a start. -/
inductive StartCont (c : Caller) (r : Start) : Cont → Prop where
  | start : StartCont c r (.start r c)
  | refused : StartCont c r (.refused c)

theorem afterStop_started {c : Caller} {r : Start} {k : Cont} (hk : StartCont c r k)
    {ch : Child} (h : Stops s.child ch) {cause : Option Nat} (ht : Touches cause s.child ch)
    (w : World) :
    ∃ s₁ ok, afterStop k (s.own ch) w = afterStart c s₁ ok w ∧ Started s r s₁ ok ∧
      (ok = true → k = .start r c) ∧ FlagStands s s₁ ∧ Touches cause s.child s₁.child := by
  have hc : Carries s (s.own ch) := own_carries h.toMoved
  cases hk with
  | start =>
      have hstart := launch_started (s := s.own ch) h.owned h.pid h.unready r w.fault w.engine
      exact ⟨_, _, rfl, hstart.of_carries hc h.same rfl rfl (own_flag s ch), fun _ => rfl,
        launch_stands (s.own ch) r w.fault w.engine,
        ht.trans (launch_touches (s.own ch) r w.fault w.engine)⟩
  | refused =>
      exact ⟨_, _, rfl, ⟨hc.trans (endLoad_carries _ _), h.owned, rfl, rfl,
        (own_flag s ch).trans (endLoad_flag _ _), h.unready,
        fun _ => ⟨h.pid, h.same⟩, fun hf => (by cases hf)⟩, fun hf => (by cases hf),
        ⟨rfl, finish_id s.load .failed⟩, ht⟩

/-- What a start has made of the load activity and its flag when it begins to wait. -/
structure Prepared (s : AppState) (k : Cont) (s' : AppState) : Prop where
  flag : FlagKept s s'
  clear : ∀ {r c}, k = .start r c → s'.loadCancelled = .clear
  load : s'.load = s.load ∨ s'.load.generation = s.child.generation + 1

theorem prepare_prepared (s : AppState) (c : Child) (k : Cont) : Prepared s k (s.prepare.own c) := by
  refine ⟨.inl rfl, fun _ => rfl, ?_⟩
  unfold AppState.prepare
  split
  · exact .inr rfl
  · exact .inl rfl

theorem startChildMode_cases (h : Owned strict s.child) (path : Nat) (id : Option Nat)
    (mode : Mode) (switch : Option (Option Nat)) (c : Caller) (w : World) :
    (∃ s₁ wait r k, startChildMode s path id mode switch c w = (s₁, .waiting wait k) ∧
      StartCont c r k ∧ r.mode = mode ∧ r.switch = switch ∧ Carries s s₁ ∧ logs s₁ = logs s ∧
      Prepared s k s₁ ∧ Revoked s.child none wait s₁.child) ∨
    ∃ s₁ ok r, startChildMode s path id mode switch c w = afterStart c s₁ ok w ∧ r.mode = mode ∧
      r.switch = switch ∧ Started s r s₁ ok ∧ Touches none s.child s₁.child := by
  have hspawned : Spawned False s.child := ⟨h.named, h.last, h.known, fun hf => hf.elim⟩
  have hprep := prepare_carries s
  have hr : StartCont c ⟨path, id, mode, s.processorOf id mode, switch⟩ (.refused c) := .refused
  unfold startChildMode
  split
  · rcases stopChild_cases hspawned none (.refused c) w with
      ⟨wait, ch, heq, hrev⟩ | ⟨ch, heq, hstop, ht⟩
    · exact .inl ⟨_, _, _, _, heq, hr, rfl, rfl, own_carries hrev.toMoved, rfl,
        ⟨own_flag s ch, fun hk => (by cases hk), .inl rfl⟩, hrev⟩
    · obtain ⟨s₁, ok, heq', hstart, _, _, ht'⟩ := afterStop_started hr hstop ht w
      exact .inr ⟨s₁, ok, _, heq.trans heq', rfl, rfl, hstart, ht'⟩
  · have hspawned' : Spawned False s.prepare.child := by rw [prepare_child]; exact hspawned
    have hk : StartCont c ⟨path, id, mode, s.prepare.processorOf id mode, switch⟩
        (.start ⟨path, id, mode, s.prepare.processorOf id mode, switch⟩ c) := .start
    rcases stopChild_cases hspawned' none
      (.start ⟨path, id, mode, s.prepare.processorOf id mode, switch⟩ c) w with
      ⟨wait, ch, heq, hrev⟩ | ⟨ch, heq, hstop, ht⟩
    · refine .inl ⟨_, _, _, _, heq, hk, rfl, rfl, hprep.trans (own_carries hrev.toMoved),
        prepare_logs s, prepare_prepared s ch _, ?_⟩
      rw [prepare_child] at hrev
      exact hrev
    · obtain ⟨s₁, ok, heq', hstart, _, _, ht'⟩ := afterStop_started hk hstop ht w
      exact .inr ⟨s₁, ok, _, heq.trans heq', rfl, rfl, hstart.of_carries hprep
        (congrArg Child.generation (prepare_child s)) (prepare_logs s) (prepare_preference s)
        (prepare_flag s), by rw [prepare_child] at ht'; exact ht'⟩

end GeistServe.Proofs
