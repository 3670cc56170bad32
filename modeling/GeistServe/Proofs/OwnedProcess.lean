import GeistServe.Supervisor.Moves

/-!
# The owned process

`Owned` holds in every state of every run: the one process that is not reaped
is the one that `pid` names, and it is the last that was started. While no
process is started beside a `stop_child` that waits, no call touches a process
that was started after it began; `strict` switches that part on.

`Spawned` is what also holds inside of a section, between a reaping and the end
of `stop_child`, and between a start that fails and the cleaning up.
-/

namespace GeistServe.Proofs

open GeistServe.Lib GeistServe.Supervisor

/-! ## One child -/

/-- A process that is not reaped is the one that `pid` names, and that is the
last one; no touch goes beyond what had been started before. -/
structure Spawned (strict : Prop) (c : Child) : Prop where
  named : ∀ {k p}, c.procs k = some p → p.life ≠ .reaped → c.pid = some k
  last : ∀ {k}, c.pid = some k → k = c.generation
  known : ∀ {k p}, c.procs k = some p → 1 ≤ k ∧ k ≤ c.generation
  touches : strict → ∀ t ∈ c.touched, t.proc ≤ t.since

structure Owned (strict : Prop) (c : Child) : Prop extends Spawned strict c where
  alive : ∀ {k}, c.pid = some k → ∃ p, c.procs k = some p ∧ p.life ≠ .reaped
  socket : c.socketPath = c.pid

variable {strict : Prop} {c : Child}

theorem Owned.of_none (h : Spawned strict c) (hpid : c.pid = none) (hsock : c.socketPath = none) :
    Owned strict c := by
  refine ⟨h, fun {k} hk => ?_, hsock.trans hpid.symm⟩
  rw [hpid] at hk
  cases hk

theorem setLife_procs_ne {k n : Nat} (l : Life) (h : n ≠ k) :
    (c.setLife k l).procs n = c.procs n := by
  simp only [Child.setLife]
  rw [Function.update_of_ne h]

theorem setLife_procs_same (c : Child) (k : Nat) (l : Life) :
    (c.setLife k l).procs k = (c.procs k).map ({ · with life := l }) := by
  simp only [Child.setLife]
  rw [Function.update_self]

/-- The life of a process is all that `setLife` changes. -/
theorem setLife_procs {k n : Nat} {l : Life} {p : Process}
    (h : (c.setLife k l).procs n = some p) :
    ∃ p₀, c.procs n = some p₀ ∧ (n ≠ k → p = p₀) ∧ (n = k → p = { p₀ with life := l }) := by
  by_cases hn : n = k
  · subst hn
    rw [setLife_procs_same] at h
    obtain ⟨p₀, hp₀, rfl⟩ := Option.map_eq_some_iff.mp h
    exact ⟨p₀, hp₀, fun hne => absurd rfl hne, fun _ => rfl⟩
  · rw [setLife_procs_ne l hn] at h
    exact ⟨p, h, fun _ => rfl, fun he => absurd he hn⟩

theorem runs_iff {k : Nat} : c.runs k = true ↔ ∃ p, c.procs k = some p ∧ p.life = .running := by
  unfold Child.runs
  cases c.procs k with
  | none => simp
  | some p => simp

theorem Spawned.reap (h : Spawned strict c) {k : Nat} (hpid : c.pid = some k) :
    Spawned strict { c.setLife k .reaped with pid := none } := by
  refine ⟨fun {n p} hp hlife => ?_, fun {n} hn => (by cases hn), fun {n p} hp => ?_, h.touches⟩
  · obtain ⟨p₀, hp₀, hother, hsame⟩ := setLife_procs hp
    by_cases hn : n = k
    · exact absurd (congrArg Process.life (hsame hn)) hlife
    · rw [hother hn] at hlife
      have hk := h.named hp₀ hlife
      rw [hpid] at hk
      injection hk with hk
      exact absurd hk.symm hn
  · obtain ⟨p₀, hp₀, _⟩ := setLife_procs hp
    exact h.known hp₀

theorem Spawned.setLife (h : Spawned strict c) {k : Nat} (hpid : c.pid = some k) (l : Life) :
    Spawned strict (c.setLife k l) := by
  refine ⟨fun {n p} hp hlife => ?_, h.last, fun {n p} hp => ?_, h.touches⟩
  · obtain ⟨p₀, hp₀, hother, _⟩ := setLife_procs hp
    by_cases hn : n = k
    · exact hn ▸ hpid
    · rw [hother hn] at hlife
      exact h.named hp₀ hlife
  · obtain ⟨p₀, hp₀, _⟩ := setLife_procs hp
    exact h.known hp₀

theorem Spawned.touch (h : Spawned strict c) {w : Wait} {k : Option Nat}
    (hk : strict → ∀ n ∈ k, n ≤ w.since) : Spawned strict (c.touch w k) := by
  refine ⟨h.named, h.last, h.known, fun hstrict t ht => ?_⟩
  simp only [Child.touch, List.mem_append, List.mem_map, Option.mem_toList] at ht
  rcases ht with ⟨n, hn, rfl⟩ | ht
  · exact hk hstrict n hn
  · exact h.touches hstrict t ht

theorem peer_le (h : Spawned strict c) {n : Nat} (hn : n ∈ c.peer) : n ≤ c.generation := by
  unfold Child.peer at hn
  split at hn
  · next m hm =>
      split at hn
      · next hsome =>
          obtain ⟨p, hp⟩ := Option.isSome_iff_exists.mp hsome
          cases hn
          exact (h.known hp).2
      · cases hn
  · cases hn

theorem pid_le (h : Spawned strict c) {n : Nat} (hn : n ∈ c.pid) : n ≤ c.generation :=
  Nat.le_of_eq (h.last hn)

theorem Spawned.runtimePathsClose (h : Spawned strict c) {w : Wait}
    (hw : strict → c.generation ≤ w.since) : Spawned strict (c.runtimePathsClose w) := by
  have ht := h.touch (w := w) (k := c.peer) fun hstrict n hn =>
    (peer_le h hn).trans (hw hstrict)
  exact ⟨ht.named, ht.last, ht.known, ht.touches⟩

theorem stopEnd_pid (c : Child) (w : Wait) :
    (c.stopEnd w).pid = none ∧ (c.stopEnd w).socketPath = none := by
  unfold Child.stopEnd
  cases hpid : c.pid with
  | some k => exact ⟨rfl, rfl⟩
  | none => exact ⟨hpid, rfl⟩

theorem stopEnd_generation (c : Child) (w : Wait) : (c.stopEnd w).generation = c.generation := by
  unfold Child.stopEnd
  cases c.pid <;> rfl

theorem Spawned.stopEnd (h : Spawned strict c) {w : Wait}
    (hw : strict → c.generation ≤ w.since) : Owned strict (c.stopEnd w) := by
  obtain ⟨hpid', hsock'⟩ := stopEnd_pid c w
  refine Owned.of_none ?_ hpid' hsock'
  unfold Child.stopEnd
  cases hpid : c.pid with
  | none =>
      have hclose := h.runtimePathsClose hw
      exact ⟨hclose.named, hclose.last, hclose.known, hclose.touches⟩
  | some k =>
      have htouch : Spawned strict (c.touch w (some k)) := h.touch fun hstrict n hn =>
        (pid_le h (hpid ▸ hn)).trans (hw hstrict)
      have hreap := htouch.reap (k := k) hpid
      have hclose := hreap.runtimePathsClose (w := w) hw
      exact ⟨hclose.named, hclose.last, hclose.known, hclose.touches⟩

/-- Where a look of `stop_child` leads: to its end, without a process, or to the
next look, with the process alive. -/
theorem stopLook_cases (c : Child) (w : Wait) :
    (∃ c₀, c.stopLook w = (c₀.stopEnd w, none) ∧ (c₀ = c ∨
      (∃ k, c.pid = some k ∧ c.runs k = false ∧
        c₀ = { (c.setLife k .reaped).touch w (some k) with pid := none }) ∨
      c.pid = none ∧ c₀ = { c.touch w none with pid := none })) ∨
    (∃ k, c.pid = some k ∧ c.runs k = true ∧ 0 < w.looks ∧
      c.stopLook w = (c, some { w with looks := w.looks - 1 })) := by
  unfold Child.stopLook
  split
  · exact .inl ⟨c, rfl, .inl rfl⟩
  · next hlooks =>
      unfold Child.waitpid
      cases hpid : c.pid with
      | none =>
          refine .inl ⟨{ c.touch w none with pid := none }, ?_, .inr (.inr ⟨rfl, rfl⟩)⟩
          simp only [hpid]
      | some k =>
          cases hruns : c.runs k with
          | true => exact .inr ⟨k, rfl, hruns, Nat.pos_of_ne_zero hlooks, by simp [hruns]⟩
          | false =>
              refine .inl ⟨_, ?_, .inr (.inl ⟨k, rfl, hruns, rfl⟩)⟩
              simp only [hruns, Child.setLife, hpid]
              rfl

theorem Spawned.stopLook (h : Spawned strict c) {w : Wait}
    (hw : strict → c.generation ≤ w.since) : Spawned strict (c.stopLook w).1 ∧
      ((c.stopLook w).2 = none → Owned strict (c.stopLook w).1) := by
  rcases stopLook_cases c w with ⟨c₀, heq, hc₀⟩ | ⟨k, hpid, hruns, hlooks, heq⟩
  · have hgen : c₀.generation = c.generation := by
      rcases hc₀ with rfl | ⟨k, _, _, rfl⟩ | ⟨_, rfl⟩ <;> rfl
    have hspawned : Spawned strict c₀ := by
      rcases hc₀ with rfl | ⟨k, hpid, _, rfl⟩ | ⟨hpid, rfl⟩
      · exact h
      · have hreap := h.reap hpid
        have := hreap.touch (w := w) (k := some k) fun hstrict n hn =>
          (pid_le h (hpid ▸ hn)).trans (hw hstrict)
        exact ⟨this.named, this.last, this.known, this.touches⟩
      · have := h.touch (w := w) (k := none) fun _ n hn => by cases hn
        exact ⟨fun hp hl => hpid ▸ this.named hp hl, fun hk => (by cases hk), this.known,
          this.touches⟩
    have howned := hspawned.stopEnd (w := w) fun hstrict => hgen ▸ hw hstrict
    rw [heq]
    exact ⟨howned.toSpawned, fun _ => howned⟩
  · rw [heq]
    exact ⟨h, fun hnone => by cases hnone⟩

theorem beginStop_some {cause : Option Nat} {k : Nat} (h : c.pid = some k) :
    c.beginStop cause =
      (c.revoke.touch ⟨c.generation, 20, cause⟩ (some k)).stopLook ⟨c.generation, 20, cause⟩ := by
  unfold Child.beginStop
  simp only [h]

theorem beginStop_none {cause : Option Nat} (h : c.pid = none) :
    c.beginStop cause = ((c.revoke.runtimePathsClose ⟨c.generation, 20, cause⟩).release, none) := by
  unfold Child.beginStop
  simp only [h]

theorem Spawned.revoke (h : Spawned strict c) : Spawned strict c.revoke :=
  ⟨h.named, h.last, h.known, h.touches⟩

theorem Spawned.release (h : Spawned strict c) : Spawned strict c.release :=
  ⟨h.named, h.last, h.known, h.touches⟩

theorem Spawned.beginStop (h : Spawned strict c) (cause : Option Nat) :
    Spawned strict (c.beginStop cause).1 ∧
      ((c.beginStop cause).2 = none → Owned strict (c.beginStop cause).1) := by
  cases hpid : c.pid with
  | none =>
      have hclose := (h.revoke.runtimePathsClose (w := ⟨c.generation, 20, cause⟩) fun _ =>
        Nat.le_refl _).release
      have howned := Owned.of_none hclose hpid rfl
      rw [beginStop_none hpid]
      exact ⟨howned.toSpawned, fun _ => howned⟩
  | some k =>
      have htouch := h.revoke.touch (w := ⟨c.generation, 20, cause⟩) (k := some k) fun _ n hn =>
        pid_le h (hpid ▸ hn)
      rw [beginStop_some hpid]
      exact htouch.stopLook fun _ => Nat.le_refl _

/-- A `stop_child` that has to wait leaves the process as it is. -/
theorem stopLook_waits {w w' : Wait} (h : (c.stopLook w).2 = some w') :
    (c.stopLook w).1 = c ∧ w'.since = w.since ∧ w'.cause = w.cause ∧
      ∃ k, c.pid = some k ∧ c.runs k = true := by
  rcases stopLook_cases c w with ⟨c₀, heq, _⟩ | ⟨k, hpid, hruns, _, heq⟩
  · rw [heq] at h
    cases h
  · rw [heq] at h ⊢
    cases h
    exact ⟨rfl, rfl, rfl, k, hpid, hruns⟩

theorem beginStop_waits {cause : Option Nat} {w : Wait} (h : (c.beginStop cause).2 = some w) :
    w.since = c.generation ∧ w.cause = cause ∧ ∃ k, c.pid = some k ∧ c.runs k = true ∧
      (c.beginStop cause).1 = c.revoke.touch ⟨c.generation, 20, cause⟩ (some k) := by
  cases hpid : c.pid with
  | none =>
      rw [beginStop_none hpid] at h
      cases h
  | some k =>
      rw [beginStop_some hpid] at h ⊢
      obtain ⟨heq, hsince, hcause, k', hk', hruns⟩ := stopLook_waits h
      have hk' : c.pid = some k' := hk'
      rw [hpid] at hk'
      injection hk' with hk'
      exact ⟨hsince, hcause, k, rfl, hk' ▸ hruns, heq⟩

/-- A stop that is done leaves no process. -/
theorem stopLook_done {w : Wait} (h : (c.stopLook w).2 = none) :
    (c.stopLook w).1.pid = none ∧ (c.stopLook w).1.socketPath = none ∧
      (c.stopLook w).1.generation = c.generation := by
  rcases stopLook_cases c w with ⟨c₀, heq, hc₀⟩ | ⟨k, _, _, _, heq⟩
  · rw [heq]
    obtain ⟨hpid, hsock⟩ := stopEnd_pid c₀ w
    refine ⟨hpid, hsock, (stopEnd_generation c₀ w).trans ?_⟩
    rcases hc₀ with rfl | ⟨k, _, _, rfl⟩ | ⟨_, rfl⟩ <;> rfl
  · rw [heq] at h
    cases h

theorem beginStop_done {cause : Option Nat} (h : (c.beginStop cause).2 = none) :
    (c.beginStop cause).1.pid = none ∧ (c.beginStop cause).1.socketPath = none ∧
      (c.beginStop cause).1.generation = c.generation := by
  cases hpid : c.pid with
  | none =>
      rw [beginStop_none hpid]
      exact ⟨hpid, rfl, rfl⟩
  | some k =>
      rw [beginStop_some hpid] at h ⊢
      exact stopLook_done h

theorem Spawned.bind (h : Spawned strict c) (bound : Bool) :
    Spawned strict (c.directory.bind bound) :=
  ⟨h.named, h.last, h.known, h.touches⟩

/-- A start that fails leaves what its `stop_child` cleans up. -/
theorem launch_fails {packaged : Nat} {p : Process} {fault : Option Fault} {c' : Child}
    (hpid : c.pid = none) (h : c.launch packaged p fault = (c', false)) :
    c'.pid = none ∧ c'.generation = c.generation ∧ c'.active = c.active ∧
      c'.procs = c.procs ∧ (Spawned strict c → Spawned strict c') := by
  unfold Child.launch at h
  split at h
  · cases h
    exact ⟨hpid, rfl, rfl, rfl, fun h => ⟨h.named, h.last, h.known, h.touches⟩⟩
  · cases h
    exact ⟨hpid, rfl, rfl, rfl, fun h => ⟨h.named, h.last, h.known, h.touches⟩⟩
  · next bound =>
      cases h
      rw [beginStop_none (c := ({ c with engine := packaged } : Child).directory.bind bound) hpid]
      refine ⟨hpid, rfl, rfl, rfl, fun h => ?_⟩
      have hbind : Spawned strict (({ c with engine := packaged } : Child).directory.bind bound) :=
        ⟨h.named, h.last, h.known, h.touches⟩
      exact (hbind.revoke.runtimePathsClose fun _ => Nat.le_refl _).release
  · cases h
    exact ⟨hpid, rfl, rfl, rfl, fun h => ⟨h.named, h.last, h.known, h.touches⟩⟩
  · cases h
    exact ⟨hpid, rfl, rfl, rfl, fun h => ⟨h.named, h.last, h.known, h.touches⟩⟩
  · cases h
    exact ⟨hpid, rfl, rfl, rfl, fun h => ⟨h.named, h.last, h.known, h.touches⟩⟩
  · cases h
    exact ⟨rfl, rfl, rfl, rfl, fun h => ⟨fun hp hl => hpid ▸ h.named hp hl,
      fun hk => (by cases hk), h.known, h.touches⟩⟩
  · cases h

theorem launch_same {packaged : Nat} {p : Process} {fault : Option Fault} {c' : Child}
    (hpid : c.pid = none) (h : c.launch packaged p fault = (c', false)) :
    c'.pid = none ∧ c'.generation = c.generation ∧ c'.active = c.active ∧
      c'.procs = c.procs := by
  have hfails : _ ∧ _ ∧ _ ∧ _ ∧ (Spawned False c → Spawned False c') := launch_fails hpid h
  exact ⟨hfails.1, hfails.2.1, hfails.2.2.1, hfails.2.2.2.1⟩

/-- A start that succeeds is the next process. -/
theorem launch_starts {packaged : Nat} {p : Process} {fault : Option Fault} {c' : Child}
    (h : c.launch packaged p fault = (c', true)) :
    c' = (({ c with engine := packaged } : Child).directory.bind true).spawn p := by
  unfold Child.launch at h
  split at h <;> cases h
  rfl

theorem Spawned.spawn (h : Spawned strict c) (hpid : c.pid = none) {p : Process}
    (hp : p.life ≠ .reaped) (bound : Bool) : Owned strict ((c.directory.bind bound).spawn p) := by
  have hprocs : ((c.directory.bind bound).spawn p).procs =
      Function.update c.procs (c.generation + 1) (some p) := rfl
  refine ⟨⟨fun {k q} hq hl => ?_, fun {k} hk => ?_, fun {k q} hq => ?_, h.touches⟩,
    fun {k} hk => ?_, rfl⟩
  · rw [hprocs] at hq
    by_cases hk : k = c.generation + 1
    · exact hk ▸ rfl
    · rw [Function.update_of_ne hk] at hq
      have := h.named hq hl
      rw [hpid] at this
      cases this
  · injection hk with hk
    exact hk.symm
  · rw [hprocs] at hq
    change 1 ≤ k ∧ k ≤ c.generation + 1
    by_cases hk : k = c.generation + 1
    · omega
    · rw [Function.update_of_ne hk] at hq
      have := h.known hq
      omega
  · injection hk with hk
    refine ⟨p, ?_, hp⟩
    rw [hprocs, ← hk]
    exact Function.update_self ..

/-! ## The parts of poll_child -/

theorem Owned.exit (h : Owned strict c) (k : Nat) : Owned strict (c.exit k) := by
  unfold Child.exit
  split
  · next hruns =>
      obtain ⟨p, hp, hlife⟩ := runs_iff.mp hruns
      have hpid : c.pid = some k := h.named hp (by rw [hlife]; decide)
      refine ⟨h.setLife hpid .zombie, fun {n} hn => ?_, h.socket⟩
      have hn : c.pid = some n := hn
      rw [hpid] at hn
      cases hn
      refine ⟨{ p with life := .zombie }, ?_, fun hl => by cases hl⟩
      rw [setLife_procs_same, hp]
      rfl
  · exact h

/-- `waitpid` by `poll_child`: a process that runs is left as it is, one that has
ended is reaped. -/
theorem Spawned.waitpid (h : Spawned strict c) : Spawned strict c.waitpid.1 := by
  unfold Child.waitpid
  cases hpid : c.pid with
  | none => exact h
  | some k =>
      simp only
      split
      · exact h
      · exact h.setLife hpid .reaped

/-- The process that `waitpid` has found ended is dropped. -/
theorem Owned.dropped (h : Spawned strict c) (hended : c.waitpid.2 = true) :
    Owned strict c.waitpid.1.dropped := by
  have hreaped : Spawned strict { c.waitpid.1 with pid := none } := by
    unfold Child.waitpid at hended ⊢
    cases hpid : c.pid with
    | none =>
        exact ⟨fun hp hl => hpid ▸ h.named hp hl, fun hk => (by cases hk), h.known, h.touches⟩
    | some k =>
        rw [hpid] at hended
        simp only at hended ⊢
        split at hended
        · cases hended
        · next hruns =>
            rw [if_neg hruns]
            exact h.reap hpid
  have htouch := (h.waitpid.touch (w := ⟨c.waitpid.1.generation, 0, none⟩) (k := c.waitpid.1.pid)
    fun _ n hn => pid_le h.waitpid hn)
  have hclose := htouch.runtimePathsClose (w := ⟨c.waitpid.1.generation, 0, none⟩) fun _ =>
    Nat.le_refl _
  refine Owned.of_none ⟨hreaped.named, hreaped.last, hreaped.known, hclose.touches⟩ rfl rfl

theorem Owned.identified (h : Owned strict c) : Owned strict c.identified :=
  ⟨⟨h.named, h.last, h.known, h.touches⟩, h.alive, h.socket⟩

/-- Becoming ready changes what is kept for the proofs only. -/
theorem publish_procs {n : Nat} {q : Process} (h : c.publish.procs n = some q) :
    ∃ p, c.procs n = some p ∧ q.life = p.life ∧ q.processor = p.processor ∧
      q.engine = p.engine ∧ q.load = p.load ∧ q.switch = p.switch := by
  unfold Child.publish at h
  simp only at h
  split at h
  · obtain ⟨p, hp, rfl⟩ := Option.map_eq_some_iff.mp h
    exact ⟨p, hp, rfl, rfl, rfl, rfl, rfl⟩
  · exact ⟨q, h, rfl, rfl, rfl, rfl, rfl⟩

theorem publish_alive {n : Nat} {p : Process} (h : c.procs n = some p) :
    ∃ q, c.publish.procs n = some q ∧ q.life = p.life := by
  unfold Child.publish
  simp only
  split
  · exact ⟨{ p with published := true }, by rw [h]; rfl, rfl⟩
  · exact ⟨p, h, rfl⟩

theorem Owned.publish (h : Owned strict c) : Owned strict c.publish := by
  refine ⟨⟨fun {k q} hq hl => ?_, h.last, fun {k q} hq => ?_, h.touches⟩, fun {k} hk => ?_,
    h.socket⟩
  · obtain ⟨p, hp, hlife, _⟩ := publish_procs hq
    exact h.named hp (hlife ▸ hl)
  · obtain ⟨p, hp, _⟩ := publish_procs hq
    exact h.known hp
  · obtain ⟨p, hp, hl⟩ := h.alive hk
    obtain ⟨q, hq, hlife⟩ := publish_alive hp
    exact ⟨q, hq, hlife ▸ hl⟩

/-! ## What leaves the child alone -/

section Frame

variable (s : AppState)

@[simp] theorem beginLoad_child (g : Nat) : (s.beginLoad g).child = s.child := rfl

@[simp] theorem endLoad_child (o : Outcome) : (s.endLoad o).child = s.child := rfl

@[simp] theorem sample_child (reads : Bool) : (s.sample reads).child = s.child := rfl

@[simp] theorem hit_child (c : Option Nat) (among : List Nat) : (s.hit c among).child = s.child :=
  rfl

@[simp] theorem switchEnds_child (switch : Option (Option Nat)) :
    (s.switchEnds switch).child = s.child := rfl

@[simp] theorem observationBegin_child (t : Thread) (w : World) :
    (s.observationBegin t w).child = s.child := rfl

@[simp] theorem prepare_child : s.prepare.child = s.child := by
  unfold AppState.prepare
  split <;> rfl

@[simp] theorem removed_child (m : Model) (unlinks saves : Bool) :
    (s.removed m unlinks saves).child = s.child := by
  unfold AppState.removed
  simp only
  split
  · split <;> split <;> rfl
  · rfl

@[simp] theorem observationEnd_child (t : Thread) (a : Answer) (w : World) :
    (s.observationEnd t a w).1.child = s.child := by
  unfold AppState.observationEnd
  simp only
  split <;> rfl

@[simp] theorem jobDone_child (ok : Bool) (w : World) : (s.jobDone ok w).child = s.child := by
  unfold AppState.jobDone
  simp only
  split <;> split <;> split <;> (try split) <;> rfl

@[simp] theorem beginJob_child (m : Model) (download activate thread : Bool) :
    (beginJob s m download activate thread).child = s.child := by
  unfold beginJob
  simp only
  split
  · rfl
  · split <;> split <;> (try split) <;> rfl

end Frame

@[simp] theorem own_child (s : AppState) (c : Child) : (s.own c).child = c := rfl

/-! ## Sections -/

variable {s : AppState} {w : World}

theorem launch_owned (h : Owned strict s.child) (hpid : s.child.pid = none) (r : Start)
    (fault : Option Fault) (engine : Nat) :
    Owned strict (s.launch r fault engine).1.child ∧
      ((s.launch r fault engine).2 = false → (s.launch r fault engine).1.child.pid = none) := by
  unfold AppState.launch
  simp only
  generalize hstarted : s.child.launch s.packaged
    ⟨r.processor, engine, s.load.id, r.switch, false, .running⟩ fault = started
  obtain ⟨c, ok⟩ := started
  cases ok with
  | true =>
      have hpack : Owned strict { s.child with engine := s.packaged } :=
        ⟨⟨h.named, h.last, h.known, h.touches⟩, h.alive, h.socket⟩
      refine ⟨?_, fun hf => by cases hf⟩
      rw [if_pos rfl, launch_starts hstarted]
      exact hpack.spawn hpid (fun hl => by cases hl) true
  | false =>
      obtain ⟨hpid', _, _, _, hspawned⟩ := launch_fails hpid hstarted
      have hdone : (c.beginStop none).2 = none := by rw [beginStop_none hpid']
      exact ⟨((hspawned h.toSpawned).beginStop none).2 hdone, fun _ => (beginStop_done hdone).1⟩

theorem startIdle_owned (h : Owned strict s.child) (hpid : s.child.pid = none) (path : Nat)
    (id : Option Nat) (mode : Mode) (switch : Option (Option Nat)) (fault : Option Fault)
    (engine : Nat) :
    Owned strict (s.startIdle path id mode switch fault engine).1.child ∧
      ((s.startIdle path id mode switch fault engine).2 = false →
        (s.startIdle path id mode switch fault engine).1.child.pid = none) := by
  have hdone : (s.child.beginStop none).2 = none := by rw [beginStop_none hpid]
  have hidle := (h.toSpawned.beginStop none).2 hdone
  unfold AppState.startIdle
  split
  · exact ⟨hidle, fun _ => (beginStop_done hdone).1⟩
  · simp only [prepare_child]
    exact launch_owned hidle (beginStop_done hdone).1 _ _ _

theorem Owned.gone (h : Owned strict c) (hpid : c.pid = none) : Owned strict c.gone :=
  Owned.of_none ⟨fun hp hl => absurd (h.named hp hl) (by rw [hpid]; exact fun hk => by cases hk),
    fun hk => (by cases hk), h.known, h.touches⟩ rfl (h.socket.trans hpid)

theorem fallBack_owned (h : Owned strict s.child) (hpid : s.child.pid = none) (k : Nat)
    (switch : Option (Option Nat)) (w : World) : Owned strict (s.fallBack k switch w).child := by
  have hstart := (startIdle_owned h hpid s.chosen s.activeId .cpu switch w.fault w.engine).1
  unfold AppState.fallBack
  split
  · simp only
    split
    · exact hstart
    · exact hstart
  · exact h

theorem childFailed_owned (h : Owned strict s.child) (hpid : s.child.pid = none) (k : Nat)
    (loading : Bool) (w : World) : Owned strict (s.childFailed k loading w).child := by
  have hgone := h.gone hpid
  unfold AppState.childFailed
  simp only
  split
  · exact hgone
  · exact fallBack_owned hgone rfl k _ w

theorem afterObservation_fst (s : AppState) (o : Origin) (a : Answer) :
    (afterObservation s o a).1 = s := by
  unfold afterObservation
  cases o <;> rfl

theorem afterStart_owned (c : Caller) {ok : Bool} (h : Owned strict s.child)
    (hok : ok = false → s.child.pid = none) : Owned strict (afterStart c s ok w).1.child := by
  unfold afterStart
  cases c with
  | boot => exact h
  | job =>
      simp only [jobDone_child]
      split <;> exact h
  | execution path id =>
      cases ok with
      | true => exact h
      | false => exact (startIdle_owned h (hok rfl) _ _ _ _ _ _).1
  | slot n => exact h
  | restore done => exact h

theorem afterStop_owned (k : Cont) (h : Owned strict s.child) (hpid : s.child.pid = none) :
    Owned strict (afterStop k s w).1.child := by
  unfold afterStop
  cases k with
  | loadCancelled p cause => exact h
  | timedOut p => exact childFailed_owned h hpid p true w
  | mismatch p => exact h
  | start r c =>
      obtain ⟨howned, hfails⟩ := launch_owned h hpid r w.fault w.engine
      exact afterStart_owned c howned hfails
  | refused c => exact afterStart_owned c h fun _ => hpid
  | observation o a path id mode =>
      simp only [afterObservation_fst]
      split
      · exact (startIdle_owned h hpid _ _ _ _ _ _).1
      · exact h
  | stopRoute => exact h
  | removeRoute m unlinks saves =>
      simp only [removed_child]
      exact h
  | exit => exact h

theorem stopChild_owned (cause : Option Nat) (k : Cont) (h : Spawned strict s.child)
    (hsock : s.child.socketPath = s.child.pid) :
    Owned strict (stopChild s cause k w).1.child := by
  have hspawned := h.beginStop cause
  unfold stopChild
  simp only
  split
  · next wait heq =>
      obtain ⟨_, _, p, hpid, hruns, hc⟩ := beginStop_waits heq
      simp only [own_child]
      rw [hc] at hspawned ⊢
      refine ⟨hspawned.1, fun {n} hn => ?_, hsock⟩
      obtain ⟨q, hq, hlife⟩ := runs_iff.mp hruns
      have hn : s.child.pid = some n := hn
      rw [hpid] at hn
      cases hn
      exact ⟨q, hq, by rw [hlife]; decide⟩
  · next heq => exact afterStop_owned k (hspawned.2 heq) (beginStop_done heq).1

theorem wakes_owned {wait : Wait} (k : Cont) (h : Owned strict s.child)
    (hw : strict → s.child.generation ≤ wait.since) :
    Owned strict (wakes s wait k w).1.child := by
  unfold wakes
  simp only
  split
  · next wait' heq =>
      simp only [own_child]
      rw [(stopLook_waits heq).1]
      exact h
  · next heq => exact afterStop_owned k ((h.toSpawned.stopLook hw).2 heq) (stopLook_done heq).1

theorem startChildMode_owned (h : Owned strict s.child) (path : Nat) (id : Option Nat)
    (mode : Mode) (switch : Option (Option Nat)) (c : Caller) :
    Owned strict (startChildMode s path id mode switch c w).1.child := by
  unfold startChildMode
  split
  · exact stopChild_owned _ _ h.toSpawned h.socket
  · refine stopChild_owned _ _ ?_ ?_
    · rw [prepare_child]
      exact h.toSpawned
    · rw [prepare_child]
      exact h.socket

theorem pollChild_owned (h : Owned strict s.child) (r : Round) :
    Owned strict (pollChild s r w).1.child := by
  obtain ⟨hp, _, _, _, hsock, _, hsame⟩ := waitpid_rest s.child
  unfold pollChild
  split
  · exact h
  · split
    · exact h
    · split
      · exact stopChild_owned _ _ h.toSpawned h.socket
      · simp only
        split
        · exact stopChild_owned _ _ h.toSpawned.waitpid (hsock.trans (h.socket.trans hp.symm))
        · split
          · next hended => exact childFailed_owned (Owned.dropped h.toSpawned hended) rfl _ _ _
          · next hended =>
              have howned : Owned strict s.child.waitpid.1 := by
                rw [hsame (Bool.eq_false_iff.mpr hended)]
                exact h
              split
              · exact howned
              · split
                · exact howned
                · split
                  · exact stopChild_owned _ _ howned.identified.toSpawned howned.socket
                  · exact howned.identified.publish

@[simp] theorem roundEnd_child (t : Thread) (r : AppState × Pc) (w : World) :
    (roundEnd t r w).1.child = r.1.child := by
  unfold roundEnd
  split <;> rfl

theorem monitorRound_owned (h : Owned strict s.child) (r : Round) :
    Owned strict (monitorRound s r w).1.child := by
  unfold monitorRound
  rw [roundEnd_child]
  exact pollChild_owned h r

theorem execution_owned (h : Owned strict s.child) (mode : Mode) :
    Owned strict (execution s mode w).1.child := by
  unfold execution
  simp only
  split
  · exact h
  · split
    · exact h
    · split
      · split
        · split <;> exact h
        · exact h
      · exact startChildMode_owned h ..

theorem choose_owned (h : Owned strict s.child) (c : Choice) (id : Option Nat) (f : Facts) :
    Owned strict (choose s c id f w).1.child := by
  unfold choose
  split
  · exact h
  · simp only
    split
    · exact h
    · split
      · exact h
      · split
        · split
          · exact h
          · split
            · exact stopChild_owned _ _ h.toSpawned h.socket
            · rw [removed_child]
              exact h
        · split
          · exact h
          · split
            · exact h
            · split
              · split
                · exact h
                · split
                  · rw [beginJob_child]
                    exact h
                  · split
                    · rw [beginJob_child]
                      exact h
                    · exact h
              · split
                · exact h
                · split
                  · rw [beginJob_child]
                    exact h
                  · split
                    · rw [beginJob_child]
                      exact h
                    · exact h

theorem importCatalog_child (s : AppState) (revision : Nat) (models : List Model)
    (conflict : Bool) (w : World) :
    (importCatalog s revision models conflict w).child = s.child := by
  unfold importCatalog
  simp only
  split
  · rfl
  · split
    · rfl
    · split
      · rfl
      · split <;> rfl

theorem handle_owned (h : Owned strict s.child) (t : Thread) (r : Req) :
    Owned strict (handle s t r w).1.child := by
  unfold handle
  cases r with
  | other => exact h
  | generate passes =>
      simp only [admission]
      split <;> exact h
  | completions passes =>
      simp only [admission]
      split <;> exact h
  | compare thread =>
      simp only [comparisonStart]
      split <;> exact h
  | execution mode => exact execution_owned h mode
  | catalog revision models conflict =>
      simp only [importCatalog_child]
      exact h
  | activityCancel instance_ id generation =>
      simp only [activityCancel]
      split
      · split <;> exact h
      · exact h
  | cancel | performanceCancel | quit => exact h
  | quitIfIdle =>
      simp only
      split <;> exact h
  | stop =>
      simp only
      split
      · exact h
      · exact stopChild_owned _ _ h.toSpawned h.socket
  | choose c id f => exact choose_owned h c id f

theorem jobEnd_owned (h : Owned strict s.child) (ok : Bool) :
    Owned strict (jobEnd s ok w).1.child := by
  unfold jobEnd
  split
  · rw [jobDone_child]
    exact h
  · split
    · split
      · exact startChildMode_owned h ..
      · rw [jobDone_child]
        exact h
    · rw [jobDone_child]
      exact h

theorem conclude_owned (h : Owned strict s.child) (o : Origin) (a : Answer) (rc : Nat) :
    Owned strict (conclude s o a rc w).1.child := by
  unfold conclude
  split
  · exact stopChild_owned _ _ h.toSpawned h.socket
  · rw [afterObservation_fst]
    exact h

theorem comparisonMain_owned (h : Owned strict s.child) {pc : Pc} {expired : Bool}
    {r : AppState × Pc} (hr : comparisonMain s pc expired w = some r) :
    Owned strict r.1.child := by
  unfold comparisonMain at hr
  split at hr
  · split at hr <;> cases hr
    exact h
  · split at hr <;> cases hr
    · exact h
    · exact startChildMode_owned h ..
  · split at hr <;> cases hr <;> exact h
  · cases hr
    exact h
  · split at hr <;> cases hr <;> exact h
  · split at hr <;> cases hr
    · exact h
    · exact startChildMode_owned h ..
  · split at hr <;> cases hr <;> exact h
  · cases hr
    exact h
  · cases hr

theorem startup_owned (h : Owned strict s.child) (b : Boot) :
    Owned strict (startup s b w).1.child := by
  unfold startup
  cases b with
  | nothing => exact h
  | custom path => exact startChildMode_owned h ..
  | selected thread =>
      simp only
      split
      · rw [beginJob_child]
        exact h
      · exact h

/-! ## The machine -/

theorem section_owned {s : Sys} {act : Act} {t : Thread} {r : AppState × Pc}
    (h : Owned strict s.app.child)
    (hw : strict → ∀ t wait k, s.pc t = .waiting wait k → s.app.child.generation ≤ wait.since)
    (hsec : Section s act t r) : Owned strict r.1.child := by
  cases hsec with
  | startup hpc => exact startup_owned h _
  | handle hpc => exact handle_owned h _ _
  | poll hpc => exact monitorRound_owned h _
  | wake hpc =>
      rw [roundEnd_child]
      exact wakes_owned _ h fun hs => hw hs _ _ _ hpc
  | jobEnd hpc => exact jobEnd_owned h _
  | answer hpc hr =>
      unfold answers at hr
      split at hr
      · split at hr <;> cases hr
        exact h
      · cases hr
        simp only
        split <;> exact h
  | observed hpc =>
      simp only [observationEnd_child]
      exact h
  | conclude hpc => exact conclude_owned h _ _ _
  | compare hr => exact comparisonMain_owned h hr
  | leave => exact stopChild_owned _ _ h.toSpawned h.socket
  | accept | jobStart | connect | monitorEnd | drain => exact h

theorem step_owned {s s' : Sys} {act : Act} (h : Owned strict s.app.child)
    (hw : strict → ∀ t wait k, s.pc t = .waiting wait k → s.app.child.generation ≤ wait.since)
    (hstep : s.step act = some s') : Owned strict s'.app.child := by
  rcases step_section hstep with ⟨k, rfl, rfl⟩ | ⟨t, r, hsec, rfl⟩
  · exact h.exit k
  · exact section_owned h hw hsec

/-! ## The calls that wait -/

/-- A section that ends in a wait has begun its `stop_child` in this section, and
has started nothing. -/
def WaitsNow (s : AppState) (r : AppState × Pc) : Prop :=
  ∀ wait k, r.2 = .waiting wait k →
    wait.since = s.child.generation ∧ r.1.child.generation = s.child.generation

theorem WaitsNow.of_ne {r : AppState × Pc} (h : ∀ wait k, r.2 ≠ .waiting wait k) :
    WaitsNow s r :=
  fun wait k heq => absurd heq (h wait k)

theorem afterObservation_ne (o : Origin) (a : Answer) (wait : Wait) (k : Cont) :
    (afterObservation s o a).2 ≠ .waiting wait k := by
  unfold afterObservation
  cases o with
  | request => exact fun h => by cases h
  | repetition n r =>
      intro h
      simp only at h
      split at h
      · split at h
        · cases h
        · generalize (if s.compare.gpu = true then 2 else 1) = slots at h
          split at h <;> cases h
      · cases h

theorem afterStart_ne (c : Caller) (ok : Bool) (wait : Wait) (k : Cont) :
    (afterStart c s ok w).2 ≠ .waiting wait k := by
  unfold afterStart
  cases c with
  | boot | job | execution path id => exact fun h => by cases h
  | slot n | restore done =>
      simp only
      split <;> exact fun h => by cases h

theorem afterStop_ne (k : Cont) (wait : Wait) (k' : Cont) :
    (afterStop k s w).2 ≠ .waiting wait k' := by
  unfold afterStop
  cases k with
  | start r c | refused c => exact afterStart_ne _ _ _ _
  | observation o a path id mode => exact afterObservation_ne _ _ _ _
  | loadCancelled p cause | timedOut p | mismatch p | stopRoute | removeRoute m unlinks saves
  | exit => exact fun h => by cases h

theorem stopChild_waits {s₀ : AppState} (hgen : s₀.child.generation = s.child.generation)
    (cause : Option Nat) (k : Cont) : WaitsNow s (stopChild s₀ cause k w) := by
  unfold stopChild
  simp only
  split
  · next wait heq =>
      intro wait' k' h
      injection h with hwait _
      obtain ⟨hsince, _, p, _, _, hc⟩ := beginStop_waits heq
      refine ⟨?_, ?_⟩
      · rw [← hwait, hsince, hgen]
      · simp only [own_child]
        rw [hc]
        exact hgen
  · exact WaitsNow.of_ne fun wait k' => afterStop_ne k wait k'

theorem startChildMode_waits (path : Nat) (id : Option Nat) (mode : Mode)
    (switch : Option (Option Nat)) (c : Caller) :
    WaitsNow s (startChildMode s path id mode switch c w) := by
  unfold startChildMode
  split
  · exact stopChild_waits rfl _ _
  · exact stopChild_waits (congrArg Child.generation (prepare_child s)) _ _

theorem monitorRound_waits (r : Round) : WaitsNow s (monitorRound s r w) := by
  have hidle : ∀ s' : AppState, WaitsNow s (s', .idle) :=
    fun _ => WaitsNow.of_ne fun _ _ h => by cases h
  have hgen := (waitpid_rest s.child).2.2.2.1
  have hpoll : WaitsNow s (pollChild s r w) := by
    unfold pollChild
    split
    · exact hidle _
    · split
      · exact hidle _
      · split
        · exact stopChild_waits rfl _ _
        · simp only
          split
          · exact stopChild_waits hgen _ _
          · split
            · exact hidle _
            · split
              · exact hidle _
              · split
                · exact hidle _
                · split
                  · exact stopChild_waits hgen _ _
                  · exact hidle _
  intro wait k hwait
  rw [monitorRound, roundEnd_snd] at hwait
  rw [monitorRound, roundEnd_child]
  exact hpoll wait k hwait

theorem handle_waits (t : Thread) (r : Req) : WaitsNow s (handle s t r w) := by
  have hidle : ∀ s' : AppState, WaitsNow s (s', .idle) :=
    fun _ => WaitsNow.of_ne fun _ _ h => by cases h
  unfold handle
  cases r with
  | other | compare thread | catalog revision models conflict
  | activityCancel instance_ id generation | cancel | performanceCancel | quit | quitIfIdle =>
      exact hidle _
  | generate passes | completions passes =>
      simp only [admission]
      split
      · exact hidle _
      · exact WaitsNow.of_ne fun _ _ h => by cases h
  | execution mode =>
      simp only [execution]
      split
      · exact hidle _
      · split
        · exact hidle _
        · split
          · split <;> exact hidle _
          · exact startChildMode_waits _ _ _ _ _
  | stop =>
      simp only
      split
      · exact hidle _
      · exact stopChild_waits rfl _ _
  | choose c id f =>
      simp only [choose]
      split
      · exact hidle _
      · split
        · exact hidle _
        · split
          · exact hidle _
          · split
            · split
              · exact hidle _
              · split
                · exact stopChild_waits rfl _ _
                · exact hidle _
            · split
              · exact hidle _
              · split
                · exact hidle _
                · split <;> (try split) <;> (try split) <;> (try split) <;> exact hidle _

theorem jobEnd_waits (ok : Bool) : WaitsNow s (jobEnd s ok w) := by
  have hidle : ∀ s' : AppState, WaitsNow s (s', .idle) :=
    fun _ => WaitsNow.of_ne fun _ _ h => by cases h
  unfold jobEnd
  split
  · exact hidle _
  · split
    · split
      · exact startChildMode_waits _ _ _ _ _
      · exact hidle _
    · exact hidle _

theorem conclude_waits (o : Origin) (a : Answer) (rc : Nat) :
    WaitsNow s (conclude s o a rc w) := by
  unfold conclude
  split
  · exact stopChild_waits rfl _ _
  · exact WaitsNow.of_ne fun wait k => afterObservation_ne o a wait k

theorem comparisonMain_waits {pc : Pc} {expired : Bool} {r : AppState × Pc}
    (hr : comparisonMain s pc expired w = some r) : WaitsNow s r := by
  unfold comparisonMain at hr
  split at hr
  · split at hr <;> cases hr
    exact WaitsNow.of_ne fun _ _ h => by cases h
  · split at hr <;> cases hr
    · exact WaitsNow.of_ne fun _ _ h => by cases h
    · exact startChildMode_waits _ _ _ _ _
  · split at hr <;> cases hr <;> exact WaitsNow.of_ne fun _ _ h => by cases h
  · cases hr
    refine WaitsNow.of_ne fun wait k h => ?_
    simp only at h
    generalize (if _ = 0 then Processor.cpu else Processor.gpu) = expected at h
    split at h <;> cases h
  · split at hr <;> cases hr <;> exact WaitsNow.of_ne fun _ _ h => by cases h
  · split at hr <;> cases hr
    · exact WaitsNow.of_ne fun _ _ h => by cases h
    · exact startChildMode_waits _ _ _ _ _
  · split at hr <;> cases hr <;> exact WaitsNow.of_ne fun _ _ h => by cases h
  · cases hr
    exact WaitsNow.of_ne fun _ _ h => by cases h
  · cases hr

theorem startup_waits (b : Boot) : WaitsNow s (startup s b w) := by
  unfold startup
  cases b with
  | nothing => exact WaitsNow.of_ne fun _ _ h => by cases h
  | custom path => exact startChildMode_waits _ _ _ _ _
  | selected thread =>
      simp only
      split <;> exact WaitsNow.of_ne fun _ _ h => by cases h

theorem connects_ne (o : Origin) (succeeds : Bool) (a : Answer) (wait : Wait) (k : Cont) :
    connects s o succeeds a ≠ .waiting wait k := by
  unfold connects
  split
  · split <;> exact fun h => by cases h
  · exact fun h => by cases h

theorem answers_ne {t : Thread} {o : Origin} {n : Nat} {a : Answer} {r : AppState × Pc}
    (hr : answers s t o n a = some r) (wait : Wait) (k : Cont) : r.2 ≠ .waiting wait k := by
  unfold answers at hr
  split at hr
  · split at hr <;> cases hr
    exact fun h => by cases h
  · cases hr
    exact fun h => by cases h

theorem wakes_waits {wait wait' : Wait} {k k' : Cont}
    (h : (wakes s wait k w).2 = .waiting wait' k') :
    k' = k ∧ wait'.since = wait.since ∧ wait'.cause = wait.cause ∧
      (wakes s wait k w).1 = s.own s.child := by
  unfold wakes at h ⊢
  simp only at h ⊢
  split at h
  · next heq =>
      injection h with hwait hk
      obtain ⟨hc, hsince, hcause, _⟩ := stopLook_waits heq
      refine ⟨hk.symm, hwait ▸ hsince, hwait ▸ hcause, ?_⟩
      simp only
      rw [hc]
  · exact absurd h (afterStop_ne _ _ _)

/-- A section that is no waking begins its own wait. -/
theorem section_waits {s : Sys} {act : Act} {t : Thread} {r : AppState × Pc}
    (hsec : Section s act t r) :
    WaitsNow s.app r ∨ ∃ wait k w, s.pc t = .waiting wait k ∧
      r = roundEnd t (wakes s.app wait k w) w := by
  cases hsec with
  | startup hpc => exact .inl (startup_waits _)
  | handle hpc => exact .inl (handle_waits _ _)
  | poll hpc => exact .inl (monitorRound_waits _)
  | wake hpc => exact .inr ⟨_, _, _, hpc, rfl⟩
  | jobEnd hpc => exact .inl (jobEnd_waits _)
  | connect hpc => exact .inl (WaitsNow.of_ne fun wait k => connects_ne _ _ _ wait k)
  | answer hpc hr => exact .inl (WaitsNow.of_ne fun wait k => answers_ne hr wait k)
  | conclude hpc => exact .inl (conclude_waits _ _ _)
  | compare hr => exact .inl (comparisonMain_waits hr)
  | leave => exact .inl (stopChild_waits rfl _ _)
  | accept | jobStart | observed | monitorEnd | drain =>
      exact .inl (WaitsNow.of_ne fun _ _ h => by cases h)

/-- A `stop_child` that waits behind a step has begun in it, or was waiting
before; its own thread has started nothing in between. -/
theorem step_waits {s s' : Sys} {act : Act} (hstep : s.step act = some s') {t : Thread}
    {wait : Wait} {k : Cont} (h : s'.pc t = .waiting wait k) :
    (wait.since = s.app.child.generation ∧
      s'.app.child.generation = s.app.child.generation) ∨
    ∃ wait₀, s.pc t = .waiting wait₀ k ∧ wait.since = wait₀.since ∧ wait.cause = wait₀.cause ∧
      (act.thread = some t → s'.app.child.generation = s.app.child.generation) := by
  by_cases ht : act.thread = some t
  · rcases step_section hstep with ⟨k, rfl, rfl⟩ | ⟨t', r, hsec, rfl⟩
    · cases ht
    · rw [hsec.thread] at ht
      cases ht
      rw [put_pc_same] at h
      rcases section_waits hsec with hnow | ⟨wait₀, k₀, w, hpc, rfl⟩
      · exact .inl (hnow wait k h)
      · rw [roundEnd_snd] at h
        obtain ⟨rfl, hsince, hcause, happ⟩ := wakes_waits h
        refine .inr ⟨wait₀, hpc, hsince, hcause, fun _ => ?_⟩
        rw [put_app, roundEnd_waiting w h, happ]
        rfl
  · rw [step_pc hstep ht] at h
    exact .inr ⟨wait, h, rfl, rfl, fun he => absurd he ht⟩

/-! ## Every run -/

/-- Every `stop_child` that waits has begun behind the last start. -/
def Timely (s : Sys) : Prop :=
  ∀ t wait k, s.pc t = .waiting wait k → wait.since = s.app.child.generation

/-- No process is started while a `stop_child` of another thread waits. -/
def Undisturbed (s : Sys) (act : Act) : Prop :=
  ∀ s', s.step act = some s' → s'.app.child.generation ≠ s.app.child.generation →
    ∀ t wait k, s.pc t = .waiting wait k → act.thread = some t

theorem step_timely {s s' : Sys} {act : Act} (hok : Undisturbed s act)
    (hstep : s.step act = some s') (h : Timely s) : Timely s' := by
  intro t wait k hpc
  rcases step_waits hstep hpc with ⟨hsince, hgen⟩ | ⟨wait₀, hpc₀, hsince, _, hown⟩
  · exact hsince.trans hgen.symm
  · have hgen : s'.app.child.generation = s.app.child.generation := by
      by_contra hne
      exact hne (hown (hok s' hstep hne t wait₀ k hpc₀))
    exact hsince.trans ((h t wait₀ k hpc₀).trans hgen.symm)

theorem initial_owned {s : Sys} (h : s.Initial) : Owned strict s.app.child := by
  refine Owned.of_none ⟨fun {k p} hp => ?_, fun {k} hk => ?_, fun {k p} hp => ?_, fun _ t ht => ?_⟩
    h.pid h.socketPath
  · rw [h.procs k] at hp
    cases hp
  · rw [h.pid] at hk
    cases hk
  · rw [h.procs k] at hp
    cases hp
  · rw [h.touched] at ht
    cases ht

theorem initial_timely {s : Sys} (h : s.Initial) : Timely s := by
  intro t wait k hpc
  by_cases ht : t = .main
  · rw [ht, h.main] at hpc
    cases hpc
  · rw [h.others t ht] at hpc
    cases hpc

/-- In every run, whatever the order of the steps. -/
theorem reach_owned {s : Sys} {ok : Sys → Act → Prop} (h : appMachine.Reach ok s) :
    Owned False s.app.child := by
  refine h.invariant (I := fun s => Owned False s.app.child) (fun s hs => ?_)
    fun s act s' _ _ hstep hI => ?_
  · exact initial_owned (s := s) hs
  · exact step_owned hI (fun hf => hf.elim) hstep

theorem reach_timely {s : Sys} (h : appMachine.Reach Undisturbed s) :
    Owned True s.app.child ∧ Timely s := by
  refine h.invariant (I := fun s => Owned True s.app.child ∧ Timely s) (fun s hs => ?_)
    fun s act s' _ hok hstep hI => ?_
  · exact ⟨initial_owned (s := s) hs, initial_timely hs⟩
  · obtain ⟨howned, htimely⟩ := hI
    refine ⟨step_owned howned (fun _ t wait k hpc => ?_) hstep, step_timely hok hstep htimely⟩
    exact Nat.le_of_eq (htimely t wait k hpc).symm

/-- A start whose time is up is being stopped when the job of the next model stops
and reaps the process itself, and starts the next; the monitor then goes on with
its stop. -/
def lateStop : List Act :=
  boots ++ selects 0 2 ++
    [.poll { timedOut := true } {}, .exit 1, .jobEnd true {}, .wake .monitor {}, .exit 2,
      .wake .monitor {}]

end GeistServe.Proofs
