import Mathlib.Data.Nat.Digits.Lemmas
import GeistServe.Proofs.Recorded
import GeistServe.Proofs.Segments

/-!
# The record of every request

Two invariants of the watched app. `EndedOnce`: the calls of `observation_end` that
were made for a request and those that its handler still owes it are one. `Observed`:
the record under observation is in its ranges, the proxy's times lie within the
request, and the name of a record that is not submitted yet is unknown to the
store. With them `perf_submit` decides by the bounds alone.
-/

namespace GeistServe.Proofs

open GeistServe.Lib GeistServe.Geistd GeistServe.Perf GeistServe.Observe

variable {line : Record → Bytes} {decode : Bytes → Option Record}

/-! ## One call of `observation_end` -/

/-- The calls of `observation_end` among these. -/
def endsIn (calls : List Call) : Nat := calls.countP (· ≠ .respond)

/-- Those that a handler owes its request. -/
def owedBy : Phase → Nat
  | .chat | .finish _ => 1
  | .tail calls => endsIn calls
  | .ending _ _ rest | .submitting _ _ _ rest | .leaving rest => endsIn rest

/-- Those that the handlers owe the `n`-th record. -/
def owed (request : Option Request) (tails : List (Nat × List Call)) (n : Nat) : Nat :=
  (request.elim 0 fun q => if q.number = n then owedBy q.phase else 0) +
    (tails.map fun t => if t.1 = n then endsIn t.2 else 0).sum

/-- Each way out calls `observation_end` once. -/
theorem endsIn_tail (k : Kind) (p : Proxy) (rc : Int) (x : Sends) : endsIn (k.tail p rc x) = 1 := by
  cases k with
  | app => rfl
  | api stream =>
      simp only [Kind.tail, completionsTail]
      generalize (if rc = 0 ∧ stream = true ∧ (!p.started) = true ∧ (!x.opening) = true then 502
        else rc) = code
      split <;> rfl

theorem endsIn_cons (c : Call) (rest : List Call) :
    endsIn (c :: rest) = endsIn rest + if c = .respond then 0 else 1 := by
  rw [endsIn, List.countP_cons, endsIn]
  by_cases hc : c = .respond
  · simp [hc]
  · simp [hc]

theorem owed_request {tails : List (Nat × List Call)} {q q' : Request}
    (hnumber : q'.number = q.number) (hphase : owedBy q'.phase = owedBy q.phase) (n : Nat) :
    owed (some q') tails n = owed (some q) tails n := by
  simp only [owed, Option.elim_some, hnumber, hphase]

/-- A handler that releases the model takes what it owes with it. -/
theorem owed_leave {tails : List (Nat × List Call)} {q : Request} {rest : List Call}
    (hphase : q.phase = .leaving rest) (n : Nat) :
    owed none (tails ++ [(q.number, rest)]) n = owed (some q) tails n := by
  simp only [owed, Option.elim_none, Option.elim_some, hphase, owedBy, List.map_append,
    List.sum_append, List.map_cons, List.map_nil, List.sum_cons, List.sum_nil]
  omega

/-- One handler behind the model makes a call. -/
theorem owed_late (request : Option Request) {tails : List (Nat × List Call)} {i m : Nat} {c : Call}
    {rest : List Call} (hget : tails[i]? = some (m, c :: rest)) (n : Nat) :
    owed request (tails.set i (m, rest)) n + (if m = n ∧ c ≠ .respond then 1 else 0) =
      owed request tails n := by
  obtain ⟨hi, hget⟩ := List.getElem?_eq_some_iff.mp hget
  have hsplit : tails = tails.take i ++ (m, c :: rest) :: tails.drop (i + 1) := by
    rw [← hget, ← List.drop_eq_getElem_cons hi, List.take_append_drop]
  have hset : tails.set i (m, rest) = tails.take i ++ (m, rest) :: tails.drop (i + 1) := by
    rw [List.set_eq_take_append_cons_drop, if_pos hi]
  rw [hset]
  conv_rhs => rw [hsplit]
  simp only [owed, List.map_append, List.map_cons, List.sum_append, List.sum_cons, endsIn_cons]
  by_cases hm : m = n
  · by_cases hc : c = .respond
    · simp [hm, hc]
    · simp only [hm, hc, ne_eq, not_false_eq_true, and_self, if_true, if_false]
      omega
  · simp [hm]

/-- Every record that was begun for a request is ended once or still to be ended. -/
structure EndedOnce (s : Watch line decode) : Prop where
  once : ∀ n, s.ended.count n + owed s.request s.tails n = if n ∈ s.admitted then 1 else 0
  old : ∀ n ∈ s.admitted, n ≤ s.perf.sequence

/-- What a step does that neither begins nor ends an observation. -/
theorem EndedOnce.same {s s' : Watch line decode} (h : EndedOnce s) (hended : s'.ended = s.ended)
    (howed : ∀ n, owed s'.request s'.tails n = owed s.request s.tails n)
    (hadmitted : s'.admitted = s.admitted) (hseq : s.perf.sequence ≤ s'.perf.sequence) :
    EndedOnce s' := by
  refine ⟨fun n => ?_, fun n hn => ?_⟩
  · rw [hended, howed, hadmitted]
    exact h.once n
  · rw [hadmitted] at hn
    exact Nat.le_trans (h.old n hn) hseq

theorem submit_sequence {C : Codec} (p : Service C) (now : Int) (e : Entry C) :
    (p.submit now e).sequence = p.sequence := by
  simp only [Service.submit]
  split
  · split <;> rfl
  · rfl

theorem settings_sequence {C : Codec} (p : Service C) (enabled : Bool) (days : Nat) (stored : Bool) :
    (p.settings enabled days stored).sequence = p.sequence := by
  simp only [Service.settings]
  split <;> rfl

theorem EndedOnce.begin {s : Watch line decode} (h : EndedOnce s) (hfree : s.request = none)
    (kind : Kind) (waited : Rat) (q : Asked) (contention : Bool) (x : Reading) :
    EndedOnce (s.begin kind waited q contention x) := by
  have hnew : s.perf.sequence + 1 ∉ s.admitted := by
    intro hmem
    have := h.old _ hmem
    omega
  refine ⟨fun n => ?_, fun n hn => ?_⟩
  · have honce := h.once n
    simp only [hfree, owed, Option.elim_none, Nat.zero_add] at honce
    simp only [Watch.begin, Service.begin, owed, Option.elim_some, owedBy, List.mem_append,
      List.mem_singleton]
    by_cases hn : s.perf.sequence + 1 = n
    · subst hn
      rw [if_neg hnew] at honce
      rw [if_pos rfl, if_pos (.inr rfl)]
      omega
    · rw [if_neg hn, Nat.zero_add, honce]
      have hne : n ≠ s.perf.sequence + 1 := fun h => hn h.symm
      simp only [hne, or_false]
  · rcases List.mem_append.mp hn with hn | hn
    · exact Nat.le_succ_of_le (h.old n hn)
    · rw [List.mem_singleton] at hn
      exact Nat.le_of_eq hn

theorem handle_ended {s s' : Watch line decode} {q : Request} {e : Observe.Event} (h : EndedOnce s)
    (hq : s.request = some q) (hstep : s.handle q e = some s') : EndedOnce s' := by
  have hsame : ∀ q' : Request, q'.number = q.number → owedBy q'.phase = owedBy q.phase →
      ∀ n, owed (some q') s.tails n = owed s.request s.tails n := by
    intro q' hnumber hphase n
    rw [hq]
    exact owed_request hnumber hphase n
  unfold Watch.handle at hstep
  split at hstep
  · split at hstep <;> cases hstep
    exact h.same rfl (hsame _ rfl rfl) rfl (Nat.le_refl _)
  · split at hstep <;> cases hstep
    exact h.same rfl (hsame _ rfl rfl) rfl (Nat.le_refl _)
  · split at hstep <;> cases hstep
    exact h.same rfl (hsame _ rfl rfl) rfl (Nat.le_refl _)
  · split at hstep <;> cases hstep
    exact h.same rfl (hsame _ rfl rfl) rfl (Nat.le_refl _)
  · split at hstep <;> cases hstep
    next hphase => exact h.same rfl (hsame _ rfl (by rw [hphase]; rfl)) rfl (Nat.le_refl _)
  · split at hstep <;> cases hstep
    next hphase =>
      refine h.same rfl (hsame _ rfl ?_) rfl (Nat.le_refl _)
      rw [hphase]
      exact endsIn_tail _ _ _ _
  · split at hstep <;> cases hstep
    · next hphase => exact h.same rfl (hsame _ rfl (by rw [hphase]; rfl)) rfl (Nat.le_refl _)
    · next hphase =>
        refine ⟨fun n => ?_, h.old⟩
        have honce := h.once n
        rw [hq] at honce
        simp only [owed, Option.elim_some, hphase, owedBy, endsIn_cons] at honce
        simp only [owed, Option.elim_some, owedBy, List.count_append, List.count_singleton]
        rw [← honce]
        by_cases hn : q.number = n
        · simp [hn]
          omega
        · simp [hn]
  · split at hstep <;> cases hstep
    next hphase =>
      refine h.same rfl (hsame _ rfl ?_) rfl (Nat.le_refl _)
      rw [hphase]
      simp only
      split <;> rfl
  · split at hstep <;> cases hstep
    next hphase =>
      exact h.same rfl (hsame _ rfl (by rw [hphase]; rfl)) rfl
        (Nat.le_of_eq (submit_sequence _ _ _).symm)
  · split at hstep <;> cases hstep
    next hphase =>
      refine h.same rfl (fun n => ?_) rfl (Nat.le_refl _)
      rw [hq]
      exact owed_leave hphase n
  · cases hstep

theorem step_ended {s s' : Watch line decode} {e : Observe.Event} (h : EndedOnce s)
    (hstep : s.step e = some s') : EndedOnce s' := by
  unfold Watch.step at hstep
  split at hstep
  · split at hstep <;> cases hstep
    exact h.same rfl (fun _ => rfl) rfl (Nat.le_refl _)
  · cases hstep
    exact h.same rfl (fun _ => rfl) rfl (Nat.le_refl _)
  · obtain ⟨c, _, rfl⟩ := Option.map_eq_some_iff.mp hstep
    exact h.same rfl (fun _ => rfl) rfl (Nat.le_refl _)
  · cases hstep
    exact h.same rfl (fun _ => rfl) rfl (Nat.le_refl _)
  · cases hstep
    exact h.same rfl (fun _ => rfl) rfl (Nat.le_refl _)
  · split at hstep <;> cases hstep
    refine h.same rfl (fun _ => rfl) rfl ?_
    show s.perf.sequence ≤ (Service.submit _ _ _).sequence
    rw [submit_sequence]
    exact Nat.le_succ _
  · split at hstep <;> cases hstep
    exact h.same rfl (fun _ => rfl) rfl (Nat.le_of_eq (settings_sequence _ _ _ _).symm)
  · cases hstep
    exact h.same rfl (fun _ => rfl) rfl (Nat.le_refl _)
  · cases hstep
    exact h.same rfl (fun _ => rfl) rfl (Nat.le_refl _)
  · cases hstep
    exact h.same rfl (fun _ => rfl) rfl (Nat.le_refl _)
  · split at hstep <;> cases hstep
    next hready => exact h.begin (Option.isNone_iff_eq_none.mp hready.2.1) _ _ _ _ _
  · unfold Watch.late at hstep
    split at hstep <;> cases hstep
    next m c rest hget =>
      refine ⟨fun n => ?_, h.old⟩
      have honce := h.once n
      have hlate := owed_late s.request hget n
      rw [← honce, ← hlate]
      cases c with
      | respond => simp
      | observationEnd rc =>
          simp only [List.count_append, List.count_singleton]
          by_cases hm : m = n
          · simp [hm]
            omega
          · simp [hm]
  · obtain ⟨q, hq, hstep⟩ := Option.bind_eq_some_iff.mp hstep
    exact handle_ended h hq hstep

theorem reach_ended {s : Watch line decode}
    (h : (watchMachine line decode).Reach Plausible s) : EndedOnce s := by
  refine Machine.Reach.invariant ?_ ?_ h
  case refine_2 =>
    intro s e s' _ _ hstep h
    exact step_ended h hstep
  intro s ⟨_, hrequest, htails, hadmitted, hended, _⟩
  refine ⟨fun n => ?_, fun n hn => ?_⟩
  · rw [hrequest, htails, hadmitted, hended]
    rfl
  · rw [hadmitted] at hn
    cases hn

/-! ## Names -/

/-- The name that `perf_begin` writes. -/
def nameOf (boot n : Nat) : CStr := fit 160 (recordName boot n)

theorem nameOf_inj {boot m n : Nat} (hm : m < 2 ^ 64) (hn : n < 2 ^ 64)
    (h : nameOf boot m = nameOf boot n) : m = n := by
  have hwhole : ∀ k, k < 2 ^ 64 → nameOf boot k = recordName boot k := by
    intro k hk
    have hlen := decimal_length hk
    refine List.take_of_length_le ?_
    rw [recordName, List.length_append, hex16_length, List.length_cons]
    omega
  rw [hwhole m hm, hwhole n hn] at h
  exact recordName_inj h

/-! ## The record under observation -/

/-- The request's record is under `app.observe`. -/
def Observing : Phase → Prop
  | .chat | .finish _ | .ending _ _ _ => True
  | .tail calls => endsIn calls = 1
  | _ => False

/-- The request's record is not submitted yet. -/
def Unsubmitted : Phase → Prop
  | .submitting _ _ _ _ => True
  | phase => Observing phase

/-- What holds of the arguments of `observation_end`, and of the record that it has
filled. -/
def EndObserved (boot number : Nat) (wall : Int) (p : Proxy) (st : RunStats) : Phase → Prop
  | .chat => st.reused = 0 ∧ st.firstAnswerNs = .fin (-1)
  | .ending _ total _ => Timed p st total
  | .submitting rc total r _ => Timed p st total ∧ ∃ r0, RecordInRange r0 ∧ r0.timestamp ≤ wall ∧
      r0.id = nameOf boot number ∧ r = fillRecord r0 rc p.first total st
  | _ => True

/-- The request that holds the model. -/
structure RequestObserved (s : Watch line decode) (q : Request) : Prop where
  number : 0 < q.number ∧ q.number ≤ s.perf.sequence
  timed : Timed q.proxy q.stats (s.clock - q.proxy.start)
  unknown : Unsubmitted q.phase →
    ∀ r ∈ s.perf.st.recs, (r : Record).id ≠ nameOf s.boot q.number
  observed : Observing q.phase → ∃ r, s.observe.record = some r ∧ r.id = nameOf s.boot q.number
  ended : EndObserved s.boot q.number s.wall q.proxy q.stats q.phase

structure Observed (s : Watch line decode) : Prop where
  wall : 0 < s.wall ∧ s.wall ≤ 1000000000000
  packaged : engineValid s.child.packaged = true
  engine : engineValid s.child.engine = true
  sums : SumsOk s.observe
  sequence : s.perf.sequence < 2 ^ 64
  later : ∀ r ∈ s.perf.st.recs, ∀ n, s.perf.sequence < n → n < 2 ^ 64 →
    (r : Record).id ≠ nameOf s.boot n
  record : ∀ r, s.observe.record = some r → RecordInRange r ∧ r.timestamp ≤ s.wall
  request : ∀ q, s.request = some q → RequestObserved s q

/-- An operation on the store that adds no record. -/
theorem Observed.perf {s : Watch line decode} (h : Observed s) {p : Service (recordCodec line decode)}
    (hsub : ∀ r ∈ p.st.recs, r ∈ s.perf.st.recs) (hseq : p.sequence = s.perf.sequence) :
    Observed { s with perf := p } :=
  { h with
    sequence := hseq ▸ h.sequence
    later := fun r hr n hn => h.later r (hsub r hr) n (hseq ▸ hn)
    request := fun q hq =>
      { h.request q hq with
        number := ⟨(h.request q hq).number.1, hseq ▸ (h.request q hq).number.2⟩
        unknown := fun hp r hr => (h.request q hq).unknown hp r (hsub r hr) } }

/-- A step of the handler within its request. -/
theorem Observed.handler {s : Watch line decode} (h : Observed s) {q : Request} (hq : RequestObserved s q) :
    Observed { s with request := some q } :=
  { h with
    request := fun q' hq' => by
      have hq' : some q = some q' := hq'
      cases hq'
      exact { hq with } }

theorem EndObserved.later {boot number : Nat} {wall wall' : Int} {p : Proxy} {st : RunStats}
    {phase : Phase} (h : EndObserved boot number wall p st phase) (hle : wall ≤ wall') :
    EndObserved boot number wall' p st phase := by
  cases phase with
  | submitting rc total r rest =>
      obtain ⟨ht, r0, hr0, hlate, hr⟩ := h
      exact ⟨ht, r0, hr0, le_trans hlate hle, hr⟩
  | chat | finish | tail | ending | leaving => exact h

theorem sound_tick {s : Watch line decode} (h : Observed s) {ms : Rat} {seconds : Nat} (hms : 0 ≤ ms)
    (hwall : s.wall + seconds ≤ 1000000000000) :
    Observed { s with clock := s.clock + ms, wall := s.wall + seconds } := by
  have hle : s.wall ≤ s.wall + seconds := by omega
  exact { h with
    wall := ⟨lt_of_lt_of_le h.wall.1 hle, hwall⟩
    record := fun r hr => ⟨(h.record r hr).1, le_trans (h.record r hr).2 hle⟩
    request := fun q hq =>
      { h.request q hq with
        timed := (h.request q hq).timed.later (by linarith)
        ended := (h.request q hq).ended.later hle } }

/-- A sample changes the record in its ranges, and no name. -/
theorem sound_sample {s : Watch line decode} (h : Observed s) {force : Bool} {x : Reading}
    (hx : x.Plausible) :
    Observed { s with observe := observationSample force s.clock s.wall x s.observe } := by
  cases hor : s.observe.record with
  | none =>
      rw [observationSample_none hor]
      exact h
  | some r =>
      obtain ⟨hr, hlate⟩ := h.record r hor
      obtain ⟨hsums, r', hr', hin, hid, htime⟩ :=
        observationSample_ok h.sums hor hr hx
          ⟨h.wall.1.le, h.wall.2⟩
      refine { h with
        sums := hsums
        record := fun r'' hr'' => ?_
        request := fun q hq =>
          { h.request q hq with
            observed := fun hp => ?_ } }
      · rw [hr'] at hr''
        cases hr''
        rw [htime]
        exact ⟨hin, hlate⟩
      · obtain ⟨r0, hr0, hid0⟩ := (h.request q hq).observed hp
        rw [hor] at hr0
        cases hr0
        exact ⟨r', hr', hid.trans hid0⟩

theorem submit_recs {C : Codec} {p : Service C} {now : Int} {e : Entry C} {r : C.Rec}
    (h : r ∈ (p.submit now e).st.recs) : r ∈ p.st.recs ∨ r = e.record := by
  simp only [Service.submit] at h
  split at h
  · split at h <;> exact retain_recs h
  · exact .inl h

/-- A record that is submitted under a name that was given out. -/
theorem Observed.submit {s : Watch line decode} (h : Observed s) (hfree : ∀ q, s.request = some q →
      ¬ Unsubmitted q.phase) {r : Record} {n : Nat} (hn : 0 < n ∧ n ≤ s.perf.sequence)
    (hid : r.id = nameOf s.boot n) {enabled : Bool} {epoch : Nat} :
    Observed { s with perf := s.perf.submit s.wall ⟨r, enabled, epoch⟩ } := by
  have hseq := submit_sequence s.perf s.wall (⟨r, enabled, epoch⟩ : Entry (recordCodec line decode))
  refine { h with
    sequence := hseq ▸ h.sequence
    later := fun r' hr' m hm hm' => ?_
    request := fun q hq =>
      { h.request q hq with
        number := ⟨(h.request q hq).number.1, hseq ▸ (h.request q hq).number.2⟩
        unknown := fun hp => absurd hp (hfree q hq) } }
  have hm : s.perf.sequence < m := hseq ▸ hm
  rcases submit_recs hr' with hr' | hr'
  · exact h.later r' hr' m hm hm'
  · rw [hr', hid]
    intro heq
    have := nameOf_inj (by omega) hm' heq
    omega

/-- A number that is given out. -/
theorem Observed.number {s : Watch line decode} (h : Observed s) (hseq : s.perf.sequence + 1 < 2 ^ 64) :
    Observed { s with perf := s.perf.begin.1 } :=
  { h with
    sequence := hseq
    later := fun r hr n hn => h.later r hr n (Nat.lt_of_succ_lt hn)
    request := fun q hq =>
      { h.request q hq with
        number := ⟨(h.request q hq).number.1, Nat.le_succ_of_le (h.request q hq).number.2⟩ } }

theorem sound_begin {s : Watch line decode} (h : Observed s) (hseq : s.perf.sequence + 1 < 2 ^ 64)
    {kind : Kind} {waited : Rat} (hwaited : 0 ≤ waited) {q : Asked} {contention : Bool} {x : Reading}
    (hx : x.Plausible) : Observed (s.begin kind waited q contention x) := by
  have hin : RecordInRange (beginRecord s.boot (s.perf.sequence + 1) s.wall s.inst s.series s.child
      (if kind = .app then .app else .api) q contention) := beginRecord_inRange h.engine h.wall.1
  have hsums : SumsOk { s.observe with
      record := some (beginRecord s.boot (s.perf.sequence + 1) s.wall s.inst s.series s.child
        (if kind = .app then .app else .api) q contention)
      window := {}, cpuSum := 0, cpuSamples := 0 } :=
    ⟨fun hk => absurd hk Bool.false_ne_true, le_refl _, by norm_num⟩
  obtain ⟨hsums', r', hr', hin', hid, htime⟩ :=
    @observationSample_ok true _ _ _ _ _ hsums rfl hin hx
      ⟨h.wall.1.le, h.wall.2⟩
  have hstart : 0 ≤ s.clock - (s.clock - if kind = .app then 0 else waited) := by
    split <;> linarith
  exact {
    wall := h.wall
    packaged := h.packaged
    engine := h.engine
    sums := hsums'
    sequence := hseq
    later := fun r hr n hn => h.later r hr n (Nat.lt_of_succ_lt hn)
    record := fun r hr => by
      have hr : r' = r := Option.some.inj (hr'.symm.trans hr)
      subst hr
      exact ⟨hin', htime.le⟩
    request := fun q' hq' => by
      cases hq'
      exact {
        number := ⟨Nat.succ_pos _, Nat.le_refl _⟩
        timed := {
          nonneg := hstart
          first := hstart
          answer := hstart
          noted := .inl rfl
          reused := Nat.le_refl _
          expired := fun he => nomatch he }
        unknown := fun _ r hr => h.later r hr _ (Nat.lt_succ_self _) hseq
        observed := fun _ => ⟨r', hr', hid⟩
        ended := ⟨rfl, rfl⟩ } }

/-! ## The handler -/

theorem proxyCancel_timed {p : Proxy} {st : RunStats} {clock : Rat} {cancelled : Bool} {x : Look}
    (h : Timed p st (clock - p.start)) :
    (proxyCancel p clock cancelled x).1.start = p.start ∧
      Timed (proxyCancel p clock cancelled x).1 st (clock - p.start) := by
  have hp : Timed { p with disconnected := x.gone, expired := decide (HOUR_MS < clock - p.start) }
      st (clock - p.start) := { h with expired := fun he => of_decide_eq_true he }
  simp only [proxyCancel]
  split
  · exact ⟨rfl, hp⟩
  · split
    · exact ⟨rfl, { hp with }⟩
    · exact ⟨rfl, { hp with }⟩

theorem notePart_timed {p : Proxy} {st : RunStats} {clock : Rat} {t : Part}
    (h : Timed p st (clock - p.start)) :
    (notePart p clock t).start = p.start ∧
      Timed (notePart p clock t) st (clock - p.start) := by
  have hfirst : ∀ p' : Proxy, Timed p' st (clock - p.start) → p'.start = p.start →
      Timed { p' with first := clock - p'.start } st (clock - p.start) := by
    intro p' hp' hstart
    exact { hp' with first := by rw [hstart] }
  have hp : Timed (if !t.empty && decide (p.first = 0) then { p with first := clock - p.start } else p)
      st (clock - p.start) ∧
      (if !t.empty && decide (p.first = 0) then { p with first := clock - p.start } else p).start =
        p.start := by
    split
    · exact ⟨hfirst p h rfl, rfl⟩
    · exact ⟨h, rfl⟩
  simp only [notePart]
  generalize (if !t.empty && decide (p.first = 0) then { p with first := clock - p.start } else p) = p'
    at hp
  obtain ⟨hp, hstart⟩ := hp
  split
  · exact ⟨hstart, { hp with }⟩
  · split
    · exact ⟨hstart, { hp with }⟩
    · refine ⟨hstart, { hp with answer := ?_ }⟩
      dsimp only
      split
      · rw [hstart]
      · exact hp.answer

theorem proxyPart_timed {p : Proxy} {st : RunStats} {clock : Rat} {cancelled : Bool} {x : Look}
    {t : Part} (h : Timed p st (clock - p.start)) :
    (proxyPart p clock cancelled x t).start = p.start ∧
      Timed (proxyPart p clock cancelled x t) st (clock - p.start) := by
  obtain ⟨hstart, htimed⟩ := proxyCancel_timed (x := x) h
  simp only [proxyPart]
  split
  · exact ⟨hstart, htimed⟩
  · rw [← hstart] at htimed ⊢
    exact notePart_timed htimed

theorem chatPart_timed {p : Proxy} {st : RunStats} {t sinkStart clock : Rat} (h : Timed p st t) :
    Timed p (chatPart st sinkStart clock) t ∧
      (chatPart st sinkStart clock).reused = st.reused ∧
      (chatPart st sinkStart clock).firstAnswerNs = st.firstAnswerNs := by
  unfold chatPart
  split
  · exact ⟨{ h with }, rfl, rfl⟩
  · exact ⟨h, rfl, rfl⟩

/-- The statistics never count more tokens as reused than there are. -/
theorem returned_timed {p : Proxy} {st : RunStats} {t : Rat} {capacity max : Nat} {r : Returned}
    (h : Timed p st t) : Timed p (r.stats st capacity max) t := by
  cases r with
  | sent r =>
      simp only [Returned.stats]
      split
      · exact h
      · refine { h with reused := ?_ }
        dsimp only
        split <;> omega
  | failed | timedOut | cancelled | refused => exact h

theorem proxyFinish_timed {p : Proxy} {st : RunStats} {t : Rat} {rc : Int} (h : Timed p st t) :
    Timed p (proxyFinish p st rc).1 t := by
  refine { h with noted := ?_ }
  show (if p.visible && decide (0 < p.firstAnswer) then Double.fin (p.firstAnswer * 1000000)
    else .fin (-1)) = .fin (-1) ∨ ∃ q, (if p.visible && decide (0 < p.firstAnswer) then
      Double.fin (p.firstAnswer * 1000000) else .fin (-1)) = .fin (q * 1000000) ∧ 0 ≤ q ∧ q ≤ t
  split
  · next hseen =>
      rw [Bool.and_eq_true, decide_eq_true_eq] at hseen
      exact .inr ⟨p.firstAnswer, rfl, hseen.2.le, h.answer⟩
  · exact .inl rfl

/-- The first section of `observation_end` fills the record that it was called for. -/
theorem sound_endSection {s : Watch line decode} {q : Request} (h : Observed s)
    (hr : RequestObserved s q) {rc : Int} {total : Rat} {rest : List Call}
    (hphase : q.phase = .ending rc total rest) {x : Reading} (hx : x.Plausible) :
    Observed (s.endSection q rc total rest x) ∧ ∃ r, (s.endSection q rc total rest x).request =
      some { q with phase := .submitting (if rc = 498 ∧ s.cancelled then 499 else rc) total r rest } := by
  obtain ⟨r, hor, hid⟩ := hr.observed (by rw [hphase]; trivial)
  have hend := hr.ended
  rw [hphase] at hend
  obtain ⟨hin, hlate⟩ := h.record r hor
  obtain ⟨hsums, r', hr', hin', hid', htime⟩ :=
    observationSample_ok h.sums hor hin hx
      ⟨h.wall.1.le, h.wall.2⟩
  have hsampled : Observed { s with
      observe := { observationSample true s.clock s.wall x s.observe with record := none }
      request := none } :=
    { h with
      sums := ⟨hsums.window, hsums.nonneg, hsums.bound⟩
      record := fun r hr => nomatch hr
      request := fun q hq => nomatch hq }
  have hfilled : RequestObserved { s with
      observe := { observationSample true s.clock s.wall x s.observe with record := none }
      request := none }
      { q with
        phase := .submitting (if rc = 498 ∧ s.cancelled then 499 else rc) total
          (fillRecord r' (if rc = 498 ∧ s.cancelled then 499 else rc) q.proxy.first total q.stats)
          rest } :=
    { hr with
      timed := { hr.timed with }
      unknown := fun _ => hr.unknown (by rw [hphase]; trivial)
      observed := fun hp => hp.elim
      ended := ⟨hend, r', hin', htime ▸ hlate, hid'.trans hid, rfl⟩ }
  have hsound := hsampled.handler hfilled
  simp only [Watch.endSection, hr']
  exact ⟨hsound, _, rfl⟩

theorem sound_submit {s : Watch line decode} {q : Request} (h : Observed s) (hr : RequestObserved s q)
    {rc : Int} {total : Rat} {r : Record} {rest : List Call}
    (hphase : q.phase = .submitting rc total r rest) :
    Observed { s with
      perf := s.perf.submit s.wall ⟨r, q.enabled, q.epoch⟩
      request := some { q with phase := .leaving rest } } := by
  have hend := hr.ended
  rw [hphase] at hend
  obtain ⟨_, r0, _, _, hid, hfill⟩ := hend
  have hid' : r.id = nameOf s.boot q.number := by
    rw [hfill]
    exact hid
  have hleaving : Observed { s with request := some { q with phase := .leaving rest } } :=
    h.handler { hr with
      timed := { hr.timed with }, unknown := fun hp => hp.elim, observed := fun hp => hp.elim
      ended := trivial }
  refine hleaving.submit (fun q' hq' => ?_) hr.number hid'
  injection hq' with hq'
  rw [← hq']
  exact fun hp => hp

/-- A call of `observation_end` is the only one of its request. -/
theorem only_end {s : Watch line decode} {q : Request} (hcount : EndedOnce s)
    (hq : s.request = some q) {rc : Int} {rest : List Call}
    (hphase : q.phase = .tail (.observationEnd rc :: rest)) :
    endsIn (.observationEnd rc :: rest) = 1 := by
  have honce := hcount.once q.number
  have hle : (if q.number ∈ s.admitted then 1 else 0) ≤ 1 := by split <;> omega
  have hend : ¬ Call.observationEnd rc = .respond := fun hc => Call.noConfusion hc
  simp only [hq, owed, Option.elim_some, if_true, hphase, owedBy, endsIn_cons, if_neg hend]
    at honce ⊢
  omega

theorem sound_call {s : Watch line decode} {q : Request} (h : Observed s) (hcount : EndedOnce s)
    (hq : s.request = some q) {rc : Int} {rest : List Call}
    (hphase : q.phase = .tail (.observationEnd rc :: rest)) :
    Observed { s with
      request := some { q with phase := .ending rc (s.clock - q.proxy.start) rest }
      ended := s.ended ++ [q.number] } := by
  have hr := h.request q hq
  have hone := only_end hcount hq hphase
  have hended : Observed { s with ended := s.ended ++ [q.number] } :=
    { h with request := fun q hq => { h.request q hq with } }
  exact hended.handler { hr with
    timed := { hr.timed with }
    unknown := fun _ => hr.unknown (by rw [hphase]; exact hone)
    observed := fun _ => hr.observed (by rw [hphase]; exact hone)
    ended := hr.timed }

/-- A step of the handler while `app_daemon_chat` runs. -/
theorem Observed.chat {s : Watch line decode} {q : Request} (h : Observed s) (hr : RequestObserved s q)
    (hphase : q.phase = .chat) {p : Proxy} {st : RunStats} {sinkStart : Rat}
    (hstart : p.start = q.proxy.start) (htimed : Timed p st (s.clock - q.proxy.start))
    (hreused : st.reused = q.stats.reused) (hanswer : st.firstAnswerNs = q.stats.firstAnswerNs) :
    Observed { s with
      request := some { q with proxy := p, stats := st, sinkStart := sinkStart } } := by
  have hend := hr.ended
  rw [hphase] at hend
  refine h.handler { hr with timed := ?_, ended := ?_ }
  · show Timed p st (s.clock - p.start)
    rw [hstart]
    exact htimed
  · rw [hphase]
    exact ⟨hreused.trans hend.1, hanswer.trans hend.2⟩

/-- A step of the handler between `app_daemon_chat` and `observation_end`. -/
theorem Observed.between {s : Watch line decode} {q : Request} (h : Observed s) (hr : RequestObserved s q)
    {st : RunStats} {phase : Phase} (htimed : Timed q.proxy st (s.clock - q.proxy.start))
    (hobserving : Observing phase → Observing q.phase)
    (hunsubmitted : Unsubmitted phase → Unsubmitted q.phase)
    (hended : EndObserved s.boot q.number s.wall q.proxy st phase) :
    Observed { s with request := some { q with stats := st, phase := phase } } :=
  h.handler { hr with
    timed := htimed
    unknown := fun hp => hr.unknown (hunsubmitted hp)
    observed := fun hp => hr.observed (hobserving hp)
    ended := hended }

theorem handle_observed {s s' : Watch line decode} {q : Request} {e : Observe.Event} (h : Observed s)
    (hcount : EndedOnce s) (hwall : Plausible s e) (hq : s.request = some q)
    (hstep : s.handle q e = some s') : Observed s' := by
  have hr := h.request q hq
  unfold Watch.handle at hstep
  split at hstep
  · split at hstep <;> cases hstep
    next hphase => exact h.chat hr hphase rfl { hr.timed with } rfl rfl
  · split at hstep <;> cases hstep
    next hphase =>
      have hend := hr.ended
      rw [hphase] at hend
      refine h.chat hr hphase rfl { hr.timed with reused := ?_ } rfl rfl
      show q.stats.reused ≤ _
      rw [hend.1]
      exact Nat.zero_le _
  · next x =>
      split at hstep <;> cases hstep
      next hphase =>
        obtain ⟨hstart, htimed⟩ := proxyCancel_timed (x := x) hr.timed
        exact h.chat hr hphase hstart htimed rfl rfl
  · next x t =>
      split at hstep <;> cases hstep
      next hphase =>
        obtain ⟨hstart, htimed⟩ :=
          proxyPart_timed (x := x) (t := t) hr.timed
        obtain ⟨hnoted, hreused, hanswer⟩ := chatPart_timed htimed
        exact h.chat hr hphase hstart hnoted hreused hanswer
  · split at hstep <;> cases hstep
    next hphase =>
      refine h.between hr (returned_timed hr.timed) (fun _ => ?_) (fun _ => ?_) trivial <;>
        (rw [hphase]; trivial)
  · split at hstep <;> cases hstep
    next hphase =>
      refine h.between hr (proxyFinish_timed hr.timed) (fun _ => ?_) (fun _ => ?_) trivial <;>
        (rw [hphase]; trivial)
  · split at hstep <;> cases hstep
    · next hphase =>
        refine h.between hr { hr.timed with } (fun hp => ?_) (fun hp => ?_) trivial <;>
          (rw [hphase]; exact hp)
    · next hphase => exact sound_call h hcount hq hphase
  · split at hstep <;> cases hstep
    next hphase => exact (sound_endSection h hr hphase hwall).1
  · split at hstep <;> cases hstep
    next hphase => exact sound_submit h hr hphase
  · split at hstep <;> cases hstep
    exact { h with request := fun q hq => nomatch hq }
  · cases hstep

theorem step_observed {s s' : Watch line decode} {e : Observe.Event} (h : Observed s) (hcount : EndedOnce s)
    (hwall : Plausible s e) (hstep : s.step e = some s') : Observed s' := by
  unfold Watch.step at hstep
  split at hstep
  · split at hstep <;> cases hstep
    next hms => exact sound_tick h hms hwall
  · cases hstep
    exact { h with
      engine := spawn_engine h.packaged
      request := fun q hq => { h.request q hq with } }
  · obtain ⟨c, hc, rfl⟩ := Option.map_eq_some_iff.mp hstep
    have hpackaged : c.packaged = s.child.packaged := by
      unfold Child.identify at hc
      split at hc <;> cases hc
      rfl
    exact { h with
      packaged := hpackaged ▸ h.packaged
      engine := identify_engine h.engine hc
      request := fun q hq => { h.request q hq with } }
  · cases hstep
    exact sound_sample h hwall
  · cases hstep
    exact { h with request := fun q hq => { h.request q hq with } }
  · split at hstep <;> cases hstep
    next hfree =>
      refine (h.number hwall).submit (fun q hq => ?_) ⟨Nat.succ_pos _, Nat.le_refl _⟩ rfl
      have hq : s.request = some q := hq
      rw [hq] at hfree
      cases hfree
  · split at hstep <;> cases hstep
    refine h.perf (fun r hr => ?_) (settings_sequence _ _ _ _)
    rw [settings_pushed] at hr
    exact hr
  · cases hstep
    exact h.perf (fun r hr => (List.mem_filter.mp hr).1) rfl
  · cases hstep
    exact h.perf (fun r hr => by cases hr) rfl
  · cases hstep
    exact h.perf (fun r hr => hr) rfl
  · split at hstep <;> cases hstep
    next hready => exact sound_begin h hwall.2 hready.2.2 hwall.1
  · unfold Watch.late at hstep
    split at hstep <;> cases hstep
    exact { h with request := fun q hq => { h.request q hq with } }
  · obtain ⟨q, hq, hstep⟩ := Option.bind_eq_some_iff.mp hstep
    exact handle_observed h hcount hwall hq hstep

theorem reach_observed {s : Watch line decode}
    (h : (watchMachine line decode).Reach Plausible s) : Observed s := by
  refine Machine.Reach.invariant ?_ ?_ h
  case refine_2 =>
    intro s e s' hr hwall hstep h
    exact step_observed h (reach_ended hr) hwall hstep
  intro s ⟨hobserve, hrequest, _, _, _, hseq, _, hpackaged, hengine, _, _, hwall, hwall', hnames⟩
  exact {
    wall := ⟨hwall, hwall'⟩
    packaged := hpackaged
    engine := hengine
    sums := by
      rw [hobserve]
      exact ⟨fun hk => absurd hk Bool.false_ne_true, le_refl _, by norm_num⟩
    sequence := by
      rw [hseq]
      decide
    later := fun r hr n _ _ => hnames r hr n
    record := fun r hr => by
      rw [hobserve] at hr
      cases hr
    request := fun q hq => by
      rw [hrequest] at hq
      cases hq }

/-! ## perf_submit -/

/-- The store has the record, and the writer gets it or it is counted as dropped. -/
def Taken {C : Codec} (p p' : Service C) (r : C.Rec) : Prop :=
  r ∈ p'.st.recs ∧ (p'.queue = p.queue ++ [r] ∨ p'.dropped = p.dropped + 1)

theorem retain_mem {C : Codec} {now : Int} {days : Nat} {st : Store C} {r : C.Rec}
    (hfresh : fresh C now days r = true) (hnew : C.id r ∉ st.recs.map C.id) :
    r ∈ (retain now days st r).recs := by
  have hkept : known (st.recs.filter (fresh C now days)) (C.id r) = false := by
    rw [← Bool.not_eq_true, known_iff]
    exact fun hmem => hnew ((List.filter_sublist.map C.id).subset hmem)
  simp only [retain, hfresh, Bool.true_eq_false, if_false, hkept, Bool.false_eq_true]
  split <;> exact List.mem_append_right _ (List.mem_singleton_self _)

theorem accepts_iff {C : Codec} {p : Service C} {now : Int} {e : Entry C}
    (hnew : C.id e.record ∉ p.st.recs.map C.id) :
    p.accepts now e = true ↔ C.valid now e.record = true ∧ e.enabled = true ∧ p.enabled = true ∧
      e.epoch = p.epoch ∧ fresh C now p.days e.record = true := by
  have hunknown := not_known_iff.mpr hnew
  simp only [Service.accepts, hunknown, Bool.and_true, Bool.and_eq_true, decide_eq_true_eq,
    and_assoc]

/-- A record with a new name is taken exactly if `perf_submit` accepts it. -/
theorem taken_iff {C : Codec} {p : Service C} {now : Int} {e : Entry C}
    (hnew : C.id e.record ∉ p.st.recs.map C.id) :
    Taken p (p.submit now e) e.record ↔ p.accepts now e = true := by
  by_cases hacc : p.accepts now e = true
  · refine iff_of_true ?_ hacc
    have hfresh : fresh C now p.days e.record = true :=
      ((accepts_iff hnew).mp hacc).2.2.2.2
    have hmem := retain_mem hfresh hnew
    simp only [Taken, Service.submit, if_pos hacc]
    split
    · exact ⟨hmem, .inl rfl⟩
    · exact ⟨hmem, .inr rfl⟩
  · refine iff_of_false ?_ hacc
    rw [Taken, Service.submit, if_neg hacc]
    exact fun h => hnew (List.mem_map_of_mem h.1)

/-- `observation_end` is called once for every request that is admitted. Its first
section hands the record on, and what `perf_submit` makes of it, with collection
on and neither a clear nor a change of the settings since the begin, depends on
the bounds alone: it takes the record or counts it as dropped exactly if the
request is within them and the retention is not over. A request that the limit
of one hour has ended never is. -/
theorem request_recorded_iff {s : Watch line decode}
    (h : (watchMachine line decode).Reach Plausible s) :
    (∀ n ∈ s.admitted, s.ended.count n + owed s.request s.tails n = 1) ∧
    (∀ q rc total rest x, s.request = some q → q.phase = .ending rc total rest → x.Plausible →
      ∃ s' r, s.step (.endSection x) = some s' ∧ s'.request = some { q with
        phase := .submitting (if rc = 498 ∧ s.cancelled then 499 else rc) total r rest }) ∧
    ∀ q rc total r rest s', s.request = some q → q.phase = .submitting rc total r rest →
      s.step .submit = some s' → q.enabled = true → s.perf.enabled = true →
      q.epoch = s.perf.epoch →
      (Taken (C := recordCodec line decode) s.perf s'.perf r ↔
        Bounded total q.stats r ∧ fresh (recordCodec line decode) s.wall s.perf.days r = true) ∧
      (q.proxy.expired = true → ¬ Bounded total q.stats r) := by
  have hsound := reach_observed h
  refine ⟨fun n hn => ?_, fun q rc total rest x hq hphase hx => ?_, ?_⟩
  · rw [(reach_ended h).once n, if_pos hn]
  · obtain ⟨_, r, hr⟩ := sound_endSection hsound (hsound.request q hq) hphase hx
    refine ⟨_, r, ?_, hr⟩
    show s.request.bind (fun q => s.handle q (.endSection x)) = _
    rw [hq]
    show s.handle q (.endSection x) = _
    simp only [Watch.handle, hphase]
  · intro q rc total r rest s' hq hphase hstep henabled hon hepoch
    have hr := hsound.request q hq
    have hend := hr.ended
    rw [hphase] at hend
    obtain ⟨htimed, r0, hin, hlate, hid, hfill⟩ := hend
    have hnew : r.id ∉ s.perf.st.recs.map Record.id := by
      intro hmem
      obtain ⟨r', hr', heq⟩ := List.mem_map.mp hmem
      refine hr.unknown (by rw [hphase]; trivial) r' hr' (heq.trans ?_)
      rw [hfill]
      exact hid
    have hsubmit : s'.perf = s.perf.submit s.wall ⟨r, q.enabled, q.epoch⟩ := by
      have hstep : s.request.bind (fun q => s.handle q .submit) = some s' := hstep
      rw [hq] at hstep
      have hstep : s.handle q .submit = some s' := hstep
      simp only [Watch.handle, hphase] at hstep
      injection hstep with hstep
      rw [← hstep]
    have hbounded : Bounded total q.stats r ↔ Bounded total q.stats r0 := by
      rw [hfill]
      exact Iff.rfl
    have hvalid := @valid_fill_iff _ _ rc _ _ _ hin hlate htimed
    rw [← hfill, ← hbounded] at hvalid
    refine ⟨?_, fun he hb => ?_⟩
    · have htaken := @taken_iff (recordCodec line decode) s.perf s.wall
        ⟨r, q.enabled, q.epoch⟩ hnew
      rw [hsubmit]
      refine htaken.trans ?_
      have haccepts := @accepts_iff (recordCodec line decode) s.perf s.wall
        ⟨r, q.enabled, q.epoch⟩ hnew
      refine haccepts.trans ⟨fun ⟨hv, _, _, _, hf⟩ => ⟨hvalid.mp hv, hf⟩, fun ⟨hb, hf⟩ => ?_⟩
      exact ⟨hvalid.mpr hb, henabled, hon, hepoch, hf⟩
    · exact absurd hb.1 (not_le.mpr (htimed.expired he))

/-! ## Two requests -/

/-- An app that has started, with no text of a line. -/
def startedApp : Watch (fun _ => []) (fun _ => none) where
  clock := 0
  wall := 1000000
  boot := 7
  inst := []
  host := []
  perf := {}
  child := {
    packaged := {}, engine := {}, model := none, activeId := [99], backend := .cpuX86, threads := 2
    requests := 0, generation := 0, ready := false, loadingStarted := 0, loadedMs := 0 }

theorem startedApp_reach :
    (watchMachine (fun _ => []) (fun _ => none)).Reach Plausible startedApp :=
  .init ⟨rfl, rfl, rfl, rfl, rfl, rfl, rfl, by decide +kernel, by decide +kernel, le_refl _,
    le_refl _, by decide, by decide, fun r hr => nomatch hr⟩

/-- A request of the app with the answer `returned`, begun after a second and ended
`ms` milliseconds later, up to its record. -/
def oneRequest (ms : Rat) (seconds : Nat) (returned : Returned) : List Observe.Event :=
  [.spawn none [99] .cpuX86 2 none, .tick 1000 1, .identify {},
    .admitted .app 0 ⟨64, 1 / 5, 1, 4096, by norm_num, by norm_num⟩ false {},
    .open, .prefill 400, .tick ms seconds, .part {} {}, .returned returned, .finished false {},
    .call, .call, .endSection {}]

/-- The state stands before `perf_submit`, and the arguments meet a test. -/
def submits (s : Watch line decode) (p : Request → Rat → Record → Bool) : Bool :=
  s.request.any fun q => match q.phase with
    | .submitting _ total r _ => p q total r
    | _ => false

theorem submits_spec {s : Watch line decode} {p : Request → Rat → Record → Bool}
    (h : submits s p = true) : ∃ q rc total r rest, s.request = some q ∧
      q.phase = .submitting rc total r rest ∧ p q total r = true := by
  obtain ⟨q, hq, hp⟩ := (Option.any_eq_true _ _).mp h
  split at hp
  · next rc total r rest hphase => exact ⟨q, rc, total, r, rest, hq, hphase, hp⟩
  · cases hp

/-- The run up to the record, with a test of the state that it ends in. -/
theorem oneRequest_reach (ms : Rat) (seconds : Nat) (returned : Returned)
    (hchecks : (watchMachine (fun _ => []) (fun _ => none)).checks
      (fun s e => decide (Plausible s e)) startedApp (oneRequest ms seconds returned) = true)
    (p : Watch (fun _ => []) (fun _ => none) → Request → Rat → Record → Bool)
    (h : ((watchMachine (fun _ => []) (fun _ => none)).run startedApp
      (oneRequest ms seconds returned)).any (fun s => submits s (p s)) = true) :
    ∃ s, (watchMachine (fun _ => []) (fun _ => none)).Reach Plausible s ∧
      ∃ q rc total r rest, s.request = some q ∧ q.phase = .submitting rc total r rest ∧
        p s q total r = true := by
  obtain ⟨s, hrun, hreach⟩ := Machine.checks_reach
    (fun _ _ => of_decide_eq_true) _ startedApp_reach hchecks
  rw [hrun] at h
  exact ⟨s, hreach, submits_spec h⟩

/-- A short request is recorded. -/
theorem request_recorded_once :
    ∃ s, (watchMachine (fun _ => []) (fun _ => none)).Reach Plausible s ∧
      ∃ q rc total r rest, s.request = some q ∧ q.phase = .submitting rc total r rest ∧
        r.outcome = .completed ∧ r.input = 100 ∧ ∀ s', s.step .submit = some s' →
          Taken (C := recordCodec (fun _ => []) (fun _ => none)) s.perf s'.perf r := by
  obtain ⟨s, hs, q, rc, total, r, rest, hq, hphase, hp⟩ := oneRequest_reach
    2000 2 (.sent ⟨.stop, 90, 120, 20, .fin 30, .fin 900⟩) (by decide +kernel)
    (fun s q total r => q.enabled && s.perf.enabled && decide (q.epoch = s.perf.epoch) &&
      fresh (recordCodec (fun _ => []) (fun _ => none)) s.wall s.perf.days r &&
      decide (Bounded total q.stats r) && decide (r.outcome = .completed) && decide (r.input = 100))
    (by decide +kernel)
  simp only [Bool.and_eq_true, decide_eq_true_eq] at hp
  obtain ⟨⟨⟨⟨⟨⟨henabled, hon⟩, hepoch⟩, hfresh⟩, hbounded⟩, houtcome⟩, hinput⟩ := hp
  refine ⟨s, hs, q, rc, total, r, rest, hq, hphase, houtcome, hinput, fun s' hstep => ?_⟩
  exact ((request_recorded_iff hs).2.2 q rc total r rest s' hq hphase hstep henabled hon
    hepoch).1.mpr ⟨hbounded, hfresh⟩

/-- A request that the limit of one hour ends leaves no record: not in the store, not
with the writer, and not counted as dropped. -/
theorem hour_limit_leaves_no_record :
    ∃ s, (watchMachine (fun _ => []) (fun _ => none)).Reach Plausible s ∧
      ∃ q rc total r rest, s.request = some q ∧ q.phase = .submitting rc total r rest ∧
        q.proxy.expired = true ∧ q.enabled = true ∧ s.perf.enabled = true ∧
        q.epoch = s.perf.epoch ∧
        fresh (recordCodec (fun _ => []) (fun _ => none)) s.wall s.perf.days r = true ∧
        ∃ s', s.step .submit = some s' ∧ s'.perf.st.recs = [] ∧ s'.perf.queue = [] ∧
          s'.perf.dropped = 0 := by
  obtain ⟨s, hs, q, rc, total, r, rest, hq, hphase, hp⟩ := oneRequest_reach
    3600001 3601 .cancelled (by decide +kernel)
    (fun s q total r => q.proxy.expired && q.enabled && s.perf.enabled &&
      decide (q.epoch = s.perf.epoch) &&
      fresh (recordCodec (fun _ => []) (fun _ => none)) s.wall s.perf.days r &&
      (s.step .submit).any fun s' : Watch (fun _ => []) (fun _ => none) =>
        s'.perf.st.recs.isEmpty && s'.perf.queue.isEmpty && decide (s'.perf.dropped = 0))
    (by decide +kernel)
  simp only [Bool.and_eq_true, decide_eq_true_eq] at hp
  obtain ⟨⟨⟨⟨⟨hexpired, henabled⟩, hon⟩, hepoch⟩, hfresh⟩, hlost⟩ := hp
  obtain ⟨s', hstep, hlost⟩ := (Option.any_eq_true _ _).mp hlost
  simp only [Bool.and_eq_true, decide_eq_true_eq, List.isEmpty_iff] at hlost
  exact ⟨s, hs, q, rc, total, r, rest, hq, hphase, hexpired, henabled, hon, hepoch, hfresh, s',
    hstep, hlost.1.1, hlost.1.2, hlost.2⟩

end GeistServe.Proofs
