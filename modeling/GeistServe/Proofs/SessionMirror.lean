import GeistServe.Lib.Machine
import GeistServe.Geistd.Plain

/-!
# The daemon's history is the engine's

A session holds one history twice, `hist` in the daemon and the KV cache in
the engine. `SessOk` says that the copies agree; `Serves x x'` says that an op
took `x` to a session that is in order again and kept a pinned prefix. Every
op of `Session.lean` serves, except that `unpin` gives the prefix up on
purpose.

A frame is then read off `dispatch_slot`: whatever it does to the table, each
slot is served, or ended by one of the three ops that may end it. The
invariant over every run follows by the run rule, and the pinned prefix by the
same rule over the runs that leave the slot alone.
-/

namespace GeistServe.Proofs

open GeistServe.Lib GeistServe.Geistd

variable {E : Engine} {P : Platform}

/-! ## One session -/

/-- The daemon's history and pin are the engine's, and they fit. -/
structure SessOk (x : Sess E) : Prop where
  kv : E.kv x.s = x.hist
  pin : E.pin x.s = x.hist.take x.pinned
  le : x.pinned ≤ x.hist.length
  cap : x.hist.length ≤ CTX_CAP - 1

/-- An op on a session that leaves it in order, under its id, with its pinned
prefix as it was. -/
structure Serves (x x' : Sess E) : Prop where
  ok : SessOk x'
  id : x'.id = x.id
  prefixKept : 0 < x.pinned →
    x'.pinned = x.pinned ∧ x'.hist.take x.pinned = x.hist.take x.pinned

theorem Serves.refl {x : Sess E} (h : SessOk x) : Serves x x :=
  ⟨h, rfl, fun _ => ⟨rfl, rfl⟩⟩

theorem Serves.trans {x y z : Sess E} (hxy : Serves x y) (hyz : Serves y z) :
    Serves x z := by
  refine ⟨hyz.ok, hyz.id.trans hxy.id, fun h => ?_⟩
  obtain ⟨hp, ht⟩ := hxy.prefixKept h
  obtain ⟨hp', ht'⟩ := hyz.prefixKept (hp ▸ h)
  exact ⟨hp'.trans hp, by rw [hp] at ht'; exact ht'.trans ht⟩

/-- The engine took `ts` in; the daemon pushes the same. -/
theorem SessOk.push {x : Sess E} {s : E.Sess} {ts : List Int} (h : SessOk x)
    (hkv : E.kv s = x.hist ++ ts) (hpin : E.pin s = x.hist.take x.pinned)
    (hfit : x.hist.length + ts.length ≤ CTX_CAP - 1) :
    Serves x (histPush { x with s := s } ts) := by
  have hcap : ¬ x.hist.length + ts.length > CTX_CAP := by
    simp only [CTX_CAP] at hfit ⊢
    omega
  have htake : ∀ k, k ≤ x.pinned → (x.hist ++ ts).take k = x.hist.take k := by
    intro k hk
    exact List.take_append_of_le_length (hk.trans h.le)
  rw [histPush, if_neg hcap]
  refine ⟨⟨hkv, ?_, ?_, ?_⟩, rfl, fun _ => ⟨rfl, htake _ le_rfl⟩⟩
  · exact hpin.trans (htake _ le_rfl).symm
  · have := h.le
    simp only [List.length_append]
    omega
  · simpa using hfit

/-- The engine went back to its pin; the daemon truncates to its own. -/
theorem SessOk.truncate {x : Sess E} {s : E.Sess} (h : SessOk x)
    (hkv : E.kv s = x.hist.take x.pinned) (hpin : E.pin s = x.hist.take x.pinned) :
    Serves x { x with s := s, hist := x.hist.take x.pinned } := by
  have hle := h.le
  refine ⟨⟨hkv, ?_, ?_, ?_⟩, rfl, fun _ => ⟨rfl, ?_⟩⟩
  · rw [List.take_take, Nat.min_self]
    exact hpin
  · simp only [List.length_take]
    omega
  · have := h.cap
    simp only [List.length_take]
    omega
  · rw [List.take_take, Nat.min_self]

/-- The engine refused and changed nothing. -/
theorem SessOk.refused {x : Sess E} {s : E.Sess} (h : SessOk x)
    (hkv : E.kv s = E.kv x.s) (hpin : E.pin s = E.pin x.s) :
    Serves x { x with s := s } :=
  ⟨⟨hkv.trans h.kv, hpin.trans h.pin, h.le, h.cap⟩, rfl, fun _ => ⟨rfl, rfl⟩⟩

theorem SessOk.touch {x : Sess E} (h : SessOk x) (now : Nat) :
    Serves x { x with used := now } :=
  ⟨⟨h.kv, h.pin, h.le, h.cap⟩, rfl, fun _ => ⟨rfl, rfl⟩⟩

variable [LawfulEngine E] [LawfulEngine P.E]

open LawfulEngine

/-- A reset serves. -/
theorem SessOk.reset {x : Sess E} (h : SessOk x) :
    Serves x { x with s := (E.reset x.s).2, hist := x.hist.take x.pinned } := by
  obtain ⟨_, hkv, hpin⟩ := reset_pin (E := E) x.s
  exact h.truncate (hkv.trans h.pin) (hpin.trans h.pin)

theorem opReset_serves {x : Sess E} (h : SessOk x) : Serves x (opReset x).1 :=
  h.reset

/-- Prefilling the rest of a request whose first `reused` tokens are the whole
history. A failed prefill may leave anything in the cache: the reset behind it
is what brings the copies together again. -/
theorem prefillTail_serves {x : Sess E} {ids : List Int} {reused : Nat} (h : SessOk x)
    (hlen : x.hist.length = reused) (hle : reused ≤ ids.length)
    (hids : ids.length ≤ CTX_CAP - 1) : Serves x (prefillTail x ids reused).1 := by
  unfold prefillTail
  simp only
  split
  · exact .refl h
  · split
    · next s hs =>
        have hpin := prefill_fail x.s _ s hs
        obtain ⟨_, hkv', hpin'⟩ := reset_pin (E := E) s
        exact h.truncate ((hkv'.trans hpin).trans h.pin) ((hpin'.trans hpin).trans h.pin)
    · next s hs =>
        obtain ⟨hkv, hpin⟩ := prefill_ok x.s _ s hs
        refine h.push (hkv.trans (by rw [h.kv])) (hpin.trans h.pin) ?_
        rw [List.length_drop]
        omega

theorem opPrefill_serves {vocab : Nat} {x : Sess E} {body : Body} (h : SessOk x) :
    Serves x (opPrefill vocab x body).1 := by
  unfold opPrefill
  split
  · exact .refl h
  · simp only
    split
    · exact .refl h
    · split
      · exact .refl h
      · next hn =>
          split
          · exact .refl h
          · split
            · -- The history is a proper prefix: the tail is appended.
              next hpre => exact prefillTail_serves h rfl (by omega) (by omega)
            · split
              · exact .refl h
              · split
                · exact .refl h
                · -- Back to the pin, which the request is known to start with.
                  next hpin =>
                    obtain ⟨hok, _, _⟩ := reset_pin (E := E) x.s
                    have hr := h.reset
                    split
                    · next s hs => rw [hs] at hok; cases hok
                    · next s hs =>
                        rw [hs] at hr
                        have hlen : (x.hist.take x.pinned).length = x.pinned := by
                          rw [List.length_take, Nat.min_eq_left h.le]
                        refine hr.trans (prefillTail_serves hr.ok hlen ?_ (by omega))
                        have := agree_le_right (fun a b => decide (a = b)) x.hist
                          (int32s body.bytes)
                        omega

theorem opStep_serves {eos : Int} {eot : List Int} {x : Sess E} (h : SessOk x) :
    Serves x (opStep eos eot x).1 := by
  unfold opStep
  split
  · exact .refl h
  · split
    · exact .refl h
    · next hfull =>
        split
        · next s hs =>
            obtain ⟨hkv, hpin⟩ := decode_fail x.s s hs
            exact h.refused hkv hpin
        · next t s hs =>
            obtain ⟨hkv, hpin⟩ := decode_ok x.s t s hs
            refine h.push (hkv.trans (by rw [h.kv])) (hpin.trans h.pin) ?_
            simp only [List.length_singleton]
            omega

/-- The token loop, wherever it ends: on its bound, on a full context, on a
failed decode, on a stop or on a client that is gone. -/
theorem genLoop_serves (st : Stops) : ∀ (fuel k : Nat) (tail : CStr) {x : Sess E}
    (c : Conn), SessOk x → Serves x (genLoop st fuel k tail x c).1 := by
  intro fuel
  induction fuel with
  | zero => exact fun _ _ _ _ h => .refl h
  | succ fuel ih =>
      intro k tail x c h
      rw [genLoop]
      split
      · exact .refl h
      · next hfull =>
          split
          · next s hs =>
              obtain ⟨hkv, hpin⟩ := decode_fail x.s s hs
              exact h.refused hkv hpin
          · next t s hs =>
              obtain ⟨hkv, hpin⟩ := decode_ok x.s t s hs
              have hpush : Serves x (histPush { x with s := s } [t]) := by
                refine h.push (hkv.trans (by rw [h.kv])) (hpin.trans h.pin) ?_
                simp only [List.length_singleton]
                omega
              simp only
              split
              · exact hpush
              · split
                · exact hpush
                · exact hpush.trans (ih _ _ _ hpush.ok)

theorem opGenerate_serves {st : Stops} {max : Nat} {x : Sess E} {c : Conn}
    (h : SessOk x) : Serves x (opGenerate st max x c).1 := by
  unfold opGenerate
  split
  · exact .refl h
  · have hloop := genLoop_serves st max 0 [] c h
    split
    next x' c' reason k heq =>
      rw [heq] at hloop
      simp only
      split <;> exact hloop

theorem opPin_serves {x : Sess E} {n : Nat} (h : SessOk x) : Serves x (opPin x n).1 := by
  unfold opPin
  split
  · exact .refl h
  · next hpinned =>
      split
      · exact .refl h
      · next hn =>
          split
          · next s hs =>
              obtain ⟨hkv, hpin⟩ := pin_fail x.s n x.hist s hs
              exact h.refused hkv hpin
          · next s hs =>
              obtain ⟨hkv, hpin⟩ := pin_ok x.s n x.hist s hs
              have hcap := h.cap
              rw [h.kv] at hkv hpin
              refine ⟨⟨hkv, ?_, ?_, ?_⟩, rfl, fun hp => absurd hp hpinned⟩
              · simp only [List.take_take, Nat.min_self]
                exact hpin
              · simp only [List.length_take]
                omega
              · simp only [List.length_take]
                omega

/-- `unpin` leaves the session in order, under its id. -/
theorem opUnpin_ok {x : Sess E} (h : SessOk x) :
    SessOk (opUnpin x).1 ∧ (opUnpin x).1.id = x.id := by
  unfold opUnpin
  split
  · next s hs =>
      obtain ⟨hkv, hpin⟩ := pin_fail x.s 0 x.hist s hs
      exact ⟨(h.refused hkv hpin).ok, rfl⟩
  · next s hs =>
      obtain ⟨hkv, hpin⟩ := pin_ok x.s 0 x.hist s hs
      exact ⟨⟨by simpa using hkv, by simpa using hpin, le_rfl, Nat.zero_le _⟩, rfl⟩

/-! ## One frame -/

/-- An `open` takes the slot: its session has been idle for too long, or it is
the one that the new session gets. -/
def TakenByOpen (d : Daemon P) (env : Env) (sid : Option CStr) (i : Nat) : Prop :=
  let d' := (d.findSess env sid).1
  let sess := sessEvictIdle env.now d'.idleS d'.sess
  slot sess i = none ∨ slotFor Sess.used sess = i

/-- The frames that may end the session of slot `i` or its pin: an `unpin` or a
`close` that names it, and an `open` that evicts it. -/
def Ends (d : Daemon P) (env : Env) (op : CStr) (sid : Option CStr) (i : Nat) : Prop :=
  (op = lit "unpin" ∨ op = lit "close") ∧ sessFind d.sess sid = some i ∨
    op = lit "open" ∧ TakenByOpen d env sid i

/-- What one frame can do to one slot. -/
inductive SlotTurn (P : Platform) (ends : Prop) :
    Option (Sess P.E) → Option (Sess P.E) → Prop where
  | keep (o : Option (Sess P.E)) : SlotTurn P ends o o
  | serve {x x' : Sess P.E} (h : SessOk x → Serves x x') :
      SlotTurn P ends (some x) (some x')
  | unpin {x x' : Sess P.E} (he : ends) (h : SessOk x → SessOk x') :
      SlotTurn P ends (some x) (some x')
  | gone {x : Sess P.E} (he : ends) : SlotTurn P ends (some x) none
  | opened {o : Option (Sess P.E)} {x' : Sess P.E} (he : o.isSome → ends) (h : SessOk x') :
      SlotTurn P ends o (some x')

omit [LawfulEngine E] [LawfulEngine P.E]

theorem SlotTurn.weaken {e e' : Prop} {o o' : Option (Sess P.E)} (he : e → e')
    (h : SlotTurn P e o o') : SlotTurn P e' o o' := by
  cases h with
  | keep => exact .keep _
  | serve h => exact .serve h
  | unpin h1 h => exact .unpin (he h1) h
  | gone h => exact .gone (he h)
  | opened h1 h => exact .opened (fun ho => he (h1 ho)) h

theorem SlotTurn.same {e : Prop} {d d' : Daemon P} {i : Nat} (h : d'.sess = d.sess) :
    SlotTurn P e (slot d.sess i) (slot d'.sess i) := by
  rw [h]
  exact .keep _

/-- A new time of use, and then a turn, is a turn. -/
theorem SlotTurn.touched {e : Prop} {x : Sess P.E} {now : Nat} {o' : Option (Sess P.E)}
    (h : SlotTurn P e (some { x with used := now }) o') : SlotTurn P e (some x) o' := by
  cases h with
  | keep => exact .serve fun hx => hx.touch now
  | serve h => exact .serve fun hx => (hx.touch now).trans (h (hx.touch now).ok)
  | unpin he h => exact .unpin he fun hx => h (hx.touch now).ok
  | gone he => exact .gone he
  | opened he h => exact .opened (fun _ => he rfl) h

/-- Finding a session changes its time of use and nothing else. -/
theorem findSess_slot (d : Daemon P) (env : Env) (sid : Option CStr) (i : Nat) :
    slot (d.findSess env sid).1.sess i = slot d.sess i ∨
      ∃ x, slot d.sess i = some x ∧
        slot (d.findSess env sid).1.sess i = some { x with used := env.now } := by
  unfold Daemon.findSess
  split
  · exact .inl rfl
  · next k hk =>
      simp only
      rw [slot_modify]
      split
      · cases slot d.sess i with
        | none => exact .inl rfl
        | some x => exact .inr ⟨x, rfl, rfl⟩
      · exact .inl rfl

theorem findSess_found (d : Daemon P) (env : Env) (sid : Option CStr) :
    (d.findSess env sid).2 = sessFind d.sess sid := by
  unfold Daemon.findSess
  split
  · next h => exact h.symm
  · next h => exact h.symm

theorem say_fst (c : Conn) (dr : Daemon P × Reply) : (Daemon.say c dr).1 = dr.1 := rfl

/-- An op on the found session gives that slot one turn. -/
theorem onSess_slot {d : Daemon P} {k : Option Nat} {miss : String}
    {f : Sess P.E → Sess P.E × Reply} {e : Nat → Prop}
    (h : ∀ i x, k = some i → SlotTurn P (e i) (some x) (some (f x).1)) (i : Nat) :
    SlotTurn P (e i) (slot d.sess i) (slot (d.onSess k miss f).1.sess i) := by
  unfold Daemon.onSess
  split
  · exact .keep _
  · next j x heq =>
      obtain ⟨j', hk, hm⟩ := Option.bind_eq_some_iff.mp heq
      obtain ⟨x', hx, hpair⟩ := Option.map_eq_some_iff.mp hm
      cases hpair
      simp only
      rw [slot_set_live hx]
      split
      · next hij =>
          subst hij
          rw [hx]
          exact h j x hk
      · exact .keep _

/-- What an `open` leaves of the table when slot `k` gets `v`. -/
theorem evicted_slot {d : Daemon P} {now k : Nat} {v : Option (Sess P.E)} (i : Nat)
    (hv : ∀ x, v = some x → SessOk x) :
    SlotTurn P (slot (sessEvictIdle now d.idleS d.sess) i = none ∨ k = i) (slot d.sess i)
      (slot ((sessEvictIdle now d.idleS d.sess).set k v) i) := by
  have hmap : slot (sessEvictIdle now d.idleS d.sess) i =
      (slot d.sess i).filter fun x => decide (now - x.used ≤ d.idleS) :=
    slot_map _ _ _ rfl
  rw [slot_set]
  split
  · next hki =>
      have hnone : SlotTurn P (slot (sessEvictIdle now d.idleS d.sess) i = none ∨ k = i)
          (slot d.sess i) none := by
        cases slot d.sess i with
        | none => exact .keep _
        | some x => exact .gone (.inr hki)
      split
      · cases v with
        | none => exact hnone
        | some x => exact .opened (fun _ => .inr hki) (hv x rfl)
      · exact hnone
  · rw [hmap]
    cases slot d.sess i with
    | none => exact .keep _
    | some x =>
        by_cases hidle : now - x.used ≤ d.idleS
        · rw [Option.filter_some, if_pos (decide_eq_true hidle)]
          exact .keep _
        · rw [Option.filter_some, if_neg (by simpa using hidle)]
          exact .gone (.inl rfl)

theorem opOpen_slot [LawfulEngine P.E] {d : Daemon P} {env : Env} {j : Json} (i : Nat) :
    SlotTurn P (slot (sessEvictIdle env.now d.idleS d.sess) i = none ∨
        slotFor Sess.used (sessEvictIdle env.now d.idleS d.sess) = i)
      (slot d.sess i) (slot (d.opOpen env j).1.sess i) := by
  unfold Daemon.opOpen
  simp only
  split
  · exact .keep _
  · split
    · exact evicted_slot i (by simp)
    · next mo s hs =>
        split
        · exact evicted_slot i (by simp)
        · refine evicted_slot i fun x hx => ?_
          cases hx
          obtain ⟨hkv, hpin⟩ := LawfulEngine.create_new _ _ mo s hs
          exact ⟨hkv, hpin, le_rfl, Nat.zero_le _⟩

theorem opTokenize_sess (d : Daemon P) (j : Json) : (d.opTokenize j).1.sess = d.sess := by
  unfold Daemon.opTokenize
  split
  · rfl
  · simp only
    split
    · rfl
    · split <;> rfl

theorem opPeek_sess (d : Daemon P) (k : Option Nat) : (d.opPeek k).1.sess = d.sess := by
  unfold Daemon.opPeek
  split
  · rfl
  · simp only
    split <;> rfl

theorem chatOp_sess (d : Daemon P) (env : Env) (op : CStr) (j : Json) (body : Body)
    (c : Conn) : (d.chatOp env op j body c).1.sess = d.sess := by
  have hfind : ∀ id, (d.findChat env id).1.sess = d.sess := by
    intro id
    unfold Daemon.findChat
    split <;> rfl
  unfold Daemon.chatOp
  simp only
  split
  · rw [say_fst]
    exact hfind _
  · split
    · split
      · exact hfind _
      · exact hfind _
    · split
      · exact hfind _
      · split
        · exact hfind _
        · split <;> exact hfind _

theorem generate_slot [LawfulEngine P.E] {d : Daemon P} {k : Option Nat} {j : Json}
    {c : Conn} (e : Prop) (i : Nat) :
    SlotTurn P e (slot d.sess i) (slot (d.generate k j c).1.sess i) := by
  unfold Daemon.generate
  split
  · exact .keep _
  · next n x heq =>
      obtain ⟨n', _, hm⟩ := Option.bind_eq_some_iff.mp heq
      obtain ⟨x', hx, hpair⟩ := Option.map_eq_some_iff.mp hm
      cases hpair
      simp only
      rw [slot_set_live hx]
      split
      · next hni =>
          subst hni
          rw [hx]
          exact .serve fun h => opGenerate_serves h
      · exact .keep _

theorem opClose_slot {d : Daemon P} {k : Option Nat} (i : Nat) :
    SlotTurn P (k = some i) (slot d.sess i) (slot (d.opClose k).1.sess i) := by
  unfold Daemon.opClose
  split
  · exact .keep _
  · next n =>
      simp only
      rw [slot_set]
      split
      · next hni =>
          subst hni
          have hgone : SlotTurn P (some n = some n) (slot d.sess n) none := by
            cases slot d.sess n with
            | none => exact .keep _
            | some x => exact .gone rfl
          split <;> exact hgone
      · exact .keep _

/-- Whatever a dispatched op does to the table, it gives each slot one turn. -/
theorem dispatch_slot [LawfulEngine P.E] (d : Daemon P) (env : Env) (op : CStr) (j : Json)
    (body : Body) (c : Conn) (i : Nat) :
    SlotTurn P (Ends d env op (jsonStrdup (jsonGet j "session")) i) (slot d.sess i)
      (slot (dispatch d env op j body c).1.sess i) := by
  generalize hsid : jsonStrdup (jsonGet j "session") = sid
  have hfound := findSess_found d env sid
  -- The turn is taken by the daemon that has already noted the time of use.
  suffices hturn : SlotTurn P (Ends d env op sid i) (slot (d.findSess env sid).1.sess i)
      (slot (dispatch d env op j body c).1.sess i) by
    rcases findSess_slot d env sid i with heq | ⟨x, hx, heq⟩
    · rwa [heq] at hturn
    · rw [hx]
      rw [heq] at hturn
      exact hturn.touched
  let Turned (r : Daemon P × Conn × Bool) : Prop :=
    SlotTurn P (Ends d env op sid i) (slot (d.findSess env sid).1.sess i) (slot r.1.sess i)
  have branch : ∀ {q : Prop} [Decidable q] {a b : Daemon P × Conn × Bool},
      (q → Turned a) → (¬ q → Turned b) → Turned (if q then a else b) :=
    fun ha hb => iteInduction (motive := Turned) ha hb
  unfold dispatch
  rw [hsid]
  refine branch (fun _ => .keep _) fun _ => ?_
  refine branch (fun _ => .keep _) fun _ => ?_
  refine branch (fun h => ?unpin) fun _ => ?_
  case unpin =>
    exact onSess_slot (fun n x hn => .unpin (.inl ⟨.inl h, hfound.symm.trans hn⟩)
      fun hx => (opUnpin_ok hx).1) i
  refine branch (fun h => ?opened) fun _ => ?_
  case opened =>
    exact (opOpen_slot (d := (d.findSess env sid).1) i).weaken fun ht => .inr ⟨h, ht⟩
  refine branch (fun _ => ?tokenize) fun _ => ?_
  case tokenize => exact .same (opTokenize_sess _ j)
  refine branch (fun _ => onSess_slot (fun n x hn => .serve fun hx => .refl hx) i)
    fun _ => ?_
  refine branch (fun _ => onSess_slot (fun n x hn => .serve fun hx => opPrefill_serves hx) i)
    fun _ => ?_
  refine branch (fun _ => ?peek) fun _ => ?_
  case peek => exact .same (opPeek_sess _ _)
  refine branch (fun _ => onSess_slot (fun n x hn => .serve fun hx => opStep_serves hx) i)
    fun _ => ?_
  refine branch (fun _ => generate_slot _ i) fun _ => ?_
  refine branch (fun _ => onSess_slot (fun n x hn => .serve fun hx => opReset_serves hx) i)
    fun _ => ?_
  refine branch (fun _ => onSess_slot (fun n x hn => .serve fun hx => opPin_serves hx) i)
    fun _ => ?_
  refine branch (fun _ => ?chat) fun _ => ?_
  case chat => exact .same (chatOp_sess _ env op j body c)
  refine branch (fun h => ?close) fun _ => .keep _
  exact (opClose_slot i).weaken fun hn => .inl ⟨.inr h, hfound.symm.trans hn⟩

/-! ## Whole runs -/

/-- The events that may end the session of slot `i` or its pin. -/
def EndsSlot (i : Nat) (s : Server P) : Event → Prop
  | .frame _ f env => ∃ op, opOf f = some op ∧ Ends s.d env op (sessionOf f) i
  | _ => False

theorem handle_slot [LawfulEngine P.E] (d : Daemon P) (env : Env) (f : Frame) (c : Conn)
    (i : Nat) :
    SlotTurn P (∃ op, opOf f = some op ∧ Ends d env op (sessionOf f) i) (slot d.sess i)
      (slot (handle d env f c).1.sess i) := by
  unfold handle
  split
  · exact .keep _
  · next j hj =>
      split
      · exact .keep _
      · next op hop =>
          simp only
          split
          · split <;> exact .keep _
          · split
            · exact .keep _
            · refine (dispatch_slot d env op j f.body _ i).weaken fun he => ⟨op, ?_, ?_⟩
              · rw [opOf, Frame.field, hj]
                exact hop
              · rw [sessionOf, Frame.field, hj]
                exact he

theorem step_slot [LawfulEngine P.E] {s s' : Server P} {e : Event}
    (h : s.step e = some s') (i : Nat) :
    SlotTurn P (EndsSlot i s e) (slot s.d.sess i) (slot s'.d.sess i) := by
  cases e with
  | accept k life =>
      cases h
      exact .keep _
  | malformed k =>
      obtain ⟨c, _, rfl⟩ := Option.map_eq_some_iff.mp h
      exact .keep _
  | frame k f env =>
      obtain ⟨c, _, rfl⟩ := Option.map_eq_some_iff.mp h
      exact handle_slot s.d env f c i

/-- Every live session is in order. -/
def Mirrored (s : Server P) : Prop := ∀ i x, slot s.d.sess i = some x → SessOk x

theorem step_mirrored [LawfulEngine P.E] {s s' : Server P} {e : Event}
    (h : s.step e = some s') (hs : Mirrored s) : Mirrored s' := by
  intro i x' hx'
  have hturn := step_slot h i
  rw [hx'] at hturn
  generalize ho : slot s.d.sess i = o at hturn
  cases hturn with
  | keep => exact hs i x' ho
  | serve hserve => exact (hserve (hs i _ ho)).ok
  | unpin _ hok => exact hok (hs i _ ho)
  | opened _ hok => exact hok

theorem reach_mirrored [LawfulEngine P.E] {init : Server P → Prop}
    {ok : Server P → Event → Prop} (hinit : ∀ s, init s → Mirrored s) {s : Server P}
    (h : (Server.machine init).Reach ok s) : Mirrored s :=
  h.invariant (I := Mirrored) hinit fun _ _ _ _ _ hstep hs => step_mirrored hstep hs

/-- A turn that does not end the slot leaves its pinned prefix alone. -/
theorem step_prefix [LawfulEngine P.E] {s s' : Server P} {e : Event} {i : Nat}
    {x : Sess P.E} (h : s.step e = some s') (hs : Mirrored s) (hends : ¬ EndsSlot i s e)
    (hx : slot s.d.sess i = some x) : ∃ x', slot s'.d.sess i = some x' ∧ Serves x x' := by
  have hturn := step_slot h i
  rw [hx] at hturn
  generalize slot s'.d.sess i = o' at hturn
  cases hturn with
  | keep => exact ⟨x, rfl, .refl (hs i x hx)⟩
  | serve hserve => exact ⟨_, rfl, hserve (hs i x hx)⟩
  | unpin he _ => exact absurd he hends
  | gone he => exact absurd he hends
  | opened he _ => exact absurd (he rfl) hends

/-- In every reachable state each live session's history is the engine's KV
cache and its pin the engine's pin, and along every further run that does not
unpin, close or evict the session the pinned prefix stays what it was. -/
theorem session_history_is_kv_cache [LawfulEngine P.E] {s : Server P}
    (h : (Server.machine Server.Started).Reach Machine.free s) (i : Nat) (x : Sess P.E)
    (hx : slot s.d.sess i = some x) :
    P.E.kv x.s = x.hist ∧ P.E.pin x.s = x.hist.take x.pinned ∧
      (P.E.pin x.s).length = x.pinned ∧ x.pinned ≤ x.hist.length ∧ x.hist.length ≤ 4095 ∧
      ∀ s', (Server.machine (· = s)).Reach (fun t e => ¬ EndsSlot i t e) s' →
        ∃ x', slot s'.d.sess i = some x' ∧ x'.id = x.id ∧
          (0 < x.pinned →
            x'.pinned = x.pinned ∧ x'.hist.take x.pinned = x.hist.take x.pinned) := by
  have hs : Mirrored s := by
    refine reach_mirrored (fun t ht j y hy => ?_) h
    rw [ht.1 j] at hy
    cases hy
  have hok := hs i x hx
  refine ⟨hok.kv, hok.pin, ?_, hok.le, hok.cap, fun s' hs' => ?_⟩
  · rw [hok.pin, List.length_take, Nat.min_eq_left hok.le]
  · have hrun : Mirrored s' ∧ ∃ x', slot s'.d.sess i = some x' ∧ Serves x x' := by
      refine hs'.invariant (I := fun t => Mirrored t ∧ ∃ x', slot t.d.sess i = some x' ∧
        Serves x x') ?_ ?_
      · rintro _ rfl
        exact ⟨hs, x, hx, .refl hok⟩
      · rintro t e t' _ hends hstep ⟨ht, y, hy, hxy⟩
        obtain ⟨y', hy', hyy'⟩ := step_prefix hstep ht hends hy
        exact ⟨step_mirrored hstep ht, y', hy', hxy.trans hyy'⟩
    obtain ⟨_, x', hx', hserve⟩ := hrun
    exact ⟨x', hx', hserve.id, hserve.prefixKept⟩

/-- A session that was opened, given three tokens and pinned at two. -/
def pinnedRun : List Event :=
  let sid : String × JVal := ("session", .str (lit "s"))
  [.accept 0 none,
    .frame 0 (request "open" [] {}) ⟨1, lit "s", false⟩,
    .frame 0 (request "prefill" [sid] { bytes := [1, 0, 0, 0, 2, 0, 0, 0, 3, 0, 0, 0] })
      ⟨2, [], false⟩,
    .frame 0 (request "pin" [sid, ("n", .num (.fin 2))] {}) ⟨3, [], false⟩,
    .frame 0 (request "step" [sid] {}) ⟨4, [], false⟩]

def started (d : Daemon P) : Server P := ⟨d, fun _ => none⟩

theorem session_history_is_kv_cache_pinned :
    ∃ (s : Server plain) (x : Sess plain.E), slot s.d.sess 0 = some x ∧
      x.hist = [1, 2, 2] ∧ plain.E.kv x.s = x.hist ∧ plain.E.pin x.s = x.hist.take 2 := by
  have hrun : ∃ s x, (Server.machine Server.Started).run
      (started (plainDaemon 1 0 none false)) pinnedRun = some s ∧
      slot s.d.sess 0 = some x ∧ x.hist = [1, 2, 2] ∧ x.pinned = 2 :=
    ⟨_, _, rfl, rfl, rfl, rfl⟩
  obtain ⟨s, x, hrun, hx, hhist, hp⟩ := hrun
  have hreach := Machine.run_reach (fun _ _ => trivial)
    (.init (M := Server.machine Server.Started) ?_) hrun
  · obtain ⟨hkv, hpin, _⟩ := session_history_is_kv_cache hreach 0 x hx
    exact ⟨s, x, hx, hhist, hkv, hp ▸ hpin⟩
  · refine ⟨fun i => ?_, fun i => ?_, fun _ => rfl⟩
    · cases i <;> rfl
    · rfl

end GeistServe.Proofs
