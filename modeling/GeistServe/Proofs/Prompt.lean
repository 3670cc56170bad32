import Mathlib.Tactic.Ring
import GeistServe.Gguf.Meta

/-!
# Reading a model header ends

A read of `n` bytes takes `n` bytes of the file, and every seek comes behind a
read of at least four, so a run that only goes forward makes at most one call for
each byte, and one more that fails (`Costs`). The same holds for the depth of
nested arrays: each takes twelve bytes before it is entered (`skipVal_deep`).

Nothing keeps a run from going backward. The bytes of an array of fixed width are
skipped by one seek, the count comes from the file, and a product of `2 ^ 63` or
more is a negative number there. Such a seek can bring the run back to bytes that
it has read, also to the array it is in, without end.
-/

namespace GeistServe.Proofs

open GeistServe.Lib GeistServe.Gguf GeistServe.Geistd

variable {f : Input} {α β : Type}

/-! ## What every run of the parser keeps -/

theorem rdStr_rules {C : (α : Type) → Fetch α → Prop} (h : Rules f C) (cap : Nat) :
    C Bytes (rdStr f cap) :=
  h.bind (h.rdLe 8) fun _ => h.bind (h.check _) fun _ => h.rd _

/-- By induction on the calls that the stack has room for. -/
theorem skipVal_rules {C : (α : Type) → Fetch α → Prop} (h : Rules f C)
    (hdeep : C Unit (stop .deep)) : ∀ fuel t, C Unit (skipVal f fuel t) := by
  intro fuel
  induction fuel with
  | zero => exact fun _ => hdeep
  | succ fuel ih =>
      intro t
      unfold skipVal
      split
      · exact h.seek _
      · split_ifs
        · exact h.bind (h.rdLe 8) fun _ => h.bind (h.check _) fun _ => h.seek _
        · refine h.bind (h.rdLe 4) fun et => h.bind (h.rdLe 8) fun n => ?_
          split
          · exact h.seek _
          · exact h.bind (h.expect _) fun _ => h.times (ih et) n
        · exact h.check _

theorem readValue_rules {C : (α : Type) → Fetch α → Prop} (h : Rules f C) {fuel : Nat}
    (hskip : ∀ t, C Unit (skipVal f fuel t)) (key : Bytes) (t : Nat) (out : Meta) :
    C Meta (readValue f fuel key t out) := by
  unfold readValue
  split
  · exact h.bind (rdStr_rules h _) fun _ => h.pure _
  · split_ifs
    · exact h.bind (h.rdLe 1) fun _ => h.pure _
    · exact h.bind (h.rdLe 4) fun _ => h.pure _
    · exact h.bind (h.rdLe 4) fun _ => h.pure _
    · exact h.bind (hskip t) fun _ => h.pure _

theorem readPairs_rules {C : (α : Type) → Fetch α → Prop} (h : Rules f C) {fuel : Nat}
    (hskip : ∀ t, C Unit (skipVal f fuel t)) : ∀ n out, C Meta (readPairs f fuel n out) := by
  intro n
  induction n with
  | zero => exact fun out => h.pure out
  | succ n ih =>
      intro out
      exact h.bind (rdStr_rules h _) fun key => h.bind (h.rdLe 4) fun t =>
        h.bind (readValue_rules h hskip key t out) fun out => ih out

theorem readSection_rules {C : (α : Type) → Fetch α → Prop} (h : Rules f C) {fuel : Nat}
    (hskip : ∀ t, C Unit (skipVal f fuel t)) : C Meta (readSection f fuel) :=
  h.bind (h.rd 4) fun _ => h.bind (h.check _) fun _ => h.bind (h.rdLe 4) fun _ =>
    h.bind (h.check _) fun _ => h.bind (h.rdLe 8) fun _ => h.bind (h.rdLe 8) fun _ =>
      h.bind (h.check _) fun _ => readPairs_rules h hskip _ _

theorem skipVal_keeps {R : Cursor → Cursor → Prop} (hR : Composes f R) (fuel t : Nat) :
    Keeps R Unit (skipVal f fuel t) :=
  skipVal_rules hR.rules hR.refl fuel t

theorem readSection_keeps {R : Cursor → Cursor → Prop} (hR : Composes f R) (fuel : Nat) :
    Keeps R Meta (readSection f fuel) :=
  readSection_rules hR.rules (skipVal_keeps hR fuel)

/-! ## Going forward -/

/-- A seek that goes backward: the count is a negative number, and not so large
that the seek fails. -/
def Backward : Access → Prop
  | .seek pos n _ => 2 ^ 63 ≤ n % 2 ^ 64 ∧ 2 ^ 64 - n % 2 ^ 64 ≤ pos
  | _ => False

instance (a : Access) : Decidable (Backward a) := by
  cases a <;> (unfold Backward; infer_instance)

/-- The parser goes on from `s` to `s'`. Where none of its accesses goes backward,
the position grows. -/
structure Onward (s s' : Cursor) : Prop where
  steps : s.steps <+: s'.steps
  pos : (∀ a ∈ s'.steps, ¬ Backward a) → s.pos ≤ s'.pos

/-- A seek that does not go backward goes forward. -/
theorem target_forward {pos n next next' : Nat} (h : target f pos n = some next)
    (hback : ¬ Backward (.seek pos n next')) : pos ≤ next := by
  unfold target at h
  unfold Backward at hback
  split_ifs at h
  · cases h
    omega
  · omega

theorem onward (f : Input) : Composes f Onward where
  refl s := ⟨List.prefix_refl _, fun _ => Nat.le_refl _⟩
  trans h h' := ⟨h.steps.trans h'.steps, fun hall =>
    (h.pos fun a ha => hall a (h'.steps.subset ha)).trans (h'.pos hall)⟩
  rd n s := ⟨List.prefix_append .., fun _ => Nat.le_add_right ..⟩
  seek n s := by
    cases h : target f s.pos n with
    | some next =>
        rw [seek_some h]
        exact ⟨List.prefix_append .., fun hall => target_forward h (hall (.seek s.pos n next)
          (List.mem_append_right _ (List.mem_singleton_self _)))⟩
    | none =>
        rw [seek_none h]
        exact ⟨List.prefix_append .., fun _ => Nat.le_refl _⟩
  check b s := ⟨List.prefix_append .., fun _ => Nat.le_refl _⟩
  expect b s := ⟨List.prefix_append .., fun _ => Nat.le_refl _⟩

/-- An access as the file answers it. -/
def Answered (f : Input) : Access → Prop
  | .read pos n next => next = pos + ((f.bytes.drop pos).take n).length
  | .seek pos n next => next = (target f pos n).getD pos
  | _ => True

/-- What is new among the accesses is as the file answers it. -/
theorem answered (f : Input) :
    Composes f fun s s' => (∀ a ∈ s.steps, Answered f a) → ∀ a ∈ s'.steps, Answered f a where
  refl _ h := h
  trans h h' := fun hs => h' (h hs)
  rd n s hs a ha := by
    rcases List.mem_append.mp ha with ha | ha
    · exact hs a ha
    · rw [List.mem_singleton.mp ha]
      rfl
  seek n s hs a ha := by
    cases h : target f s.pos n with
    | some next =>
        rw [seek_some h] at ha
        rcases List.mem_append.mp ha with ha | ha
        · exact hs a ha
        · rw [List.mem_singleton.mp ha, Answered, h, Option.getD_some]
    | none =>
        rw [seek_none h] at ha
        rcases List.mem_append.mp ha with ha | ha
        · exact hs a ha
        · rw [List.mem_singleton.mp ha, Answered, h, Option.getD_none]
  check b s hs a ha := by
    rcases List.mem_append.mp ha with ha | ha
    · exact hs a ha
    · rw [List.mem_singleton.mp ha]
      trivial
  expect b s hs a ha := by
    rcases List.mem_append.mp ha with ha | ha
    · exact hs a ha
    · rw [List.mem_singleton.mp ha]
      trivial

/-- What is done for the elements of an array. -/
def elements (f : Input) (fuel et n : Nat) : Fetch Unit :=
  match width et with
  | some w => seek f (n * w)
  | none => do
      expect (decide (et < 13))
      times n (skipVal f fuel et)

/-- An array whose header is there. -/
theorem skipVal_array (fuel : Nat) (steps : List Access) {pos : Nat} {type count : Bytes}
    (htype : (f.bytes.drop pos).take 4 = type) (hlen : type.length = 4)
    (hcount : (f.bytes.drop (pos + 4)).take 8 = count) (hlen' : count.length = 8) :
    (skipVal f (fuel + 1) GG_ARR).run { pos := pos, steps := steps } =
      (elements f fuel (leVal type) (leVal count)).run { pos := pos + 12, steps :=
        steps ++ [.read pos 4 (pos + 4), .read (pos + 4) 8 (pos + 12)] } := by
  have hfirst := @rdLe_ok f { pos := pos, steps := steps } 4 type htype hlen
  have hsecond := @rdLe_ok f { pos := pos + 4, steps := steps ++ [.read pos 4 (pos + 4)] } 8
    count hcount hlen'
  rw [List.append_assoc] at hsecond
  exact (run_ok hfirst).trans (run_ok hsecond)

/-! ## What a run costs -/

def calls (s : Cursor) : Nat := s.steps.countP (·.isCall)

/-- The bytes that are left to read. -/
def unread (f : Input) (s : Cursor) : Nat := f.bytes.length - s.pos

/-- The calls that were made and the bytes that are left. -/
def weight (f : Input) (s : Cursor) : Int := calls s + unread f s

/-- The weight has grown by at most `k`; where the parser stopped, it made at most
`e` calls more than the weight was. -/
def Bill (f : Input) (s : Cursor) (k e : Int) : Except Stop α → Cursor → Prop
  | .ok _, s' => weight f s' ≤ weight f s + k
  | .error _, s' => calls s' ≤ weight f s + e

/-- What the parser costs where it only goes forward. -/
def Costs (f : Input) (x : Fetch α) (k e : Int) : Prop :=
  ∀ s, Onward s (x.run s).2 ∧
    ((∀ a ∈ (x.run s).2.steps, ¬ Backward a) → Bill f s k e (x.run s).1 (x.run s).2)

theorem Bill.mono {s s' : Cursor} {r : Except Stop α} {k e k' e' : Int}
    (h : Bill f s k e r s') (hk : k ≤ k') (he : e ≤ e') : Bill f s k' e' r s' := by
  cases r with
  | ok a =>
      unfold Bill at h ⊢
      omega
  | error e =>
      unfold Bill at h ⊢
      omega

theorem Costs.mono {x : Fetch α} {k e k' e' : Int} (hx : Costs f x k e) (hk : k ≤ k')
    (he : e ≤ e') : Costs f x k' e' :=
  fun s => ⟨(hx s).1, fun hall => ((hx s).2 hall).mono hk he⟩

theorem Costs.bind {x : Fetch α} {g : α → Fetch β} {k e k' e' : Int} (hx : Costs f x k e)
    (hg : ∀ a, Costs f (g a) k' e') : Costs f (x >>= g) (k + k') (max e (k + e')) := by
  intro s
  obtain ⟨honward, hcost⟩ := hx s
  rcases hr : x.run s with ⟨r, s'⟩
  rw [hr] at honward hcost
  cases r with
  | ok a =>
      have hrun : (x >>= g).run s = (g a).run s' := run_ok hr
      obtain ⟨honward', hcost'⟩ := hg a s'
      rw [hrun]
      refine ⟨(onward f).trans honward honward', fun hall => ?_⟩
      have hfirst : weight f s' ≤ weight f s + k :=
        hcost fun b hb => hall b (honward'.steps.subset hb)
      have hsecond := hcost' hall
      rcases hr' : (g a).run s' with ⟨r', s''⟩
      rw [hr'] at hsecond
      cases r' with
      | ok b =>
          unfold Bill at hsecond ⊢
          omega
      | error e =>
          unfold Bill at hsecond ⊢
          omega
  | error e =>
      have hrun : (x >>= g).run s = (.error e, s') := run_error hr
      rw [hrun]
      refine ⟨honward, fun hall => ?_⟩
      have hfirst := hcost hall
      unfold Bill at hfirst ⊢
      omega

theorem Costs.pure (a : α) : Costs f (Pure.pure a) 0 0 :=
  fun s => ⟨(onward f).refl s, fun _ => by
    show weight f s ≤ weight f s + 0
    omega⟩

theorem weight_step {s : Cursor} {a : Access} {pos : Nat} (ha : a.isCall = true) :
    calls { pos := pos, steps := s.steps ++ [a] } = calls s + 1 := by
  simp [calls, ha]

/-- A read makes a call, and takes its bytes. -/
theorem costs_rd (n : Nat) : Costs f (rd f n) (1 - n) 1 := by
  intro s
  refine ⟨(onward f).rd n s, fun _ => ?_⟩
  have hcalls : calls ((rd f n).run s).2 = calls s + 1 := weight_step rfl
  have hlen : ((f.bytes.drop s.pos).take n).length = min n (unread f s) := by simp [unread]
  have hunread : unread f ((rd f n).run s).2 = unread f s - min n (unread f s) := by
    have hpos : ((rd f n).run s).2.pos = s.pos + min n (unread f s) := by simp only [rd, hlen]
    unfold unread at hpos ⊢
    omega
  by_cases hn : ((f.bytes.drop s.pos).take n).length = n
  · have hok : ((rd f n).run s).1 = .ok ((f.bytes.drop s.pos).take n) := if_pos hn
    rw [hok]
    show weight f ((rd f n).run s).2 ≤ weight f s + (1 - n)
    unfold weight
    rw [hcalls, hunread]
    omega
  · have herr : ((rd f n).run s).1 = .error .refused := if_neg hn
    rw [herr]
    show (calls ((rd f n).run s).2 : Int) ≤ weight f s + 1
    unfold weight
    rw [hcalls]
    omega

/-- A parser that makes a call and takes nothing. -/
theorem bill_call {s s' : Cursor} (honward : Onward s s') (hcalls : calls s' = calls s + 1)
    (hall : ∀ a ∈ s'.steps, ¬ Backward a) (r : Except Stop α) : Bill f s 1 1 r s' := by
  have hpos := honward.pos hall
  cases r with
  | ok a =>
      unfold Bill weight unread
      omega
  | error e =>
      unfold Bill weight unread
      omega

theorem costs_seek (n : Nat) : Costs f (seek f n) 1 1 := by
  intro s
  have honward := (onward f).seek n s
  have hcalls : calls ((seek f n).run s).2 = calls s + 1 := by
    cases h : target f s.pos n with
    | some next =>
        rw [seek_some h]
        exact weight_step rfl
    | none =>
        rw [seek_none h]
        exact weight_step rfl
  exact ⟨honward, fun hall => bill_call honward hcalls hall _⟩

/-- What leaves the calls and the position as they were is free. -/
theorem bill_free {s s' : Cursor} (hpos : s'.pos = s.pos) (hcalls : calls s' = calls s)
    (r : Except Stop α) : Bill f s 0 0 r s' := by
  cases r with
  | ok a =>
      unfold Bill weight unread
      omega
  | error e =>
      unfold Bill weight unread
      omega

theorem calls_check (b : Bool) (s : Cursor) : calls ((check b).run s).2 = calls s := by
  simp [calls, check, Access.isCall]

theorem calls_expect (b : Bool) (s : Cursor) : calls ((expect b).run s).2 = calls s := by
  simp [calls, expect, Access.isCall]

theorem costs_check (b : Bool) : Costs f (check b) 0 0 := by
  intro s
  have hpos : ((check b).run s).2.pos = s.pos := rfl
  exact ⟨(onward f).check b s, fun _ => bill_free hpos (calls_check b s) _⟩

theorem costs_expect (b : Bool) : Costs f (expect b) 0 0 := by
  intro s
  have hpos : ((expect b).run s).2.pos = s.pos := rfl
  exact ⟨(onward f).expect b s, fun _ => bill_free hpos (calls_expect b s) _⟩

theorem costs_rdLe (w : Nat) : Costs f (rdLe f w) (1 - w) 1 := by
  have h := (costs_rd (f := f) w).bind fun bs => Costs.pure (leVal bs)
  exact h.mono (by omega) (by omega)

theorem costs_rdStr (cap : Nat) : Costs f (rdStr f cap) (-6) 1 := by
  have hrd : ∀ n, Costs f (rd f n) 1 1 := fun n => (costs_rd n).mono (by omega) (by omega)
  have h := (costs_rdLe (f := f) 8).bind fun n =>
    (costs_check (decide (n ≤ cap))).bind fun _ => hrd n
  exact h.mono (by omega) (by omega)

/-- The loop over elements that do not add to the weight. -/
theorem costs_times {x : Fetch Unit} (hx : Costs f x 0 1) : ∀ n, Costs f (times n x) 0 1
  | 0 => (Costs.pure ()).mono (by omega) (by omega)
  | n + 1 => (hx.bind fun _ => costs_times hx n).mono (by omega) (by omega)

/-- The bytes behind a value's type pay for it, but for the one seek over a value
of fixed width. -/
theorem costs_skipVal : ∀ fuel t,
    Costs f (skipVal f fuel t) (if (width t).isSome then 1 else 0) 1 := by
  intro fuel
  induction fuel with
  | zero =>
      intro t s
      refine ⟨(onward f).refl s, fun _ => ?_⟩
      show (calls s : Int) ≤ weight f s + 1
      unfold weight
      omega
  | succ fuel ih =>
      intro t
      unfold skipVal
      cases hw : width t with
      | some w => exact costs_seek w
      | none =>
          simp only [Option.isSome_none, Bool.false_eq_true, if_false]
          split_ifs
          · have h := (costs_rdLe (f := f) 8).bind fun n =>
              (costs_check (decide (n < 2 ^ 30))).bind fun _ => costs_seek (f := f) n
            exact h.mono (by omega) (by omega)
          · have hinner : ∀ et n, Costs f (match width et with
                | some w => seek f (n * w)
                | none => do
                    expect (decide (et < 13))
                    times n (skipVal f fuel et)) 1 1 := by
              intro et n
              cases het : width et with
              | some w => exact costs_seek _
              | none =>
                  have hloop : Costs f (skipVal f fuel et) 0 1 := by simpa [het] using ih et
                  have h := (costs_expect (f := f) (decide (et < 13))).bind fun _ =>
                    costs_times hloop n
                  exact h.mono (by omega) (by omega)
            have h := (costs_rdLe (f := f) 4).bind fun et =>
              (costs_rdLe (f := f) 8).bind fun n => hinner et n
            exact h.mono (by omega) (by omega)
          · exact (costs_check false).mono (by omega) (by omega)

theorem costs_readValue (fuel : Nat) (key : Bytes) (t : Nat) (out : Meta) :
    Costs f (readValue f fuel key t out) 1 1 := by
  have hpure : ∀ out : Meta, Costs f (pure out) 0 0 := fun out => Costs.pure out
  unfold readValue
  split
  · exact ((costs_rdStr _).bind fun s => hpure _).mono (by omega) (by omega)
  · split_ifs
    · exact ((costs_rdLe 1).bind fun b => hpure _).mono (by omega) (by omega)
    · exact ((costs_rdLe 4).bind fun n => hpure _).mono (by omega) (by omega)
    · exact ((costs_rdLe 4).bind fun n => hpure _).mono (by omega) (by omega)
    · have hskip : Costs f (skipVal f fuel t) 1 1 :=
        (costs_skipVal fuel t).mono (by split_ifs <;> omega) (by omega)
      exact (hskip.bind fun _ => hpure out).mono (by omega) (by omega)

theorem costs_readPairs (fuel : Nat) : ∀ n out, Costs f (readPairs f fuel n out) 0 1 := by
  intro n
  induction n with
  | zero => exact fun out => (Costs.pure out).mono (by omega) (by omega)
  | succ n ih =>
      intro out
      have h := (costs_rdStr (f := f) 4096).bind fun key => (costs_rdLe (f := f) 4).bind fun t =>
        (costs_readValue (f := f) fuel key t out).bind fun out => ih out
      exact h.mono (by omega) (by omega)

theorem costs_readSection (fuel : Nat) : Costs f (readSection f fuel) 0 1 := by
  have h := (costs_rd (f := f) 4).bind fun magic =>
    (costs_check (decide (magic = lit "GGUF"))).bind fun _ =>
      (costs_rdLe (f := f) 4).bind fun version =>
        (costs_check (decide (2 ≤ version))).bind fun _ =>
          (costs_rdLe (f := f) 8).bind fun _ => (costs_rdLe (f := f) 8).bind fun nKv =>
            (costs_check (decide (nKv < 65536))).bind fun _ =>
              costs_readPairs (f := f) fuel nKv {}
  exact h.mono (by omega) (by omega)

/-! ## How deep a run goes -/

/-- A parser that stops for want of room has, going forward, passed twelve bytes
for each call that the stack has room for. -/
def Roomy (f : Input) (fuel : Nat) (α : Type) (x : Fetch α) : Prop :=
  ∀ s s', x.run s = (.error .deep, s') → (∀ a ∈ s'.steps, ¬ Backward a) →
    12 * fuel ≤ f.bytes.length

theorem Shallow.roomy {fuel : Nat} {x : Fetch α} (h : Shallow α x) : Roomy f fuel α x :=
  fun s s' hdeep => absurd hdeep (h s s')

theorem roomy_rules (f : Input) (fuel : Nat) : Rules f (Roomy f fuel) where
  pure a := Shallow.roomy ((shallow_rules f).pure a)
  bind hx hg s s' h hall := by
    rcases run_stops h with h | ⟨a, s'', _, h⟩
    · exact hx s s' h hall
    · exact hg a s'' s' h hall
  rd n := Shallow.roomy ((shallow_rules f).rd n)
  seek n := Shallow.roomy ((shallow_rules f).seek n)
  check b := Shallow.roomy ((shallow_rules f).check b)
  expect b := Shallow.roomy ((shallow_rules f).expect b)

/-- Each call of `skip_val` in a call takes the twelve bytes of an array's header. -/
theorem skipVal_deep : ∀ {fuel t : Nat} {s s' : Cursor},
    (skipVal f fuel t).run s = (.error .deep, s') → (∀ a ∈ s'.steps, ¬ Backward a) →
      12 * fuel ≤ unread f s := by
  intro fuel
  induction fuel with
  | zero =>
      intro t s s' _ _
      omega
  | succ fuel ih =>
      intro t s s' h hall
      unfold skipVal at h
      split at h
      · exact absurd h ((shallow_rules f).seek _ _ _)
      · split_ifs at h
        · rcases run_stops h with h | ⟨n, s₁, _, h⟩
          · exact absurd h ((shallow_rules f).rdLe _ _ _)
          · rcases run_stops h with h | ⟨_, s₂, _, h⟩
            · exact absurd h ((shallow_rules f).check _ _ _)
            · exact absurd h ((shallow_rules f).seek _ _ _)
        · rcases run_stops h with h | ⟨et, s₁, htype, h⟩
          · exact absurd h ((shallow_rules f).rdLe _ _ _)
          rcases run_stops h with h | ⟨n, s₂, hcount, h⟩
          · exact absurd h ((shallow_rules f).rdLe _ _ _)
          split at h
          · exact absurd h ((shallow_rules f).seek _ _ _)
          rcases run_stops h with h | ⟨_, s₃, hexpect, h⟩
          · cases h
          · obtain ⟨s₄, hmore, hstop⟩ := times_stops (onward f)
              (skipVal_keeps (onward f) fuel et) h
            have hinner := ih hstop hall
            have hkept := skipVal_keeps (onward f) fuel et s₄
            rw [hstop] at hkept
            have hforward := hmore.pos fun a ha => hall a (hkept.steps.subset ha)
            obtain ⟨b₁, hb₁, hlen₁, _, rfl⟩ := rdLe_inv htype
            obtain ⟨b₂, hb₂, hlen₂, _, rfl⟩ := rdLe_inv hcount
            cases hexpect
            have hread := congrArg List.length hb₂
            simp only [List.length_take, List.length_drop] at hread hforward
            unfold unread at hinner ⊢
            omega
        · exact absurd h ((shallow_rules f).check _ _ _)

theorem roomy_skipVal (fuel t : Nat) : Roomy f fuel Unit (skipVal f fuel t) := by
  intro s s' h hall
  have hdeep := skipVal_deep h hall
  unfold unread at hdeep
  omega

theorem roomy_readSection (fuel : Nat) : Roomy f fuel Meta (readSection f fuel) :=
  readSection_rules (roomy_rules f fuel) (roomy_skipVal fuel)

/-- Going forward, a run has an answer once there is room for the file's nesting. -/
theorem forward_ends {fuel : Nat} (h : ∀ a ∈ accesses f fuel, ¬ Backward a)
    (hfuel : f.bytes.length < 12 * fuel) : ggufReadMeta (some f) fuel ≠ none := by
  intro hnone
  rcases hr : (readSection f fuel).run {} with ⟨r, s'⟩
  unfold accesses at h
  simp only [ggufReadMeta, hr] at hnone h
  match r with
  | .ok out => cases hnone
  | .error .refused => cases hnone
  | .error .deep =>
      have hroom := roomy_readSection fuel _ _ hr h
      omega

/-! ## The result -/

/-- The calls on the file that a run makes. -/
def callCount (f : Input) (fuel : Nat) : Nat := (accesses f fuel).countP (·.isCall)

/-- The run ends with some room on the stack and with any more, no access moves the
position backward, and the calls are bounded by the size of the file. -/
structure Prompt (f : Input) : Prop where
  ends : ∃ enough, ∀ fuel, enough ≤ fuel → ggufReadMeta (some f) fuel ≠ none
  forward : ∀ fuel, ∀ a ∈ accesses f fuel, a.pos ≤ a.next
  bounded : ∀ fuel, callCount f fuel ≤ f.bytes.length + 65536

/-- Every access of a run is as the file answers it. -/
theorem accesses_answered {fuel : Nat} : ∀ a ∈ accesses f fuel, Answered f a :=
  readSection_keeps (answered f) fuel {} fun _ ha => absurd ha List.not_mem_nil

/-- An access moves the position backward exactly if it is such a seek. -/
theorem backward_iff {a : Access} (h : Answered f a) : a.next < a.pos ↔ Backward a := by
  cases a with
  | read pos n next =>
      rw [Answered] at h
      refine iff_of_false ?_ id
      show ¬ next < pos
      omega
  | seek pos n next =>
      rw [Answered, target] at h
      unfold Backward
      show next < pos ↔ _
      rw [h]
      split_ifs
      all_goals
        simp only [Option.getD_some, Option.getD_none]
        omega
  | check pos passes => exact iff_of_false (Nat.lt_irrefl _) id
  | expect pos holds => exact iff_of_false (Nat.lt_irrefl _) id

/-- Reading the header of a file is prompt exactly if no seek of a run goes
backward, that is if no array of elements of fixed width that the run comes to
has a byte count that is negative as a signed number of 64 bits and leads back
into the file. -/
theorem gguf_ends_promptly (f : Input) :
    Prompt f ↔ ∀ fuel, ∀ a ∈ accesses f fuel, ¬ Backward a := by
  constructor
  · intro h fuel a ha hback
    have hmoves := h.forward fuel a ha
    have hless := (backward_iff (accesses_answered a ha)).mpr hback
    omega
  · intro h
    refine ⟨⟨f.bytes.length + 1, fun fuel hfuel => ?_⟩, fun fuel a ha => ?_, fun fuel => ?_⟩
    · exact forward_ends (h fuel) (by omega)
    · have hiff := backward_iff (accesses_answered a ha)
      exact Nat.le_of_not_lt fun hlt => h fuel a ha (hiff.mp hlt)
    · have hcost := (costs_readSection fuel {}).2 (h fuel)
      have hzero : weight f {} = f.bytes.length := by simp [weight, calls, unread]
      have hcalls : callCount f fuel = calls ((readSection f fuel).run {}).2 := rfl
      rcases hr : (readSection f fuel).run {} with ⟨r, s'⟩
      simp only [hr] at hcost hcalls
      cases r with
      | ok out =>
          have hok : weight f s' ≤ weight f {} + 0 := hcost
          unfold weight at hok hzero
          omega
      | error e =>
          have herr : (calls s' : Int) ≤ weight f {} + 1 := hcost
          omega

/-! ## A file that is read without end

One pair, whose value is an array of two arrays. The first of the two has as many
bytes as the seek needs to come back to the outer array, which so becomes the
second of its own elements. -/

/-- A seek to `2 ^ 62` is one that `long` allows. -/
theorem seek_limit_long : 2 ^ 62 < 2 ^ 63 := by decide

def endless : Input where
  bytes := lit "GGUF" ++ leBytes 4 3 ++ leBytes 8 0 ++ leBytes 8 1 ++ leBytes 8 0 ++
    leBytes 4 GG_ARR ++ (leBytes 4 GG_ARR ++ leBytes 8 2) ++ (leBytes 4 0 ++ leBytes 8 (2 ^ 64 - 24))
  limit := 2 ^ 62
  inside := by decide
  long := seek_limit_long

theorem endless_deep : ∀ fuel steps, ∃ s',
    (skipVal endless fuel GG_ARR).run { pos := 36, steps := steps } = (.error .deep, s') := by
  intro fuel
  induction fuel with
  | zero => exact fun steps => ⟨_, rfl⟩
  | succ fuel ih =>
      intro steps
      have htype : (endless.bytes.drop 36).take 4 = leBytes 4 GG_ARR := by decide
      have hcount : (endless.bytes.drop 40).take 8 = leBytes 8 2 := by decide
      rw [skipVal_array fuel steps htype rfl hcount rfl]
      cases fuel with
      | zero => exact ⟨_, rfl⟩
      | succ fuel =>
          -- The first element leads back, and the second is the array itself.
          have hback : ∀ steps, ∃ steps', (skipVal endless (fuel + 1) GG_ARR).run
              { pos := 48, steps := steps } = (.ok (), { pos := 36, steps := steps' }) := by
            intro steps
            have htype : (endless.bytes.drop 48).take 4 = leBytes 4 0 := by decide
            have hcount : (endless.bytes.drop 52).take 8 = leBytes 8 (2 ^ 64 - 24) := by decide
            have htarget : target endless 60 ((2 ^ 64 - 24) * 1) = some 36 := by decide
            rw [skipVal_array fuel steps htype rfl hcount rfl]
            exact ⟨_, seek_some htarget⟩
          obtain ⟨steps', hfirst⟩ := hback _
          obtain ⟨s', hagain⟩ := ih steps'
          exact ⟨s', (run_ok rfl).trans ((run_ok hfirst).trans (run_error hagain))⟩

/-- No room on the stack is enough for this file. -/
theorem gguf_ends_promptly_endless :
    (∀ fuel, ggufReadMeta (some endless) fuel = none) ∧ ¬ Prompt endless := by
  have hnone : ∀ fuel, ggufReadMeta (some endless) fuel = none := by
    intro fuel
    obtain ⟨steps, hstart⟩ : ∃ steps, (readSection endless fuel).run {} =
        ((skipVal endless fuel GG_ARR >>= fun _ => pure {}) >>= readPairs endless fuel 0).run
          { pos := 36, steps := steps } := ⟨_, rfl⟩
    obtain ⟨s', hdeep⟩ := endless_deep fuel steps
    simp only [ggufReadMeta, hstart, run_error (run_error hdeep)]
  refine ⟨hnone, fun h => ?_⟩
  obtain ⟨enough, hends⟩ := h.ends
  exact hends enough (Nat.le_refl _) (hnone enough)

end GeistServe.Proofs
