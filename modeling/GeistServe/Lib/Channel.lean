import GeistServe.Lib.Lines

/-!
# Byte channels

A channel carries bytes, not pieces: a call moves as many bytes as it likes and
may be interrupted. `readExact` and `writeExact` are the loops that repeat the
calls until a piece of a given length is through. What a reader gets depends on
the bytes alone and not on how they are cut into calls (`readExact_some`,
`readExact_none`), so nothing above this file has to speak of calls again.

A sequence of items on a channel is read back by a loop over one item.
`Splits` says where such a loop stops: behind as many items as the bytes begin
with. An encoding in which no item is the start of another one leaves no choice
in that (`Splits.unique`).
-/

namespace GeistServe.Lib

/-! ## Reading -/

/-- What a call that reads meets: some bytes, of which it takes what it was
asked for and leaves the rest to the next call, or an error. No bytes are the
end, as is the end of the list. -/
inductive Arrival (ε : Type) where
  | bytes (bs : Bytes)
  | error (e : ε)
  deriving DecidableEq

variable {ε : Type} (again : ε → Bool)

/-- The bytes that a reader gets which repeats its call after some errors. -/
def stream : List (Arrival ε) → Bytes
  | [] => []
  | .bytes bs :: inp => if bs = [] then [] else bs ++ stream inp
  | .error e :: inp => if again e then stream inp else []

/-- Read `n` bytes in as many calls as it takes. -/
def readExact : Nat → List (Arrival ε) → Option (Bytes × List (Arrival ε))
  | 0, inp => some ([], inp)
  | _ + 1, [] => none
  | n + 1, .bytes bs :: inp =>
      if bs = [] then none
      else if n + 1 < bs.length then some (bs.take (n + 1), .bytes (bs.drop (n + 1)) :: inp)
      else (readExact (n + 1 - bs.length) inp).map fun r => (bs ++ r.1, r.2)
  | n + 1, .error e :: inp => if again e then readExact (n + 1) inp else none

theorem readExact_some {inp : List (Arrival ε)} : ∀ {n : Nat},
    n ≤ (stream again inp).length → ∃ rest,
      readExact again n inp = some ((stream again inp).take n, rest) ∧
        stream again rest = (stream again inp).drop n := by
  induction inp with
  | nil =>
      intro n hle
      have hn : n = 0 := by simpa [stream] using hle
      subst hn
      exact ⟨[], rfl, rfl⟩
  | cons a inp ih =>
      intro n hle
      cases n with
      | zero => exact ⟨a :: inp, by rw [readExact, List.take_zero], by rw [List.drop_zero]⟩
      | succ n =>
          cases a with
          | bytes bs =>
              rw [readExact]
              by_cases hbs : bs = []
              · rw [stream, if_pos hbs] at hle
                simp at hle
              · rw [stream, if_neg hbs, List.length_append] at hle
                rw [stream, if_neg hbs, if_neg hbs]
                by_cases hlt : n + 1 < bs.length
                · have hdrop : bs.drop (n + 1) ≠ [] := by
                    rw [Ne, List.drop_eq_nil_iff]
                    omega
                  refine ⟨.bytes (bs.drop (n + 1)) :: inp, ?_, ?_⟩
                  · rw [if_pos hlt, List.take_append_of_le_length (by omega)]
                  · rw [stream, if_neg hdrop, List.drop_append_of_le_length (by omega)]
                · obtain ⟨rest, hread, hrest⟩ := ih (n := n + 1 - bs.length) (by omega)
                  refine ⟨rest, ?_, ?_⟩
                  · rw [if_neg hlt, hread, List.take_append,
                      List.take_of_length_le (l := bs) (by omega)]
                    rfl
                  · rw [hrest, List.drop_append,
                      List.drop_of_length_le (show bs.length ≤ n + 1 by omega), List.nil_append]
          | error e =>
              rw [stream] at hle ⊢
              rw [readExact]
              by_cases he : again e = true
              · rw [if_pos he] at hle ⊢
                rw [if_pos he]
                exact ih hle
              · rw [if_neg he] at hle
                simp at hle

theorem readExact_none {inp : List (Arrival ε)} : ∀ {n : Nat},
    (stream again inp).length < n → readExact again n inp = none := by
  induction inp with
  | nil =>
      intro n hlt
      cases n with
      | zero => omega
      | succ n => rfl
  | cons a inp ih =>
      intro n hlt
      cases n with
      | zero => omega
      | succ n =>
          rw [stream.eq_def] at hlt
          rw [readExact.eq_def]
          cases a with
          | bytes bs =>
              simp only at hlt ⊢
              by_cases hbs : bs = []
              · rw [if_pos hbs]
              · rw [if_neg hbs, List.length_append] at hlt
                rw [if_neg hbs, if_neg (by omega), ih (by omega)]
                rfl
          | error e =>
              simp only at hlt ⊢
              by_cases he : again e = true
              · rw [if_pos he] at hlt ⊢
                exact ih hlt
              · rw [if_neg he]

/-! ## Writing -/

/-- What a call that writes meets: how many bytes are taken at most, or an
error. At the end of the list every call takes all. -/
inductive Departure (ε : Type) where
  | took (n : Nat)
  | error (e : ε)
  deriving DecidableEq

/-- Write the bytes in as many calls as it takes: what got out, the calls that
are left, and whether all of it got out. `stall` says that a call which takes
nothing is repeated. -/
def writeExact (stall : Bool) :
    Bytes → List (Departure ε) → Bytes × List (Departure ε) × Bool
  | [], calls => ([], calls, true)
  | b :: bs, [] => (b :: bs, [], true)
  | b :: bs, .took 0 :: calls =>
      if stall then writeExact stall (b :: bs) calls else ([], calls, false)
  | b :: bs, .took (n + 1) :: calls =>
      let r := writeExact stall ((b :: bs).drop (n + 1)) calls
      ((b :: bs).take (n + 1) ++ r.1, r.2)
  | b :: bs, .error e :: calls =>
      if again e then writeExact stall (b :: bs) calls else ([], calls, false)

/-- What got out is a start of what was given, and all of it if and only if the
writer says so. -/
theorem writeExact_out (stall : Bool) (calls : List (Departure ε)) : ∀ bs : Bytes,
    ∃ rest, bs = (writeExact again stall bs calls).1 ++ rest ∧
      ((writeExact again stall bs calls).2.2 = true ↔ rest = []) := by
  induction calls with
  | nil =>
      intro bs
      cases bs <;> exact ⟨[], by simp [writeExact], by simp [writeExact]⟩
  | cons c calls ih =>
      intro bs
      cases bs with
      | nil => exact ⟨[], by simp [writeExact], by simp [writeExact]⟩
      | cons b bs =>
          have hfail : ∃ rest, b :: bs = [] ++ rest ∧ (false = true ↔ rest = []) :=
            ⟨b :: bs, rfl, by simp⟩
          cases c with
          | took n =>
              cases n with
              | zero =>
                  rw [writeExact]
                  split
                  · exact ih (b :: bs)
                  · exact hfail
              | succ n =>
                  obtain ⟨rest, heq, hok⟩ := ih ((b :: bs).drop (n + 1))
                  refine ⟨rest, ?_, by rw [writeExact]; exact hok⟩
                  rw [writeExact]
                  simp only
                  rw [List.append_assoc, ← heq, List.take_append_drop]
          | error e =>
              rw [writeExact]
              split
              · exact ih (b :: bs)
              · exact hfail

/-- Calls that a writer gets through: each takes some bytes, or is repeated. -/
def Flows (stall : Bool) (calls : List (Departure ε)) : Prop :=
  ∀ c ∈ calls, (∃ n, c = .took n ∧ (stall = true ∨ 0 < n)) ∨ ∃ e, c = .error e ∧ again e = true

theorem writeExact_flows {stall : Bool} {calls : List (Departure ε)}
    (h : Flows again stall calls) : ∀ bs : Bytes,
      (writeExact again stall bs calls).2.2 = true ∧
        Flows again stall (writeExact again stall bs calls).2.1 := by
  induction calls with
  | nil =>
      intro bs
      cases bs <;> exact ⟨rfl, h⟩
  | cons c calls ih =>
      intro bs
      have hcalls : Flows again stall calls := fun c hc => h c (List.mem_cons_of_mem _ hc)
      cases bs with
      | nil => exact ⟨rfl, h⟩
      | cons b bs =>
          rcases h c List.mem_cons_self with ⟨n, rfl, hn⟩ | ⟨e, rfl, he⟩
          · cases n with
            | zero =>
                have hstall : stall = true := hn.resolve_right (by omega)
                rw [writeExact, if_pos hstall]
                exact ih hcalls (b :: bs)
            | succ n => exact ih hcalls ((b :: bs).drop (n + 1))
          · rw [writeExact, if_pos he]
            exact ih hcalls (b :: bs)

/-! ## Items -/

section Items

variable {α : Type} (encode : α → Bytes) (Legal : α → Prop)

/-- The bytes are these legal items and a rest that does not begin with one. -/
structure Splits (s : Bytes) (xs : List α) (rest : Bytes) : Prop where
  eq : s = xs.flatMap encode ++ rest
  legal : ∀ x ∈ xs, Legal x
  ends : ∀ x, Legal x → ¬ encode x <+: rest

/-- No legal item is the start of another one. -/
def PrefixFree : Prop := ∀ x y, Legal x → Legal y → encode x <+: encode y → x = y

variable {encode Legal}

/-- There is only one way to split bytes. -/
theorem Splits.unique (hfree : PrefixFree encode Legal) : ∀ {xs ys : List α} {s r r' : Bytes},
    Splits encode Legal s xs r → Splits encode Legal s ys r' → xs = ys ∧ r = r' := by
  intro xs
  induction xs with
  | nil =>
      intro ys s r r' h h'
      cases ys with
      | nil => exact ⟨rfl, h.eq.symm.trans h'.eq⟩
      | cons y ys =>
          refine absurd ?_ (h.ends y (h'.legal y List.mem_cons_self))
          have heq : r = s := h.eq.symm
          rw [heq, h'.eq, List.flatMap_cons, List.append_assoc]
          exact List.prefix_append ..
  | cons x xs ih =>
      intro ys s r r' h h'
      have hx := h.legal x List.mem_cons_self
      have hs : s = encode x ++ (xs.flatMap encode ++ r) := by
        rw [h.eq, List.flatMap_cons, List.append_assoc]
      cases ys with
      | nil =>
          refine absurd ?_ (h'.ends x hx)
          have heq : r' = s := h'.eq.symm
          rw [heq, hs]
          exact List.prefix_append ..
      | cons y ys =>
          have hy := h'.legal y List.mem_cons_self
          have hs' : s = encode y ++ (ys.flatMap encode ++ r') := by
            rw [h'.eq, List.flatMap_cons, List.append_assoc]
          have hxy : x = y := by
            rcases List.prefix_or_prefix_of_prefix (hs ▸ List.prefix_append ..)
              (hs' ▸ List.prefix_append ..) with hp | hp
            · exact hfree x y hx hy hp
            · exact (hfree y x hy hx hp).symm
          subst hxy
          have hrest := List.append_cancel_left (hs.symm.trans hs')
          obtain ⟨rfl, rfl⟩ := ih
            ⟨rfl, fun z hz => h.legal z (List.mem_cons_of_mem _ hz), h.ends⟩
            ⟨hrest, fun z hz => h'.legal z (List.mem_cons_of_mem _ hz), h'.ends⟩
          exact ⟨rfl, rfl⟩

/-- Whole items, and nothing behind them. -/
theorem Splits.whole (hne : ∀ x, Legal x → encode x ≠ []) {xs : List α} (h : ∀ x ∈ xs, Legal x) :
    Splits encode Legal (xs.flatMap encode) xs [] :=
  ⟨(List.append_nil _).symm, h, fun x hx hp => hne x hx (List.prefix_nil.mp hp)⟩

/-! ### A loop that reads items -/

variable {again}

/-- What the reader of one item does: it takes an item off the front, or there
is none. -/
def Reads (again : ε → Bool) (encode : α → Bytes) (Legal : α → Prop)
    (read : List (Arrival ε) → Option (α × List (Arrival ε))) : Prop :=
  ∀ inp, (∃ x rest, read inp = some (x, rest) ∧ Legal x ∧
      stream again inp = encode x ++ stream again rest) ∨
    read inp = none ∧ ∀ x, Legal x → ¬ encode x <+: stream again inp

/-- Read items until there is none. -/
def readItems (read : List (Arrival ε) → Option (α × List (Arrival ε))) :
    Nat → List (Arrival ε) → List α
  | 0, _ => []
  | fuel + 1, inp =>
      match read inp with
      | some (x, rest) => x :: readItems read fuel rest
      | none => []

/-- The loop stops where no item follows; one turn for each byte is enough. -/
theorem readItems_splits {read : List (Arrival ε) → Option (α × List (Arrival ε))}
    (hread : Reads again encode Legal read) (hne : ∀ x, Legal x → encode x ≠ []) :
    ∀ {fuel : Nat} {inp : List (Arrival ε)}, (stream again inp).length < fuel →
      ∃ rest, Splits encode Legal (stream again inp) (readItems read fuel inp) rest := by
  intro fuel
  induction fuel with
  | zero => exact fun h => absurd h (Nat.not_lt_zero _)
  | succ fuel ih =>
      intro inp hlt
      rw [readItems]
      rcases hread inp with ⟨x, inp', heq, hx, hs⟩ | ⟨heq, hno⟩
      · have hpos : 0 < (encode x).length := List.length_pos_iff.mpr (hne x hx)
        rw [hs, List.length_append] at hlt
        obtain ⟨rest, hsplit⟩ := @ih inp' (by omega)
        rw [heq]
        refine ⟨rest, ?_, fun y hy => ?_, hsplit.ends⟩
        · rw [hs, List.flatMap_cons, List.append_assoc, ← hsplit.eq]
        · rcases List.mem_cons.mp hy with rfl | hy
          · exact hx
          · exact hsplit.legal y hy
      · rw [heq]
        exact ⟨stream again inp, rfl, fun y hy => absurd hy List.not_mem_nil, hno⟩

/-! ### A loop that writes items -/

variable {σ : Type}

/-- Write items until one does not get out: what is left, and how many did. -/
def writeItems (write : σ → α → σ × Bool) : List α → σ → σ × Nat
  | [], s => (s, 0)
  | x :: xs, s =>
      match write s x with
      | (s', true) => ((writeItems write xs s').1, (writeItems write xs s').2 + 1)
      | (s', false) => (s', 0)

/-- What the writer of one item does: it gets out a start of the item, and all of
it if and only if it says so. -/
def Writes (encode : α → Bytes) (Legal : α → Prop) (out : σ → Bytes) (Good : σ → Prop)
    (write : σ → α → σ × Bool) : Prop :=
  ∀ s x, Good s → Legal x → ∃ done rest, out (write s x).1 = out s ++ done ∧
    encode x = done ++ rest ∧ ((write s x).2 = true ↔ rest = []) ∧
    ((write s x).2 = true → Good (write s x).1)

/-- Write pieces until one does not get out, and whether all did. -/
def writePieces (write : σ → Bytes → σ × Bool) : List Bytes → σ → σ × Bool
  | [], s => (s, true)
  | p :: ps, s =>
      match write s p with
      | (s', true) => writePieces write ps s'
      | (s', false) => (s', false)

/-- An item that is written in pieces. -/
theorem writePieces_out {out : σ → Bytes} {Good : σ → Prop} {write : σ → Bytes → σ × Bool}
    (hwrite : Writes id (fun _ => True) out Good write) : ∀ (ps : List Bytes) {s : σ}, Good s →
      ∃ done rest, out (writePieces write ps s).1 = out s ++ done ∧ ps.flatten = done ++ rest ∧
        ((writePieces write ps s).2 = true ↔ rest = []) ∧
        ((writePieces write ps s).2 = true → Good (writePieces write ps s).1) := by
  intro ps
  induction ps with
  | nil => exact fun hs => ⟨[], [], (List.append_nil _).symm, rfl, by simp [writePieces], fun _ => hs⟩
  | cons p ps ih =>
      intro s hs
      obtain ⟨done, rest, hout, hdone, hok, hgood⟩ := hwrite s p hs trivial
      have hdone : p = done ++ rest := hdone
      rw [writePieces, List.flatten_cons]
      generalize write s p = r at hout hok hgood
      obtain ⟨s', ok⟩ := r
      cases ok with
      | true =>
          have hrest : rest = [] := hok.mp rfl
          subst hrest
          rw [List.append_nil] at hdone
          obtain ⟨done', rest, hout', hdone', hok', hgood'⟩ := ih (hgood rfl)
          refine ⟨done ++ done', rest, ?_, ?_, hok', hgood'⟩
          · rw [← List.append_assoc, ← hout]
            exact hout'
          · rw [hdone, hdone', List.append_assoc]
      | false =>
          refine ⟨done, rest ++ ps.flatten, hout, ?_, ⟨fun h => (by cases h), fun h => ?_⟩,
            fun h => (by cases h)⟩
          · rw [hdone, List.append_assoc]
          · exact hok.mpr (List.append_eq_nil_iff.mp h).1

theorem writePieces_all {Good : σ → Prop} {write : σ → Bytes → σ × Bool}
    (h : ∀ s p, Good s → (write s p).2 = true ∧ Good (write s p).1) :
    ∀ (ps : List Bytes) {s : σ}, Good s →
      (writePieces write ps s).2 = true ∧ Good (writePieces write ps s).1 := by
  intro ps
  induction ps with
  | nil => exact fun hs => ⟨rfl, hs⟩
  | cons p ps ih =>
      intro s hs
      obtain ⟨hok, hgood⟩ := h s p hs
      rw [writePieces]
      generalize write s p = r at hok hgood
      obtain ⟨s', ok⟩ := r
      cases hok
      exact ih hgood

/-- What got out are the items that were written, and a start of the next one. -/
theorem writeItems_splits {out : σ → Bytes} {Good : σ → Prop} {Sent : α → Prop}
    {write : σ → α → σ × Bool} (hwrite : Writes encode Sent out Good write)
    (hsent : ∀ x, Sent x → Legal x) (hfree : PrefixFree encode Legal)
    (hne : ∀ x, Legal x → encode x ≠ []) : ∀ {xs : List α} {s : σ}, Good s →
      (∀ x ∈ xs, Sent x) → ∃ sent rest, out (writeItems write xs s).1 = out s ++ sent ∧
        Splits encode Legal sent (xs.take (writeItems write xs s).2) rest := by
  intro xs
  induction xs with
  | nil =>
      intro s _ _
      exact ⟨[], [], (List.append_nil _).symm, .whole hne fun x hx => absurd hx List.not_mem_nil⟩
  | cons x xs ih =>
      intro s hs hlegal
      have hx := hlegal x List.mem_cons_self
      obtain ⟨done, rest, hout, hdone, hok, hgood⟩ := hwrite s x hs hx
      rw [writeItems]
      generalize write s x = r at hout hok hgood
      obtain ⟨s', ok⟩ := r
      cases ok with
      | true =>
          have hrest : rest = [] := hok.mp rfl
          subst hrest
          rw [List.append_nil] at hdone
          obtain ⟨sent, rest, hout', hsplit⟩ :=
            ih (hgood rfl) fun y hy => hlegal y (List.mem_cons_of_mem _ hy)
          refine ⟨done ++ sent, rest, ?_, ?_, fun y hy => ?_, hsplit.ends⟩
          · rw [← List.append_assoc, ← hout]
            exact hout'
          · simp only [List.take_succ_cons, List.flatMap_cons, List.append_assoc]
            rw [hdone, ← hsplit.eq]
          · exact hsent y (hlegal y (List.mem_of_mem_take hy))
      | false =>
          refine ⟨done, done, hout, rfl, fun y hy => absurd hy List.not_mem_nil, fun y hy hp => ?_⟩
          -- A start of one item that begins with another one is all of it.
          have hyx : y = x := hfree y x hy (hsent x hx) (hdone ▸ hp.trans (List.prefix_append ..))
          have hlen := hp.length_le
          rw [hyx, hdone, List.length_append] at hlen
          have hrest : rest = [] := List.length_eq_zero_iff.mp (by omega)
          cases hok.mpr hrest

/-- If every item gets out, all of them do. -/
theorem writeItems_all {Good : σ → Prop} {write : σ → α → σ × Bool}
    (h : ∀ s x, Good s → Legal x → (write s x).2 = true ∧ Good (write s x).1) :
    ∀ {xs : List α} {s : σ}, Good s → (∀ x ∈ xs, Legal x) →
      (writeItems write xs s).2 = xs.length := by
  intro xs
  induction xs with
  | nil => exact fun _ _ => rfl
  | cons x xs ih =>
      intro s hs hlegal
      obtain ⟨hok, hgood⟩ := h s x hs (hlegal x List.mem_cons_self)
      rw [writeItems]
      generalize write s x = r at hok hgood
      obtain ⟨s', ok⟩ := r
      cases hok
      simp only
      rw [ih hgood fun y hy => hlegal y (List.mem_cons_of_mem _ hy), List.length_cons]

end Items

end GeistServe.Lib
