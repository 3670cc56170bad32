import GeistServe.Json.Tree

/-!
# The tokens of a printed tree

`jsmn_parse` on the text of a tree. From any parser that a value is welcome to,
the text of a tree adds exactly the tokens of the tree and counts one child more
at the token above it; or the array has no room for them, and then the error is
that one. A closing bracket finds its token because every token behind it is
closed and has its parent there (`Within`).
-/

namespace GeistServe.Json

open GeistServe.Lib

/-! ## Counting children -/

/-- `n` children more at the token `i`. -/
def grow (i : Option Nat) (n : Nat) (toks : List Tok) : List Tok :=
  match i with
  | none => toks
  | some i => toks.modify i fun t => { t with size := t.size + n }

theorem addSize_eq (toks : List Tok) (i : Option Nat) : addSize toks i = grow i 1 toks := by
  cases i <;> rfl

@[simp] theorem grow_length (i : Option Nat) (n : Nat) (toks : List Tok) :
    (grow i n toks).length = toks.length := by
  cases i with
  | none => rfl
  | some i => rw [grow, List.length_modify]

theorem grow_zero (i : Option Nat) (toks : List Tok) : grow i 0 toks = toks := by
  cases i with
  | none => rfl
  | some i => exact List.modify_id _ _

theorem grow_grow (i : Option Nat) (m n : Nat) (toks : List Tok) :
    grow i n (grow i m toks) = grow i (m + n) toks := by
  cases i with
  | none => rfl
  | some i =>
      rw [grow, grow, List.modify_modify_eq]
      simp only [grow, Function.comp_def, Nat.add_assoc]

theorem modify_append {i : Nat} {toks : List Tok} (f : Tok → Tok) (rest : List Tok)
    (h : i < toks.length) : (toks ++ rest).modify i f = toks.modify i f ++ rest := by
  induction toks generalizing i with
  | nil => cases h
  | cons t toks ih =>
      cases i with
      | zero => rfl
      | succ i =>
          rw [List.cons_append, List.modify_succ_cons, List.modify_succ_cons, List.cons_append,
            ih (Nat.lt_of_succ_lt_succ h)]

theorem modify_at (toks rest : List Tok) (t : Tok) (f : Tok → Tok) :
    (toks ++ t :: rest).modify toks.length f = toks ++ f t :: rest := by
  induction toks with
  | nil => rfl
  | cons u toks ih =>
      rw [List.cons_append, List.length_cons, List.modify_succ_cons, ih, List.cons_append]

theorem grow_append {i : Option Nat} {n : Nat} {toks : List Tok} (rest : List Tok)
    (h : ∀ s, i = some s → s < toks.length) :
    grow i n (toks ++ rest) = grow i n toks ++ rest := by
  cases i with
  | none => rfl
  | some i => exact modify_append _ rest (h i rfl)

/-- The token behind `toks` is counted at. -/
theorem grow_last (n : Nat) (toks : List Tok) (t : Tok) :
    grow (some toks.length) n (toks ++ [t]) = toks ++ [{ t with size := t.size + n }] :=
  modify_at toks [] t _

theorem grow_get {i : Option Nat} {n k : Nat} {toks : List Tok} {t : Tok}
    (h : toks[k]? = some t) : ∃ m, (grow i n toks)[k]? = some { t with size := m } := by
  cases i with
  | none => exact ⟨t.size, h⟩
  | some i =>
      rw [grow, List.getElem?_modify, h]
      by_cases hk : i = k
      · exact ⟨t.size + n, by simp [hk]⟩
      · exact ⟨t.size, by simp [hk]⟩

/-- The parser with the tokens `ts` more, which are `n` children of the token
above. -/
def Parser.add (p : Parser) (n : Nat) (ts : List Tok) : Parser :=
  { p with toks := grow p.toksuper n p.toks ++ ts }

/-- The token above is in the array. -/
def Parser.Based (p : Parser) : Prop := ∀ s, p.toksuper = some s → s < p.toks.length

/-- A value may come next: at the root, in an array, or under a key. -/
def Parser.Ready (p : Parser) : Prop :=
  ∀ s, p.toksuper = some s → ∃ t, p.toks[s]? = some t ∧
    (t.type = .array ∨ (t.type = .string ∧ t.size = 0))

theorem Parser.Ready.based {p : Parser} (h : p.Ready) : p.Based := by
  intro s hs
  obtain ⟨t, ht, _⟩ := h s hs
  exact (List.getElem?_eq_some_iff.mp ht).1

theorem Parser.Based.add {p : Parser} (h : p.Based) (n : Nat) (ts : List Tok) :
    (p.add n ts).Based := by
  intro s hs
  have := h s hs
  rw [Parser.add, List.length_append, grow_length]
  omega

theorem Parser.add_length (p : Parser) (n : Nat) (ts : List Tok) :
    (p.add n ts).toks.length = p.toks.length + ts.length := by
  rw [Parser.add, List.length_append, grow_length]

theorem Parser.add_add {p : Parser} (h : p.Based) (m n : Nat) (ts us : List Tok) :
    (p.add m ts).add n us = p.add (m + n) (ts ++ us) := by
  have hb : ∀ s, p.toksuper = some s → s < (grow p.toksuper m p.toks).length := by
    intro s hs
    rw [grow_length]
    exact h s hs
  simp only [Parser.add]
  rw [grow_append ts hb, grow_grow, List.append_assoc]

/-! ## Text that is taken in one go -/

theorem loop_skip {cap pos : Nat} {p : Parser} (rest : Bytes) :
    ∀ taken : Bytes, loop cap taken.length pos p (taken ++ rest) =
      loop cap 0 (pos + taken.length) p rest := by
  intro taken
  induction taken generalizing pos with
  | nil => rfl
  | cons c taken ih =>
      rw [List.length_cons, List.cons_append, loop, ih]
      congr 1
      omega

theorem Quotable.parse {raw : Bytes} (h : Quotable raw) (rest : Bytes) :
    parseString (raw ++ 34 :: rest) = .ok raw.length := by
  induction h with
  | nil =>
      rw [List.nil_append, parseString.eq_def]
      simp
  | plain hc _ ih =>
      obtain ⟨h0, h34, h92⟩ := hc
      rw [List.cons_append, parseString.eq_def]
      simp only [if_neg h0, if_neg h34, if_neg h92, ih]
      rfl
  | short he _ ih =>
      rw [List.cons_append, List.cons_append, parseString.eq_def]
      simp only [if_pos he, ih]
      rfl
  | unicode hx _ ih =>
      rw [List.cons_append, List.cons_append, parseString.eq_def]
      simp only [List.cons_append, hx, ih]
      rfl

/-- Something that ends a primitive: white space does so too. -/
def Stopped (rest : Bytes) : Prop :=
  ∃ c r, rest = c :: r ∧ (c = 9 ∨ c = 13 ∨ c = 10 ∨ c = 32 ∨ c = 44 ∨ c = 93 ∨ c = 125)

theorem Ended.stopped {rest : Bytes} (h : Ended rest) : Stopped rest := by
  obtain ⟨c, r, rfl, hc⟩ := h
  refine ⟨c, r, rfl, ?_⟩
  rcases hc with hc | hc
  · exact .inr (.inr (.inr (.inr (.inl hc))))
  · exact .inr (.inr (.inr (.inr (.inr hc))))

theorem IsPrim.parse {raw rest : Bytes} (h : ∀ c ∈ raw, inPrim c) (hrest : Stopped rest) :
    parsePrimitive (raw ++ rest) = .ok raw.length := by
  induction raw with
  | nil =>
      obtain ⟨c, r, rfl, hc⟩ := hrest
      have h0 : c ≠ 0 := by
        rintro rfl
        exact absurd hc (by decide)
      rw [List.nil_append, parsePrimitive, if_neg h0, if_pos hc]
      rfl
  | cons c raw ih =>
      obtain ⟨hlow, hhigh, h44, h93, h125⟩ := h c List.mem_cons_self
      have hne : ∀ d : UInt8, d ≤ 32 → c ≠ d := by
        intro d hd hcd
        exact absurd (hcd ▸ hlow) (Nat.not_lt.mpr hd)
      have hsep : ¬ (c = 9 ∨ c = 13 ∨ c = 10 ∨ c = 32 ∨ c = 44 ∨ c = 93 ∨ c = 125) := by
        rintro (h | h | h | h | h | h | h)
        · exact hne 9 (by decide) h
        · exact hne 13 (by decide) h
        · exact hne 10 (by decide) h
        · exact hne 32 (by decide) h
        · exact h44 h
        · exact h93 h
        · exact h125 h
      have hrange : ¬ (c < 32 ∨ 127 ≤ c) := by
        rintro (h | h)
        · exact absurd (Nat.lt_trans h hlow) (Nat.lt_irrefl _)
        · exact absurd hhigh (Nat.not_lt.mpr h)
      rw [List.cons_append, parsePrimitive, if_neg (hne 0 (by decide)), if_neg hsep, if_neg hrange,
        ih fun d hd => h d (List.mem_cons_of_mem _ hd)]
      rfl

/-! ## Brackets -/

/-- Closed tokens from number `base` on, each with its parent in front of it and
not in front of `lo`. -/
def Within (lo base : Nat) (ts : List Tok) : Prop :=
  ∀ k t, ts[k]? = some t → t.stop ≠ none ∧ ∃ j, t.parent = some j ∧ lo ≤ j ∧ j < base + k

theorem Within.nil (lo base : Nat) : Within lo base [] := by
  intro k t h
  cases h

theorem Within.append {lo base : Nat} {ts us : List Tok} (ht : Within lo base ts)
    (hu : Within lo (base + ts.length) us) : Within lo base (ts ++ us) := by
  intro k t h
  rw [List.getElem?_append] at h
  split at h
  · exact ht k t h
  · next hk =>
      obtain ⟨hstop, j, hj, hlo, hlt⟩ := hu _ t h
      exact ⟨hstop, j, hj, hlo, by omega⟩

theorem Within.cons {lo base : Nat} {t : Tok} {ts : List Tok} {j : Nat} (hstop : t.stop ≠ none)
    (hj : t.parent = some j) (hlo : lo ≤ j) (hlt : j < base) (hts : Within lo (base + 1) ts) :
    Within lo base (t :: ts) := by
  have hone : Within lo base [t] := by
    intro k u h
    cases k with
    | zero =>
        cases h
        exact ⟨hstop, j, hj, hlo, hlt⟩
    | succ k => cases h
  exact hone.append hts

theorem Within.mono {lo lo' base : Nat} {ts : List Tok} (h : Within lo base ts) (hlo : lo' ≤ lo) :
    Within lo' base ts := by
  intro k t ht
  obtain ⟨hstop, j, hj, hle, hlt⟩ := h k t ht
  exact ⟨hstop, j, hj, hlo.trans hle, hlt⟩

/-- The way to the root from a token behind an open one comes to that one. -/
theorem closed_within {type : JType} {sup : Option Nat} {front back : List Tok} {t₀ : Tok}
    (hopen : t₀.stop = none) (htype : t₀.type = type)
    (hback : Within front.length (front.length + 1) back) :
    ∀ fuel i, front.length ≤ i → i < front.length + 1 + back.length → i < front.length + fuel →
      closed type (front ++ t₀ :: back) sup fuel i = .ok (some front.length) := by
  intro fuel
  induction fuel with
  | zero =>
      intro i hlo _ hi
      omega
  | succ fuel ih =>
      intro i hlo hhi hi
      rw [closed, List.getElem?_append_right hlo]
      by_cases hi₀ : i = front.length
      · subst hi₀
        rw [Nat.sub_self]
        simp only [List.getElem?_cons_zero]
        rw [if_pos hopen, if_neg (not_not.mpr htype)]
      · obtain ⟨k, hk⟩ : ∃ k, i - front.length = k + 1 := ⟨i - front.length - 1, by omega⟩
        have hlt : k < back.length := by omega
        rw [hk, List.getElem?_cons_succ, List.getElem?_eq_getElem hlt]
        obtain ⟨hstop, j, hj, hle, hjlt⟩ := hback k back[k] (List.getElem?_eq_getElem hlt)
        simp only
        rw [if_neg hstop, hj]
        exact ih j hle (by omega) (by omega)

theorem closeBracket_within {type : JType} {pos : Nat} {p : Parser} {front back : List Tok}
    {t₀ : Tok} (htoks : p.toks = front ++ t₀ :: back) (hopen : t₀.stop = none)
    (htype : t₀.type = type) (hback : Within front.length (front.length + 1) back) :
    closeBracket type pos p =
      .ok ⟨front ++ { t₀ with stop := some (pos + 1) } :: back, t₀.parent⟩ := by
  have hlen : p.toks.length = front.length + 1 + back.length := by
    rw [htoks, List.length_append, List.length_cons]
    omega
  have hclosed : closed type p.toks p.toksuper p.toks.length (p.toks.length - 1) =
      .ok (some front.length) := by
    rw [hlen, htoks]
    exact closed_within hopen htype hback _ _ (by omega) (by omega) (by omega)
  rw [closeBracket, hclosed]
  simp only
  rw [htoks, modify_at, List.getElem?_append_right (Nat.le_refl _), Nat.sub_self]
  rfl

/-! ## One turn of the loop -/

/-- A result that takes `n` tokens in all. -/
def fits {α : Type} (cap n : Nat) (e : Except JsmnError α) : Except JsmnError α :=
  if n ≤ cap then e else .error .nomem

theorem fits_congr {α : Type} {cap n : Nat} {e e' : Except JsmnError α} (h : n ≤ cap → e = e') :
    fits cap n e = fits cap n e' := by
  unfold fits
  split
  · next hn => exact h hn
  · rfl

theorem fits_fits {α : Type} {cap m n : Nat} (e : Except JsmnError α) (h : m ≤ n) :
    fits cap m (fits cap n e) = fits cap n e := by
  unfold fits
  by_cases hm : m ≤ cap
  · rw [if_pos hm]
  · rw [if_neg hm, if_neg (by omega)]

theorem fits_pos {α : Type} {cap n : Nat} (e : Except JsmnError α) (h : n ≤ cap) :
    fits cap n e = e := if_pos h

theorem loop_step {cap pos : Nat} {p p' : Parser} {c : UInt8} {rest : Bytes} (taken : Bytes) (hc : c ≠ 0)
    (h : jsmnChar cap pos c (taken ++ rest) p = .ok (p', taken.length)) :
    loop cap 0 pos p (c :: (taken ++ rest)) = loop cap 0 (pos + 1 + taken.length) p' rest := by
  rw [loop.eq_def]
  simp only [if_neg hc, h]
  exact loop_skip rest taken

theorem loop_nomem {cap pos : Nat} {p : Parser} {c : UInt8} {rest : Bytes} (hc : c ≠ 0)
    (h : jsmnChar cap pos c rest p = .error .nomem) :
    loop cap 0 pos p (c :: rest) = .error .nomem := by
  rw [loop.eq_def]
  simp only [if_neg hc, h]

theorem addToken_eq {cap start stop : Nat} {type : JType} {p : Parser} (hp : p.Based) :
    addToken cap type start stop p = fits cap (p.toks.length + 1)
      (.ok (p.add 1 [⟨type, start, some stop, 0, p.toksuper⟩])) := by
  unfold addToken fits
  by_cases h : cap ≤ p.toks.length
  · rw [if_pos h, if_neg (by omega)]
  · rw [if_neg h, if_pos (by omega), addSize_eq, grow_append _ hp]
    rfl

theorem loop_string {cap pos : Nat} {p : Parser} {raw : Bytes} (hraw : Quotable raw)
    (hp : p.Based) (rest : Bytes) :
    loop cap 0 pos p (34 :: (raw ++ 34 :: rest)) = fits cap (p.toks.length + 1)
      (loop cap 0 (pos + raw.length + 2)
        (p.add 1 [⟨.string, pos + 1, some (pos + 1 + raw.length), 0, p.toksuper⟩]) rest) := by
  have hchar : jsmnChar cap pos 34 (raw ++ 34 :: rest) p =
      (addToken cap .string (pos + 1) (pos + 1 + raw.length) p).map (·, raw.length + 1) := by
    simp [jsmnChar, hraw.parse rest]
  rw [addToken_eq hp] at hchar
  unfold fits at hchar ⊢
  split at hchar
  · next hlen =>
      have hstep : loop cap 0 pos p (34 :: (raw ++ [34] ++ rest)) = _ :=
        loop_step _ (by decide) (by rw [List.append_assoc, List.length_append]; exact hchar)
      rw [List.append_assoc] at hstep
      rw [if_pos hlen]
      refine hstep.trans ?_
      rw [List.length_append]
      congr 1
      show pos + 1 + (raw.length + 1) = pos + raw.length + 2
      omega
  · next hlen =>
      rw [if_neg hlen]
      exact loop_nomem (by decide) hchar

theorem jsmnChar_prim {cap pos : Nat} {c : UInt8} {rest : Bytes} {p : Parser} (hc : primStart c)
    (hp : p.Ready) :
    jsmnChar cap pos c rest p =
      match parsePrimitive (c :: rest) with
      | .error e => .error e
      | .ok n => (addToken cap .primitive pos (pos + n) p).map (·, n - 1) := by
  have hne : ∀ d : UInt8, ¬ primStart d → c ≠ d := by
    intro d hd hcd
    exact hd (hcd ▸ hc)
  have hready : ((p.toksuper.bind (p.toks[·]?)).any fun t =>
      t.type == .object || (t.type == .string && t.size != 0)) = false := by
    cases hs : p.toksuper with
    | none => rfl
    | some s =>
        obtain ⟨t, ht, htype⟩ := hp s hs
        rw [Option.bind_some, ht]
        rcases htype with htype | ⟨htype, hsize⟩
        · simp [htype]
        · simp [htype, hsize]
  have hblank : ¬ (c = 9 ∨ c = 13 ∨ c = 10 ∨ c = 32) := by
    rintro (h | h | h | h)
    · exact hne 9 (by decide) h
    · exact hne 13 (by decide) h
    · exact hne 10 (by decide) h
    · exact hne 32 (by decide) h
  cases hparse : parsePrimitive (c :: rest) <;>
    simp only [jsmnChar, if_neg (hne 123 (by decide)), if_neg (hne 91 (by decide)),
      if_neg (hne 125 (by decide)), if_neg (hne 93 (by decide)), if_neg (hne 34 (by decide)),
      if_neg hblank, if_neg (hne 58 (by decide)), if_neg (hne 44 (by decide)), if_pos hc, hready,
      Bool.false_eq_true, if_false, hparse]

theorem loop_prim {cap pos : Nat} {p : Parser} {raw rest : Bytes} (hraw : IsPrim raw)
    (hp : p.Ready) (hrest : Ended rest) :
    loop cap 0 pos p (raw ++ rest) = fits cap (p.toks.length + 1)
      (loop cap 0 (pos + raw.length)
        (p.add 1 [⟨.primitive, pos, some (pos + raw.length), 0, p.toksuper⟩]) rest) := by
  obtain ⟨⟨c, hhead, hstart⟩, hall⟩ := hraw
  obtain ⟨raw, rfl⟩ : ∃ tail, raw = c :: tail := List.head?_eq_some_iff.mp hhead
  have hc : c ≠ 0 := by
    rintro rfl
    exact absurd hstart (by decide)
  have hchar : jsmnChar cap pos c (raw ++ rest) p =
      (addToken cap .primitive pos (pos + (raw.length + 1)) p).map (·, raw.length) := by
    rw [jsmnChar_prim hstart hp, ← List.cons_append, IsPrim.parse hall hrest.stopped]
    rfl
  rw [addToken_eq hp.based] at hchar
  unfold fits at hchar ⊢
  split at hchar
  · next hlen =>
      rw [if_pos hlen, List.cons_append, loop_step _ hc hchar, List.length_cons]
      congr 1
      omega
  · next hlen =>
      rw [if_neg hlen]
      exact loop_nomem hc hchar

/-- The parser behind an opening bracket. -/
def Parser.opened (p : Parser) (type : JType) (pos : Nat) : Parser where
  toks := grow p.toksuper 1 p.toks ++ [⟨type, pos, none, 0, p.toksuper⟩]
  toksuper := some p.toks.length

theorem openBracket_eq {cap pos : Nat} {type : JType} {p : Parser} (hp : p.Ready) :
    openBracket cap type pos p = fits cap (p.toks.length + 1) (.ok (p.opened type pos)) := by
  have hready : ((p.toksuper.bind (p.toks[·]?)).any (·.type == .object)) = false := by
    cases hs : p.toksuper with
    | none => rfl
    | some s =>
        obtain ⟨t, ht, htype⟩ := hp s hs
        rw [Option.bind_some, ht]
        rcases htype with htype | ⟨htype, _⟩ <;> simp [htype]
  unfold openBracket fits
  by_cases h : cap ≤ p.toks.length
  · rw [if_pos h, if_neg (by omega)]
  · rw [if_neg h, hready, if_neg Bool.false_ne_true, if_pos (by omega), addSize_eq]
    rfl

theorem loop_open {cap pos : Nat} {p : Parser} {c : UInt8} {type : JType} {rest : Bytes}
    (hc : c = 123 ∧ type = .object ∨ c = 91 ∧ type = .array) (hp : p.Ready) :
    loop cap 0 pos p (c :: rest) = fits cap (p.toks.length + 1)
      (loop cap 0 (pos + 1) (p.opened type pos) rest) := by
  have hc₀ : c ≠ 0 := by
    rcases hc with ⟨rfl, _⟩ | ⟨rfl, _⟩ <;> decide
  have hchar : jsmnChar cap pos c rest p = (openBracket cap type pos p).map (·, 0) := by
    rcases hc with ⟨rfl, rfl⟩ | ⟨rfl, rfl⟩
    · rfl
    · rfl
  rw [openBracket_eq hp] at hchar
  unfold fits at hchar ⊢
  split at hchar
  · next hlen =>
      rw [if_pos hlen]
      exact loop_step [] hc₀ hchar
  · next hlen =>
      rw [if_neg hlen]
      exact loop_nomem hc₀ hchar

theorem loop_close {cap pos : Nat} {p : Parser} {c : UInt8} {rest : Bytes} {front back : List Tok}
    (t₀ : Tok) (hc : c = 125 ∧ t₀.type = .object ∨ c = 93 ∧ t₀.type = .array)
    (htoks : p.toks = front ++ t₀ :: back) (hopen : t₀.stop = none)
    (hback : Within front.length (front.length + 1) back) :
    loop cap 0 pos p (c :: rest) = loop cap 0 (pos + 1)
      ⟨front ++ { t₀ with stop := some (pos + 1) } :: back, t₀.parent⟩ rest := by
  have hc₀ : c ≠ 0 := by
    rcases hc with ⟨rfl, _⟩ | ⟨rfl, _⟩ <;> decide
  refine loop_step [] hc₀ ?_
  have hchar : jsmnChar cap pos c rest p = (closeBracket t₀.type pos p).map (·, 0) := by
    rcases hc with ⟨rfl, ht⟩ | ⟨rfl, ht⟩
    · rw [ht]
      rfl
    · rw [ht]
      rfl
  rw [List.nil_append, hchar, closeBracket_within htoks hopen rfl hback]
  rfl

/-- The colon behind a key. -/
theorem loop_colon {cap pos : Nat} {p : Parser} {rest : Bytes} (hp : p.toks ≠ []) :
    loop cap 0 pos p (58 :: rest) =
      loop cap 0 (pos + 1) { p with toksuper := some (p.toks.length - 1) } rest := by
  refine loop_step [] (by decide) ?_
  show Except.ok ({ p with toksuper := if p.toks.length = 0 then none else some (p.toks.length - 1) },
    0) = _
  rw [if_neg (fun h => hp (List.eq_nil_of_length_eq_zero h))]
  rfl

/-- Is `s` the token above once `sep` is read? -/
def Opens (sep : Bytes) (p : Parser) (s : Nat) : Prop :=
  (sep = [] ∧ p.toksuper = some s) ∨
    (sep = [44] ∧ ∃ k t, p.toksuper = some k ∧ p.toks[k]? = some t ∧
      ((k = s ∧ t.type = .array) ∨ (t.type = .string ∧ t.parent = some s)))

theorem loop_sep {cap pos s : Nat} {p : Parser} {sep rest : Bytes} (h : Opens sep p s) :
    loop cap 0 pos p (sep ++ rest) =
      loop cap 0 (pos + sep.length) { p with toksuper := some s } rest := by
  rcases h with ⟨rfl, hs⟩ | ⟨rfl, k, t, hs, ht, h⟩
  · rw [← hs]
    rfl
  · refine loop_step _ (by decide) ?_
    have hchar : jsmnChar cap pos 44 rest p =
        if t.type ≠ .array ∧ t.type ≠ .object then .ok ({ p with toksuper := t.parent }, 0)
        else .ok (p, 0) := by
      simp [jsmnChar, hs, ht]
    rw [List.nil_append, hchar]
    rcases h with ⟨rfl, htype⟩ | ⟨htype, hparent⟩
    · rw [if_neg (by simp [htype]), ← hs]
      rfl
    · rw [if_pos (by simp [htype]), hparent]
      rfl

/-! ## The tokens of a tree -/

mutual

theorem Tree.toks_length (pos base : Nat) (parent : Option Nat) :
    ∀ v : Tree, (v.toks pos base parent).length = v.count
  | .str _ => rfl
  | .prim _ => rfl
  | .arr xs => by
      rw [Tree.toks, Tree.count, List.length_cons, itemToks_length]
      omega
  | .obj ms => by
      rw [Tree.toks, Tree.count, List.length_cons, memberToks_length]
      omega

theorem itemToks_length (pos base list : Nat) (sep : Bytes) :
    ∀ xs : List Tree, (itemToks pos base list sep xs).length = countItems xs
  | [] => rfl
  | x :: xs => by
      rw [itemToks, countItems, List.length_append, x.toks_length, itemToks_length]

theorem memberToks_length (pos base obj : Nat) (sep : Bytes) :
    ∀ ms : List (Bytes × Tree), (memberToks pos base obj sep ms).length = countMembers ms
  | [] => rfl
  | (_, v) :: ms => by
      rw [memberToks, countMembers, List.length_cons, List.length_append, v.toks_length,
        memberToks_length]
      omega

end

mutual

/-- The tokens of a value are closed, and only the first has its parent outside. -/
theorem Tree.toks_within {pos base lo j : Nat} (hlo : lo ≤ j) (hj : j < base) :
    ∀ v : Tree, Within lo base (v.toks pos base (some j))
  | .str _ => Within.cons (Option.some_ne_none _) rfl hlo hj (.nil _ _)
  | .prim _ => Within.cons (Option.some_ne_none _) rfl hlo hj (.nil _ _)
  | .arr xs => Within.cons (Option.some_ne_none _) rfl hlo hj
      ((itemToks_within (Nat.lt_succ_self base) xs).mono (by omega))
  | .obj ms => Within.cons (Option.some_ne_none _) rfl hlo hj
      ((memberToks_within (Nat.lt_succ_self base) ms).mono (by omega))

theorem itemToks_within {pos base list : Nat} {sep : Bytes} (h : list < base) :
    ∀ xs : List Tree, Within list base (itemToks pos base list sep xs)
  | [] => .nil _ _
  | x :: xs => by
      refine (x.toks_within (Nat.le_refl list) h).append ?_
      rw [x.toks_length]
      exact itemToks_within (Nat.lt_add_right _ h) xs

theorem memberToks_within {pos base obj : Nat} {sep : Bytes} (h : obj < base) :
    ∀ ms : List (Bytes × Tree), Within obj base (memberToks pos base obj sep ms)
  | [] => .nil _ _
  | (_, v) :: ms => by
      refine .cons (Option.some_ne_none _) rfl (Nat.le_refl obj) h ?_
      refine (v.toks_within (Nat.le_of_lt h) (Nat.lt_succ_self base)).append ?_
      rw [v.toks_length]
      exact memberToks_within (by omega) ms

end

/-! ## The loop over a printed tree -/

theorem ended_items {rest : Bytes} (hrest : Ended rest) (xs : List Tree) :
    Ended (printItems [44] xs ++ rest) := by
  cases xs with
  | nil => exact hrest
  | cons x xs => exact ⟨44, _, rfl, .inl rfl⟩

theorem ended_members {rest : Bytes} (hrest : Ended rest) (ms : List (Bytes × Tree)) :
    Ended (printMembers [44] ms ++ rest) := by
  cases ms with
  | nil => exact hrest
  | cons m ms => exact ⟨44, _, rfl, .inl rfl⟩

theorem Parser.opened_length (p : Parser) (type : JType) (pos : Nat) :
    (p.opened type pos).toks.length = p.toks.length + 1 := by
  rw [Parser.opened, List.length_append, grow_length, List.length_singleton]

theorem Parser.opened_grow (p : Parser) (type : JType) (pos n : Nat) :
    grow (some p.toks.length) n (p.opened type pos).toks =
      grow p.toksuper 1 p.toks ++ [⟨type, pos, none, n, p.toksuper⟩] := by
  have h := grow_last n (grow p.toksuper 1 p.toks) ⟨type, pos, none, 0, p.toksuper⟩
  rw [grow_length, Nat.zero_add] at h
  exact h

theorem loop_closing {cap pos q n : Nat} {p : Parser} {sup : Option Nat} {c : UInt8} {type : JType}
    {rest : Bytes} {ts : List Tok} (hc : c = 125 ∧ type = .object ∨ c = 93 ∧ type = .array)
    (hts : Within p.toks.length (p.toks.length + 1) ts) :
    loop cap 0 q ⟨grow (some p.toks.length) n (p.opened type pos).toks ++ ts, sup⟩ (c :: rest) =
      loop cap 0 (q + 1) (p.add 1 (⟨type, pos, some (q + 1), n, p.toksuper⟩ :: ts)) rest := by
  rw [p.opened_grow, List.append_assoc]
  refine loop_close ⟨type, pos, none, n, p.toksuper⟩ hc rfl rfl ?_
  rw [grow_length]
  exact hts

theorem Parser.opened_get (p : Parser) (type : JType) (pos : Nat) :
    ∃ t, (p.opened type pos).toks[p.toks.length]? = some t ∧ t.type = type := by
  refine ⟨⟨type, pos, none, 0, p.toksuper⟩, ?_, rfl⟩
  rw [Parser.opened, List.getElem?_append_right (Nat.le_of_eq (grow_length _ _ _)), grow_length,
    Nat.sub_self]
  rfl

/-- The parser behind a key of `n` bytes and its colon. -/
def Parser.keyed (p : Parser) (s pos n : Nat) : Parser where
  toks := grow (some s) 1 p.toks ++ [⟨.string, pos + 1, some (pos + 1 + n), 0, some s⟩]
  toksuper := some p.toks.length

theorem Parser.keyed_length (p : Parser) (s pos n : Nat) :
    (p.keyed s pos n).toks.length = p.toks.length + 1 := by
  rw [Parser.keyed, List.length_append, grow_length, List.length_singleton]

theorem Parser.keyed_get (p : Parser) (s pos n : Nat) :
    (p.keyed s pos n).toks[p.toks.length]? =
      some ⟨.string, pos + 1, some (pos + 1 + n), 0, some s⟩ := by
  rw [Parser.keyed, List.getElem?_append_right (Nat.le_of_eq (grow_length _ _ _)), grow_length,
    Nat.sub_self]
  rfl

theorem Parser.keyed_ready (p : Parser) (s pos n : Nat) : (p.keyed s pos n).Ready := by
  intro i hi
  cases hi
  exact ⟨_, p.keyed_get s pos n, .inr ⟨rfl, rfl⟩⟩

theorem Parser.keyed_add (p : Parser) (s pos n : Nat) (ts : List Tok) :
    (p.keyed s pos n).add 1 ts =
      ⟨grow (some s) 1 p.toks ++ ⟨.string, pos + 1, some (pos + 1 + n), 1, some s⟩ :: ts,
        some p.toks.length⟩ := by
  have h := grow_last 1 (grow (some s) 1 p.toks)
    ⟨.string, pos + 1, some (pos + 1 + n), 0, some s⟩
  rw [grow_length] at h
  rw [Parser.add, Parser.keyed]
  simp only [h, List.append_assoc]
  rfl

theorem loop_key {cap pos s : Nat} {p : Parser} {sep key rest : Bytes} (hsep : Opens sep p s)
    (hs : s < p.toks.length) (hkey : Quotable key) :
    loop cap 0 pos p (sep ++ (34 :: (key ++ 34 :: 58 :: rest))) = fits cap (p.toks.length + 1)
      (loop cap 0 (pos + sep.length + 1 + key.length + 2)
        (p.keyed s (pos + sep.length) key.length) rest) := by
  have hbased : ({ p with toksuper := some s } : Parser).Based := by
    intro i hi
    cases hi
    exact hs
  rw [loop_sep hsep, loop_string hkey hbased]
  refine fits_congr fun _ => ?_
  rw [loop_colon (by simp [Parser.add]), Parser.add_length, List.length_singleton, Nat.add_sub_cancel,
    show pos + sep.length + key.length + 2 + 1 = pos + sep.length + 1 + key.length + 2 by omega]
  rfl

mutual

theorem Tree.loop_print (cap pos : Nat) {p : Parser} {rest : Bytes} (hp : p.Ready) :
    ∀ v : Tree, v.Valid → (v.isPrim = true → Ended rest) →
      loop cap 0 pos p (v.print ++ rest) = fits cap (p.toks.length + v.count)
        (loop cap 0 (pos + v.print.length) (p.add 1 (v.toks pos p.toks.length p.toksuper)) rest)
  | .str raw, hv, _ => by
      have hprint : (Tree.str raw).print ++ rest = 34 :: (raw ++ 34 :: rest) := by
        rw [Tree.print, List.cons_append, List.append_assoc]
        rfl
      rw [hprint, loop_string hv hp.based, Tree.print, List.length_cons, List.length_append]
      rfl
  | .prim raw, hv, hrest => loop_prim hv hp (hrest rfl)
  | .arr xs, hv, _ => by
      have hprint : (Tree.arr xs).print ++ rest = 91 :: (printItems [] xs ++ 93 :: rest) := by
        rw [Tree.print, List.cons_append, List.append_assoc]
        rfl
      have hlen := p.opened_length .array pos
      rw [hprint, loop_open (.inr ⟨rfl, rfl⟩) hp, Tree.count, ← fits_fits _ (m := p.toks.length + 1)
        (n := p.toks.length + (1 + countItems xs)) (by omega)]
      refine fits_congr fun hfits => ?_
      rw [loop_items (p := p.opened .array pos) (.inl rfl) rfl (p.opened_get _ _) (by omega)
        ⟨93, _, rfl, .inr (.inl rfl)⟩ xs hv, hlen, Nat.add_assoc]
      refine fits_congr fun _ => ?_
      refine (loop_closing (.inr ⟨rfl, rfl⟩) (itemToks_within (Nat.lt_succ_self _) xs)).trans ?_
      rw [Tree.print, List.length_cons, List.length_append, List.length_singleton, Tree.toks]
      congr 1
      omega
  | .obj ms, hv, _ => by
      have hprint : (Tree.obj ms).print ++ rest = 123 :: (printMembers [] ms ++ 125 :: rest) := by
        rw [Tree.print, List.cons_append, List.append_assoc]
        rfl
      have hlen := p.opened_length .object pos
      rw [hprint, loop_open (.inl ⟨rfl, rfl⟩) hp, Tree.count, ← fits_fits _ (m := p.toks.length + 1)
        (n := p.toks.length + (1 + countMembers ms)) (by omega)]
      refine fits_congr fun hfits => ?_
      obtain ⟨sup, hloop⟩ := loop_members cap (pos + 1) (p := p.opened .object pos)
        (.inl ⟨rfl, rfl⟩) (by omega) (by omega) ⟨125, rest, rfl, .inr (.inr rfl)⟩ ms hv
      rw [hloop, hlen, Nat.add_assoc]
      refine fits_congr fun _ => ?_
      refine (loop_closing (.inl ⟨rfl, rfl⟩) (memberToks_within (Nat.lt_succ_self _) ms)).trans ?_
      rw [Tree.print, List.length_cons, List.length_append, List.length_singleton, Tree.toks]
      congr 1
      omega

theorem loop_items {cap pos s : Nat} {p : Parser} {sep rest : Bytes} (hsep : sep = [] ∨ sep = [44])
    (hs : p.toksuper = some s) (htype : ∃ t, p.toks[s]? = some t ∧ t.type = .array)
    (hcap : p.toks.length ≤ cap) (hrest : Ended rest) :
    ∀ xs : List Tree, ValidItems xs →
      loop cap 0 pos p (printItems sep xs ++ rest) = fits cap (p.toks.length + countItems xs)
        (loop cap 0 (pos + (printItems sep xs).length)
          (p.add xs.length (itemToks pos p.toks.length s sep xs)) rest)
  | [], _ => by
      rw [countItems, Nat.add_zero, fits_pos _ hcap, itemToks, Parser.add, List.append_nil,
        List.length_nil, grow_zero]
      rfl
  | x :: xs, hv => by
      obtain ⟨t, ht, htype⟩ := htype
      have hopens : Opens sep p s := by
        rcases hsep with rfl | rfl
        · exact .inl ⟨rfl, hs⟩
        · exact .inr ⟨rfl, s, t, hs, ht, .inl ⟨rfl, htype⟩⟩
      have hready : p.Ready := by
        intro i hi
        cases hs.symm.trans hi
        exact ⟨t, ht, .inl htype⟩
      have hself : ({ p with toksuper := some s } : Parser) = p := by rw [← hs]
      rw [printItems, List.append_assoc, List.append_assoc, loop_sep hopens, hself,
        x.loop_print cap _ hready hv.1 fun _ => ended_items hrest xs, countItems, ← Nat.add_assoc,
        ← fits_fits _ (m := p.toks.length + x.count)
          (n := p.toks.length + x.count + countItems xs) (by omega)]
      refine fits_congr fun hfits => ?_
      have hlen := p.add_length 1 (x.toks (pos + sep.length) p.toks.length p.toksuper)
      rw [x.toks_length] at hlen
      have hget : ∃ u, (p.add 1 (x.toks (pos + sep.length) p.toks.length p.toksuper)).toks[s]? =
          some u ∧ u.type = .array := by
        obtain ⟨m, hm⟩ := grow_get (i := p.toksuper) (n := 1) ht
        have hlt := (List.getElem?_eq_some_iff.mp hm).1
        exact ⟨_, (List.getElem?_append_left hlt).trans hm, htype⟩
      rw [loop_items (.inr rfl) (p := p.add 1 _) hs hget (by omega) hrest xs hv.2, hlen,
        Parser.add_add hready.based, List.length_append, List.length_append, itemToks, hs,
        List.length_cons, Nat.add_comm 1]
      simp only [Nat.add_assoc]

theorem loop_members (cap pos : Nat) {s : Nat} {p : Parser} {sep rest : Bytes} (hsep : Opens sep p s)
    (hs : s < p.toks.length) (hcap : p.toks.length ≤ cap) (hrest : Ended rest) :
    ∀ ms : List (Bytes × Tree), ValidMembers ms → ∃ sup,
      loop cap 0 pos p (printMembers sep ms ++ rest) = fits cap (p.toks.length + countMembers ms)
        (loop cap 0 (pos + (printMembers sep ms).length)
          ⟨grow (some s) ms.length p.toks ++ memberToks pos p.toks.length s sep ms, sup⟩ rest)
  | [], _ => by
      refine ⟨p.toksuper, ?_⟩
      rw [countMembers, Nat.add_zero, fits_pos _ hcap, memberToks, List.append_nil,
        List.length_nil, grow_zero]
      rfl
  | (key, v) :: ms, hv => by
      have hprint : printMembers sep ((key, v) :: ms) ++ rest =
          sep ++ (34 :: (key ++ 34 :: 58 :: (v.print ++ (printMembers [44] ms ++ rest)))) := by
        simp [printMembers]
      have hvalue := v.loop_print cap (pos + sep.length + 1 + key.length + 2)
        (p.keyed_ready s (pos + sep.length) key.length) hv.2.1 fun _ => ended_members hrest ms
      rw [p.keyed_length, show (p.keyed s (pos + sep.length) key.length).toksuper =
        some p.toks.length from rfl, p.keyed_add] at hvalue
      rw [hprint, loop_key hsep hs hv.1, hvalue, fits_fits _ (by omega), countMembers]
      obtain ⟨vt, hvt⟩ : ∃ vt, vt = v.toks (pos + sep.length + 1 + key.length + 2)
        (p.toks.length + 1) (some p.toks.length) := ⟨_, rfl⟩
      have hcount : vt.length = v.count := by rw [hvt, v.toks_length]
      rw [← hvt]
      by_cases hfit : p.toks.length + 1 + v.count ≤ cap
      · rw [fits_pos _ hfit]
        have hfront : s < (grow (some s) 1 p.toks).length := by
          rw [grow_length]
          exact hs
        obtain ⟨sup, hloop⟩ := loop_members cap
          (pos + sep.length + 1 + key.length + 2 + v.print.length) (s := s)
          (p := ⟨grow (some s) 1 p.toks ++ ⟨.string, pos + sep.length + 1,
            some (pos + sep.length + 1 + key.length), 1, some s⟩ :: vt, some p.toks.length⟩)
          (.inr ⟨rfl, p.toks.length, _, rfl, by
            rw [List.getElem?_append_right (Nat.le_of_eq (grow_length _ _ _)), grow_length,
              Nat.sub_self]
            rfl, .inr ⟨rfl, rfl⟩⟩)
          (by rw [List.length_append]; omega)
          (by rw [List.length_append, grow_length, List.length_cons]; omega) hrest ms hv.2.2
        refine ⟨sup, ?_⟩
        have hgrow : grow (some s) ms.length (grow (some s) 1 p.toks ++ ⟨.string, pos + sep.length + 1,
            some (pos + sep.length + 1 + key.length), 1, some s⟩ :: vt) =
            grow (some s) (ms.length + 1) p.toks ++ ⟨.string, pos + sep.length + 1,
              some (pos + sep.length + 1 + key.length), 1, some s⟩ :: vt := by
          rw [grow_append _ (by rintro _ ⟨⟩; exact hfront), grow_grow, Nat.add_comm]
        have hlen : p.toks.length + (vt.length + 1) = p.toks.length + 1 + v.count := by omega
        simp only [List.length_append, grow_length, List.length_cons, hlen, hgrow] at hloop
        rw [hloop, memberToks, ← hvt, List.length_cons, ← Nat.add_assoc, ← Nat.add_assoc,
          List.append_assoc, List.cons_append]
        have hpos : pos + (printMembers sep ((key, v) :: ms)).length =
            pos + sep.length + 1 + key.length + 2 + v.print.length +
              (printMembers [44] ms).length := by
          simp only [printMembers, List.length_append, List.length_cons]
          omega
        rw [hpos]
      · refine ⟨none, ?_⟩
        unfold fits
        rw [if_neg hfit, if_neg (by omega)]

end

/-! ## Whole texts -/

theorem Within.mem {lo base : Nat} {ts : List Tok} (h : Within lo base ts) {t : Tok} (ht : t ∈ ts) :
    t.stop ≠ none ∧ t.parent ≠ none := by
  obtain ⟨k, hk⟩ := List.mem_iff_getElem?.mp ht
  obtain ⟨hstop, j, hj, _⟩ := h k t hk
  exact ⟨hstop, by rw [hj]; exact Option.some_ne_none j⟩

/-- The tokens of a root: one that is closed, and those within it. -/
theorem Tree.toks_root (v : Tree) (pos base : Nat) (parent : Option Nat) :
    ∃ t ts, v.toks pos base parent = t :: ts ∧ t.stop ≠ none ∧ t.parent = parent ∧
      Within base (base + 1) ts := by
  cases v with
  | str raw => exact ⟨_, _, rfl, Option.some_ne_none _, rfl, .nil _ _⟩
  | prim raw => exact ⟨_, _, rfl, Option.some_ne_none _, rfl, .nil _ _⟩
  | arr xs =>
      exact ⟨_, _, rfl, Option.some_ne_none _, rfl, itemToks_within (Nat.lt_succ_self base) xs⟩
  | obj ms =>
      exact ⟨_, _, rfl, Option.some_ne_none _, rfl, memberToks_within (Nat.lt_succ_self base) ms⟩

theorem jsmnParse_print (cap : Nat) {v : Tree} (hv : v.Valid) (hprim : v.isPrim = false) :
    jsmnParse cap v.print = fits cap v.count (.ok (v.toks 0 0 none)) := by
  have hready : ({} : Parser).Ready := by
    intro s hs
    cases hs
  have hloop : loop cap 0 0 {} (v.print ++ []) = _ := v.loop_print cap 0 hready hv
    (by rw [hprim]; exact fun h => (Bool.false_ne_true h).elim)
  rw [List.append_nil] at hloop
  have hlen : ({} : Parser).toks.length + v.count = v.count := Nat.zero_add _
  rw [hlen] at hloop
  rw [jsmnParse, hloop]
  unfold fits
  by_cases hcap : v.count ≤ cap
  · rw [if_pos hcap, if_pos hcap]
    obtain ⟨t, ts, htoks, hstop, _, hts⟩ := v.toks_root 0 0 none
    have hall : (v.toks 0 0 none).any (·.stop == none) = false := by
      rw [htoks, List.any_eq_false]
      intro u hu
      rcases List.mem_cons.mp hu with rfl | hu
      · simpa using hstop
      · simpa using (hts.mem hu).1
    show (if (v.toks 0 0 none).any (·.stop == none) then _ else Except.ok (v.toks 0 0 none)) = _
    rw [hall, if_neg Bool.false_ne_true]
  · rw [if_neg hcap, if_neg hcap]

/-- `json_parse` on the text of an object: its tokens, if there is room for them. -/
theorem jsonParse_print {ms : List (Bytes × Tree)} (hms : ValidMembers ms) :
    jsonParse (Tree.obj ms).print =
      if (Tree.obj ms).count ≤ JSON_TOK_CAP then
        some ⟨(Tree.obj ms).print, (Tree.obj ms).toks 0 0 none⟩
      else none := by
  have hparse := jsmnParse_print JSON_TOK_CAP (v := .obj ms) hms rfl
  rw [jsonParse, hparse]
  unfold fits
  by_cases hcap : (Tree.obj ms).count ≤ JSON_TOK_CAP
  · rw [if_pos hcap, if_pos hcap, Tree.toks]
    have hall : (memberToks (0 + 1) (0 + 1) 0 [] ms).all (·.parent.isSome) = true := by
      rw [List.all_eq_true]
      intro t ht
      exact Option.isSome_iff_ne_none.mpr ((memberToks_within (Nat.lt_succ_self 0) ms).mem ht).2
    exact if_pos ⟨rfl, hall⟩
  · rw [if_neg hcap, if_neg hcap]

end GeistServe.Json
