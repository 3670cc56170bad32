import Mathlib.Data.List.Forall2
import GeistServe.Json.Spaced
import GeistServe.Proofs.Growth
import GeistServe.Proofs.Lookup

/-!
# White space changes nothing

A text with white space between its tokens and the same text without: the two
runs of the tokenizer make the same tokens, at other places. The pairs of tokens
are kept in one list, of which each run has one side; `Twins` is what holds of the
pairs at every step. The lookup helpers see types, sizes, parents and the bytes of
strings and primitives, so they answer alike on both.
-/

namespace GeistServe.Json

open GeistServe.Lib

/-! ## Pairs of tokens -/

/-- The bytes of a token of a text. -/
def cut (src : Bytes) (t : Tok) : Bytes := (src.drop t.start).take (t.stop.getD 0 - t.start)

/-- A token of each text, and both say the same. -/
structure Same (src src' : Bytes) (t t' : Tok) : Prop where
  type : t.type = t'.type
  size : t.size = t'.size
  parent : t.parent = t'.parent
  stop : t.stop = none ↔ t'.stop = none
  text : t.type = .string ∨ t.type = .primitive → cut src t = cut src' t'
  span : t'.stop.getD 0 - t'.start ≤ t.stop.getD 0 - t.start

/-- The pairs of the two runs, one at `pos` and the other at `pos'`. -/
structure Twins (src src' : Bytes) (pos pos' : Nat) (ps : List (Tok × Tok)) : Prop where
  same : ∀ x ∈ ps, Same src src' x.1 x.2
  order : ∀ x ∈ ps, ∀ y ∈ ps, ∀ e e', y.1.stop = some e → y.2.stop = some e' →
    (x.1.start < e ↔ x.2.start < e')
  starts : ∀ x ∈ ps, x.1.start ≤ pos ∧ x.2.start ≤ pos'
  stops : ∀ x ∈ ps, (∀ e, x.1.stop = some e → e ≤ pos) ∧ ∀ e, x.2.stop = some e → e ≤ pos'
  lag : ∀ x ∈ ps, pos' + x.1.start ≤ pos + x.2.start

section

variable {src src' : Bytes} {pos pos' q q' : Nat} {ps qs : List (Tok × Tok)}

theorem Twins.nil : Twins src src' pos pos' [] where
  same _ h := nomatch h
  order _ h := nomatch h
  starts _ h := nomatch h
  stops _ h := nomatch h
  lag _ h := nomatch h

/-- Pairs that stand for older ones: some may have been closed at `q` and `q'`. -/
theorem Twins.shadow (h : Twins src src' pos pos' ps) (hq : pos ≤ q) (hq' : pos' ≤ q')
    (hlag : q' + pos ≤ q + pos')
    (hshadow : ∀ x ∈ qs, Same src src' x.1 x.2 ∧ ∃ y ∈ ps, x.1.start = y.1.start ∧
      x.2.start = y.2.start ∧ (x.1.stop = y.1.stop ∧ x.2.stop = y.2.stop ∨
        pos < q ∧ pos' < q' ∧ x.1.stop = some q ∧ x.2.stop = some q')) :
    Twins src src' q q' qs where
  same x hx := (hshadow x hx).1
  order x hx y hy e e' he he' := by
    obtain ⟨_, x₀, hx₀, hxs, hxs', _⟩ := hshadow x hx
    obtain ⟨_, y₀, hy₀, _, _, hstops⟩ := hshadow y hy
    rw [hxs, hxs']
    rcases hstops with ⟨hs, hs'⟩ | ⟨hlt, hlt', hs, hs'⟩
    · exact h.order x₀ hx₀ y₀ hy₀ e e' (hs ▸ he) (hs' ▸ he')
    · obtain ⟨h₁, h₂⟩ := h.starts x₀ hx₀
      cases hs.symm.trans he
      cases hs'.symm.trans he'
      omega
  starts x hx := by
    obtain ⟨_, y, hy, hs, hs', _⟩ := hshadow x hx
    obtain ⟨h₁, h₂⟩ := h.starts y hy
    omega
  stops x hx := by
    obtain ⟨_, y, hy, _, _, hstops⟩ := hshadow x hx
    obtain ⟨h₁, h₂⟩ := h.stops y hy
    rcases hstops with ⟨hs, hs'⟩ | ⟨_, _, hs, hs'⟩
    · exact ⟨fun e he => (h₁ e (hs ▸ he)).trans hq, fun e he => (h₂ e (hs' ▸ he)).trans hq'⟩
    · exact ⟨fun e he => by cases hs.symm.trans he; exact Nat.le_refl _,
        fun e he => by cases hs'.symm.trans he; exact Nat.le_refl _⟩
  lag x hx := by
    obtain ⟨_, y, hy, hs, hs', _⟩ := hshadow x hx
    have hle := h.lag y hy
    omega

theorem Twins.mono (h : Twins src src' pos pos' ps) (hq : pos ≤ q) (hq' : pos' ≤ q')
    (hlag : q' + pos ≤ q + pos') : Twins src src' q q' ps :=
  h.shadow hq hq' hlag fun x hx => ⟨h.same x hx, x, hx, rfl, rfl, .inl ⟨rfl, rfl⟩⟩

/-- A pair more: tokens that start where the runs are, `d` bytes on. -/
theorem Twins.append {d : Nat} {t t' : Tok} (h : Twins src src' pos pos' ps)
    (hsame : Same src src' t t') (hs : t.start = pos + d) (hs' : t'.start = pos' + d)
    (hq : pos + d ≤ q) (hq' : pos' + d ≤ q') (hlag : q' + pos ≤ q + pos')
    (hstop : ∀ e, t.stop = some e → pos < e ∧ e ≤ q)
    (hstop' : ∀ e, t'.stop = some e → pos' < e ∧ e ≤ q')
    (hself : ∀ e e', t.stop = some e → t'.stop = some e' → (t.start < e ↔ t'.start < e')) :
    Twins src src' q q' (ps ++ [(t, t')]) := by
  have hmem : ∀ x ∈ ps ++ [(t, t')], x ∈ ps ∨ x = (t, t') := by
    intro x hx
    rcases List.mem_append.mp hx with hx | hx
    · exact .inl hx
    · exact .inr (List.mem_singleton.mp hx)
  constructor
  · intro x hx
    rcases hmem x hx with hx | rfl
    · exact h.same x hx
    · exact hsame
  · intro x hx y hy e e' he he'
    rcases hmem x hx with hx | rfl
    · rcases hmem y hy with hy | rfl
      · exact h.order x hx y hy e e' he he'
      · obtain ⟨h₁, h₂⟩ := h.starts x hx
        have h₃ := hstop e he
        have h₄ := hstop' e' he'
        omega
    · rcases hmem y hy with hy | rfl
      · have h₁ := (h.stops y hy).1 e he
        have h₂ := (h.stops y hy).2 e' he'
        show t.start < e ↔ t'.start < e'
        omega
      · exact hself e e' he he'
  · intro x hx
    rcases hmem x hx with hx | rfl
    · obtain ⟨h₁, h₂⟩ := h.starts x hx
      omega
    · show t.start ≤ q ∧ t'.start ≤ q'
      omega
  · intro x hx
    rcases hmem x hx with hx | rfl
    · obtain ⟨h₁, h₂⟩ := h.stops x hx
      exact ⟨fun e he => by have := h₁ e he; omega, fun e he => by have := h₂ e he; omega⟩
    · exact ⟨fun e he => (hstop e he).2, fun e he => (hstop' e he).2⟩
  · intro x hx
    rcases hmem x hx with hx | rfl
    · have hle := h.lag x hx
      omega
    · show q' + t.start ≤ q + t'.start
      omega

end

/-! ## Changing both sides -/

theorem mem_modify {α : Type} {f : α → α} {k : Nat} {l : List α} {x : α}
    (h : x ∈ l.modify k f) : x ∈ l ∨ ∃ y, l[k]? = some y ∧ x = f y := by
  obtain ⟨i, hi⟩ := List.mem_iff_getElem?.mp h
  rw [List.getElem?_modify] at hi
  cases hl : l[i]? with
  | none =>
      rw [hl] at hi
      cases hi
  | some y =>
      rw [hl] at hi
      have hx : (if k = i then f y else y) = x := Option.some.inj hi
      by_cases hk : k = i
      · subst hk
        rw [if_pos rfl] at hx
        exact .inr ⟨y, hl, hx.symm⟩
      · rw [if_neg hk] at hx
        exact .inl (hx ▸ List.mem_of_getElem? hl)

def sized (t : Tok) : Tok := { t with size := t.size + 1 }

/-- A bracket that closes at `pos`. -/
def shut (pos : Nat) (t : Tok) : Tok := { t with stop := some (pos + 1) }

/-- `addSize`, on both sides. -/
def addSizes (ps : List (Tok × Tok)) (i : Option Nat) : List (Tok × Tok) :=
  match i with
  | none => ps
  | some i => ps.modify i fun x => (sized x.1, sized x.2)

theorem addSizes_left (ps : List (Tok × Tok)) (i : Option Nat) :
    (addSizes ps i).map Prod.fst = addSize (ps.map Prod.fst) i := by
  cases i with
  | none => rfl
  | some i => exact map_modify Prod.fst (fun _ => rfl) i ps

theorem addSizes_right (ps : List (Tok × Tok)) (i : Option Nat) :
    (addSizes ps i).map Prod.snd = addSize (ps.map Prod.snd) i := by
  cases i with
  | none => rfl
  | some i => exact map_modify Prod.snd (fun _ => rfl) i ps

theorem Twins.sizes {src src' : Bytes} {pos pos' : Nat} {ps : List (Tok × Tok)}
    (h : Twins src src' pos pos' ps) (i : Option Nat) :
    Twins src src' pos pos' (addSizes ps i) := by
  refine h.shadow (Nat.le_refl _) (Nat.le_refl _) (by omega) fun x hx => ?_
  cases i with
  | none => exact ⟨h.same x hx, x, hx, rfl, rfl, .inl ⟨rfl, rfl⟩⟩
  | some i =>
      rcases mem_modify hx with hx | ⟨y, hy, rfl⟩
      · exact ⟨h.same x hx, x, hx, rfl, rfl, .inl ⟨rfl, rfl⟩⟩
      · have hmem := List.mem_of_getElem? hy
        have hsame := h.same y hmem
        exact ⟨⟨hsame.type, congrArg (· + 1) hsame.size, hsame.parent, hsame.stop, hsame.text,
          hsame.span⟩, y, hmem, rfl, rfl, .inl ⟨rfl, rfl⟩⟩

/-! ## Brackets -/

/-- The parser of one side. -/
def left (ps : List (Tok × Tok)) (sup : Option Nat) : Parser := ⟨ps.map Prod.fst, sup⟩

def right (ps : List (Tok × Tok)) (sup : Option Nat) : Parser := ⟨ps.map Prod.snd, sup⟩

section

variable {src src' : Bytes} {pos pos' q q' : Nat} {ps : List (Tok × Tok)} {sup : Option Nat}

/-- Where the right side gets on, the left side does so too, and both are twins
again. -/
def Follows (src src' : Bytes) (q q' : Nat) (r r' : Except JsmnError Parser) : Prop :=
  ∀ p', r' = .ok p' → ∃ ps sup, r = .ok (left ps sup) ∧ p' = right ps sup ∧
    Twins src src' q q' ps

theorem left_of {ts : List Tok} (h : ps.map Prod.fst = ts) : (⟨ts, sup⟩ : Parser) = left ps sup := by
  rw [left, h]

theorem right_of {ts : List Tok} (h : ps.map Prod.snd = ts) :
    (⟨ts, sup⟩ : Parser) = right ps sup := by
  rw [right, h]

theorem left_get (i : Nat) : (left ps sup).toks[i]? = ps[i]?.map Prod.fst :=
  List.getElem?_map

theorem right_get (i : Nat) : (right ps sup).toks[i]? = ps[i]?.map Prod.snd :=
  List.getElem?_map

theorem left_length : (left ps sup).toks.length = ps.length := List.length_map _

theorem right_length : (right ps sup).toks.length = ps.length := List.length_map _

/-- The token above is there on both sides, or on none. -/
theorem above_cases (ps : List (Tok × Tok)) (sup i : Option Nat) :
    i.bind ((left ps sup).toks[·]?) = none ∧ i.bind ((right ps sup).toks[·]?) = none ∨
      ∃ x ∈ ps, i.bind ((left ps sup).toks[·]?) = some x.1 ∧
        i.bind ((right ps sup).toks[·]?) = some x.2 := by
  cases i with
  | none => exact .inl ⟨rfl, rfl⟩
  | some i =>
      rw [Option.bind_some, Option.bind_some, left_get, right_get]
      cases hx : ps[i]? with
      | none => exact .inl ⟨rfl, rfl⟩
      | some x => exact .inr ⟨x, List.mem_of_getElem? hx, rfl, rfl⟩

theorem Twins.above_any (h : Twins src src' pos pos' ps) {f : Tok → Bool}
    (hf : ∀ t t', Same src src' t t' → f t = f t') (sup i : Option Nat) :
    (i.bind ((left ps sup).toks[·]?)).any f = (i.bind ((right ps sup).toks[·]?)).any f := by
  rcases above_cases ps sup i with ⟨hl, hr⟩ | ⟨x, hx, hl, hr⟩
  · rw [hl, hr]
  · rw [hl, hr]
    exact hf _ _ (h.same x hx)

/-- One pair more under the token above. -/
theorem Twins.child {d : Nat} {t t' : Tok} (h : Twins src src' pos pos' ps)
    (hsame : Same src src' t t') (hs : t.start = pos + d) (hs' : t'.start = pos' + d)
    (hq : pos + d ≤ q) (hq' : pos' + d ≤ q') (hlag : q' + pos ≤ q + pos')
    (hstop : ∀ e, t.stop = some e → pos < e ∧ e ≤ q)
    (hstop' : ∀ e, t'.stop = some e → pos' < e ∧ e ≤ q')
    (hself : ∀ e e', t.stop = some e → t'.stop = some e' → (t.start < e ↔ t'.start < e'))
    (i : Option Nat) : Twins src src' q q' (addSizes (ps ++ [(t, t')]) i) :=
  (h.append hsame hs hs' hq hq' hlag hstop hstop' hself).sizes i

theorem Twins.open (h : Twins src src' pos pos' ps) (cap : Nat) {type : JType}
    (htype : type = .object ∨ type = .array) :
    Follows src src' (pos + 1) (pos' + 1) (openBracket cap type pos (left ps sup))
      (openBracket cap type pos' (right ps sup)) := by
  intro p' hp'
  unfold openBracket at hp' ⊢
  have habove := h.above_any (f := (·.type == .object))
    (fun t t' hsame => by rw [hsame.type]) sup sup
  rw [right_length, show (right ps sup).toksuper = sup from rfl] at hp'
  rw [left_length, show (left ps sup).toksuper = sup from rfl, habove]
  split at hp'
  · cases hp'
  · next hcap =>
      rw [if_neg hcap]
      split at hp'
      · cases hp'
      · next hobj =>
          rw [if_neg hobj]
          injection hp' with hp'
          subst hp'
          refine ⟨addSizes ps sup ++ [(⟨type, pos, none, 0, sup⟩, ⟨type, pos', none, 0, sup⟩)],
            some ps.length, ?_, ?_, ?_⟩
          · exact congrArg Except.ok (left_of (by rw [List.map_append, addSizes_left]; rfl))
          · exact right_of (by rw [List.map_append, addSizes_right]; rfl)
          · refine (h.sizes sup).append (d := 0) ⟨rfl, rfl, rfl, Iff.rfl, ?_, ?_⟩ rfl rfl
              (by omega) (by omega) (by omega) ?_ ?_ ?_
            · rintro (h | h)
              · rcases htype with ht | ht <;> cases ht.symm.trans h
              · rcases htype with ht | ht <;> cases ht.symm.trans h
            · show 0 - pos' ≤ 0 - pos
              omega
            · intro e he
              cases he
            · intro e he
              cases he
            · intro e e' he
              cases he

theorem Twins.closed (h : Twins src src' pos pos' ps) (type : JType) (fuel i : Nat) :
    closed type (ps.map Prod.fst) sup fuel i = closed type (ps.map Prod.snd) sup fuel i := by
  induction fuel generalizing i with
  | zero => rfl
  | succ fuel ih =>
      rw [Json.closed, Json.closed, List.getElem?_map, List.getElem?_map]
      cases hx : ps[i]? with
      | none => rfl
      | some x =>
          obtain ⟨htype, _, hparent, hstop, _, _⟩ := h.same x (List.mem_of_getElem? hx)
          simp only [Option.map_some, htype, hparent, hstop, ih]

theorem Twins.close (h : Twins src src' pos pos' ps) {type : JType}
    (htype : type = .object ∨ type = .array) :
    Follows src src' (pos + 1) (pos' + 1) (closeBracket type pos (left ps sup))
      (closeBracket type pos' (right ps sup)) := by
  intro p' hp'
  unfold closeBracket at hp' ⊢
  rw [right_length, show (right ps sup).toks = ps.map Prod.snd from rfl,
    show (right ps sup).toksuper = sup from rfl, ← h.closed] at hp'
  rw [left_length, show (left ps sup).toks = ps.map Prod.fst from rfl,
    show (left ps sup).toksuper = sup from rfl]
  split at hp'
  · cases hp'
  · next hclosed =>
      injection hp' with hp'
      subst hp'
      exact ⟨ps, sup, rfl, rfl, h.mono (by omega) (by omega) (by omega)⟩
  · next i hclosed =>
      injection hp' with hp'
      subst hp'
      refine ⟨ps.modify i fun x => (shut pos x.1, shut pos' x.2), ps[i]?.bind (·.1.parent),
        ?_, ?_, ?_⟩
      · have hparent : (ps.map Prod.fst)[i]?.bind (·.parent) = ps[i]?.bind (·.1.parent) := by
          rw [List.getElem?_map, Option.bind_map]
          rfl
        rw [hparent]
        exact congrArg Except.ok (left_of (map_modify Prod.fst (fun _ => rfl) i ps))
      · have hparent : ps[i]?.bind (·.1.parent) = (ps.map Prod.snd)[i]?.bind (·.parent) := by
          rw [List.getElem?_map]
          cases hx : ps[i]? with
          | none => rfl
          | some x => exact (h.same x (List.mem_of_getElem? hx)).parent
        rw [hparent]
        exact right_of (map_modify Prod.snd (fun _ => rfl) i ps)
      · obtain ⟨t, ht, _, htype'⟩ := closed_open hclosed
        refine h.shadow (Nat.le_succ _) (Nat.le_succ _) (by omega) fun x hx => ?_
        rcases mem_modify hx with hx | ⟨y, hy, rfl⟩
        · exact ⟨h.same x hx, x, hx, rfl, rfl, .inl ⟨rfl, rfl⟩⟩
        · have hmem := List.mem_of_getElem? hy
          have hsame := h.same y hmem
          have hlag := h.lag y hmem
          have hy' : y.1.type = type := by
            rw [List.getElem?_map, hy] at ht
            injection ht with ht
            rw [ht]
            exact htype'
          refine ⟨⟨hsame.type, hsame.size, hsame.parent, ⟨fun h => (by cases h), fun h => (by cases h)⟩,
            ?_, ?_⟩, y, hmem, rfl, rfl, .inr ⟨Nat.lt_succ_self _, Nat.lt_succ_self _, rfl, rfl⟩⟩
          · rintro (h | h)
            · rcases htype with ht | ht <;> cases (ht.symm.trans hy'.symm).trans h
            · rcases htype with ht | ht <;> cases (ht.symm.trans hy'.symm).trans h
          · show pos' + 1 - y.2.start ≤ pos + 1 - y.1.start
            omega

/-- A string or a primitive that both sides read: the same `n` bytes. -/
theorem Twins.add (h : Twins src src' pos pos' ps) (cap : Nat) {type : JType} {d n : Nat}
    (htext : (src.drop (pos + d)).take n = (src'.drop (pos' + d)).take n) (hdn : 0 < d + n) :
    Follows src src' (pos + d + n) (pos' + d + n)
      (addToken cap type (pos + d) (pos + d + n) (left ps sup))
      (addToken cap type (pos' + d) (pos' + d + n) (right ps sup)) := by
  intro p' hp'
  unfold addToken at hp' ⊢
  rw [right_length] at hp'
  rw [left_length]
  split at hp'
  · cases hp'
  · next hcap =>
      rw [if_neg hcap]
      injection hp' with hp'
      subst hp'
      refine ⟨addSizes (ps ++ [(⟨type, pos + d, some (pos + d + n), 0, sup⟩,
        ⟨type, pos' + d, some (pos' + d + n), 0, sup⟩)]) sup, sup, ?_, ?_, ?_⟩
      · exact congrArg Except.ok (left_of (by rw [addSizes_left, List.map_append]; rfl))
      · exact right_of (by rw [addSizes_right, List.map_append]; rfl)
      · refine h.child (d := d) ?_ ?_ ?_ ?_ ?_ ?_ ?_ ?_ ?_ sup
        · refine ⟨rfl, rfl, rfl, ⟨fun h => (by cases h), fun h => (by cases h)⟩, fun _ => ?_, ?_⟩
          · simp only [cut, Option.getD_some, Nat.add_sub_cancel_left]
            exact htext
          · simp only [Option.getD_some, Nat.add_sub_cancel_left]
            exact Nat.le_refl n
        · rfl
        · rfl
        · omega
        · omega
        · omega
        · intro e he
          cases he
          omega
        · intro e he
          cases he
          omega
        · intro e e' he he'
          cases he
          cases he'
          show pos + d < pos + d + n ↔ pos' + d < pos' + d + n
          omega

theorem Follows.bind {r r' : Nat} {e e' : Except JsmnError Parser}
    {k k' : Parser → Except JsmnError Parser} (h : Follows src src' q q' e e')
    (hk : ∀ ps sup, Twins src src' q q' ps →
      Follows src src' r r' (k (left ps sup)) (k' (right ps sup))) :
    Follows src src' r r' (e.bind k) (e'.bind k') := by
  intro p' hp'
  cases he : e' with
  | error err =>
      rw [he] at hp'
      cases hp'
  | ok q =>
      rw [he] at hp'
      obtain ⟨ps, sup, rfl, rfl, htwins⟩ := h q he
      exact hk ps sup htwins p' hp'

/-! ## One turn of the loop -/

/-- What a mark does: it takes no byte behind it. -/
def markStep (cap pos : Nat) (c : UInt8) (p : Parser) : Except JsmnError Parser :=
  if c = 123 then openBracket cap .object pos p
  else if c = 91 then openBracket cap .array pos p
  else if c = 125 then closeBracket .object pos p
  else if c = 93 then closeBracket .array pos p
  else if c = 58 then
    .ok { p with toksuper := if p.toks.length = 0 then none else some (p.toks.length - 1) }
  else match p.toksuper.bind (p.toks[·]?) with
    | none => .ok p
    | some t =>
        if t.type ≠ .array ∧ t.type ≠ .object then .ok { p with toksuper := t.parent } else .ok p

theorem jsmnChar_mark (cap pos : Nat) {c : UInt8} (hc : isMark c) (rest : Bytes) (p : Parser) :
    jsmnChar cap pos c rest p = (markStep cap pos c p).map (·, 0) := by
  rcases hc with rfl | rfl | rfl | rfl | rfl | rfl
  · rfl
  · rfl
  · rfl
  · rfl
  · rfl
  · show (match p.toksuper.bind (p.toks[·]?) with
      | none => Except.ok (p, 0)
      | some t =>
          if t.type ≠ .array ∧ t.type ≠ .object then .ok ({ p with toksuper := t.parent }, 0)
          else .ok (p, 0)) = Except.map (·, 0) (match p.toksuper.bind (p.toks[·]?) with
      | none => .ok p
      | some t =>
          if t.type ≠ .array ∧ t.type ≠ .object then .ok { p with toksuper := t.parent }
          else .ok p)
    split
    · rfl
    · split <;> rfl

theorem Twins.mark (h : Twins src src' pos pos' ps) (cap : Nat) {c : UInt8} (hc : isMark c) :
    Follows src src' (pos + 1) (pos' + 1) (markStep cap pos c (left ps sup))
      (markStep cap pos' c (right ps sup)) := by
  have hmono : ∀ sup', Follows src src' (pos + 1) (pos' + 1) (.ok (left ps sup'))
      (.ok (right ps sup')) := by
    intro sup' p' hp'
    injection hp' with hp'
    exact ⟨ps, sup', rfl, hp'.symm, h.mono (by omega) (by omega) (by omega)⟩
  rcases hc with rfl | rfl | rfl | rfl | rfl | rfl
  · exact h.open cap (.inl rfl)
  · exact h.close (.inl rfl)
  · exact h.open cap (.inr rfl)
  · exact h.close (.inr rfl)
  · have hcolon := hmono (if ps.length = 0 then none else some (ps.length - 1))
    rw [← left_length] at hcolon
    intro p' hp'
    refine hcolon p' ?_
    rw [left_length, ← right_length]
    exact hp'
  · show Follows src src' (pos + 1) (pos' + 1)
      (match sup.bind ((left ps sup).toks[·]?) with
        | none => .ok (left ps sup)
        | some t => if t.type ≠ .array ∧ t.type ≠ .object then .ok (left ps t.parent)
            else .ok (left ps sup))
      (match sup.bind ((right ps sup).toks[·]?) with
        | none => .ok (right ps sup)
        | some t => if t.type ≠ .array ∧ t.type ≠ .object then .ok (right ps t.parent)
            else .ok (right ps sup))
    rcases above_cases ps sup sup with ⟨hl, hr⟩ | ⟨x, hx, hl, hr⟩
    · rw [hl, hr]
      exact hmono sup
    · obtain ⟨htype, _, hparent, _⟩ := h.same x hx
      rw [hl, hr]
      simp only [htype, hparent]
      split
      · exact hmono _
      · exact hmono _

theorem jsmnChar_string (cap pos : Nat) {raw : Bytes} (hraw : Quotable raw) (rest : Bytes)
    (p : Parser) :
    jsmnChar cap pos 34 (raw ++ 34 :: rest) p =
      (addToken cap .string (pos + 1) (pos + 1 + raw.length) p).map (·, raw.length + 1) := by
  simp [jsmnChar, hraw.parse rest]

/-- What a primitive does that has `n` bytes. -/
def primStep (cap pos n : Nat) (p : Parser) : Except JsmnError Parser :=
  if (p.toksuper.bind (p.toks[·]?)).any fun t =>
      t.type == .object || (t.type == .string && t.size != 0) then .error .inval
  else addToken cap .primitive pos (pos + n) p

theorem jsmnChar_primitive (cap pos : Nat) {c : UInt8} {raw rest : Bytes}
    (hraw : IsPrim (c :: raw)) (hrest : Stopped rest) (p : Parser) :
    jsmnChar cap pos c (raw ++ rest) p =
      (primStep cap pos (raw.length + 1) p).map (·, raw.length) := by
  obtain ⟨⟨d, hhead, hstart⟩, hall⟩ := hraw
  injection hhead with hhead
  subst hhead
  have hne : ∀ d : UInt8, ¬ primStart d → c ≠ d := by
    intro d hd hcd
    exact hd (hcd ▸ hstart)
  have hspace : ¬ (c = 9 ∨ c = 13 ∨ c = 10 ∨ c = 32) := by
    rintro (h | h | h | h)
    · exact hne 9 (by decide) h
    · exact hne 13 (by decide) h
    · exact hne 10 (by decide) h
    · exact hne 32 (by decide) h
  have hparse := IsPrim.parse hall hrest
  rw [List.cons_append, List.length_cons] at hparse
  rw [jsmnChar, if_neg (hne 123 (by decide)), if_neg (hne 91 (by decide)),
    if_neg (hne 125 (by decide)), if_neg (hne 93 (by decide)), if_neg (hne 34 (by decide)),
    if_neg hspace, if_neg (hne 58 (by decide)), if_neg (hne 44 (by decide)), if_pos hstart,
    primStep, hparse]
  split
  · rfl
  · rfl

theorem Twins.prim (h : Twins src src' pos pos' ps) (cap : Nat) {n : Nat}
    (htext : (src.drop pos).take n = (src'.drop pos').take n) (hn : 0 < n) :
    Follows src src' (pos + n) (pos' + n) (primStep cap pos n (left ps sup))
      (primStep cap pos' n (right ps sup)) := by
  intro p' hp'
  unfold primStep at hp' ⊢
  have habove := h.above_any
    (f := fun t => t.type == .object || (t.type == .string && t.size != 0))
    (fun t t' hsame => by rw [hsame.type, hsame.size]) sup sup
  rw [show (right ps sup).toksuper = sup from rfl] at hp'
  rw [show (left ps sup).toksuper = sup from rfl, habove]
  split at hp'
  · cases hp'
  · next hno =>
      rw [if_neg hno]
      exact h.add cap (d := 0) htext (by omega) p' hp'

/-! ## The loop -/

theorem loop_bind {cap : Nat} {c : UInt8} {rest : Bytes} {p : Parser}
    {e : Except JsmnError Parser} (taken : Bytes) (hc : c ≠ 0)
    (h : jsmnChar cap pos c (taken ++ rest) p = e.map (·, taken.length)) :
    loop cap 0 pos p (c :: (taken ++ rest)) =
      e.bind fun p' => loop cap 0 (pos + 1 + taken.length) p' rest := by
  cases e with
  | error err =>
      rw [loop.eq_def]
      simp only [if_neg hc, h]
      rfl
  | ok p' => exact loop_step taken hc h

theorem loop_space {cap : Nat} {c : UInt8} (hc : isBlank c) (rest : Bytes) (p : Parser) :
    loop cap 0 pos p (c :: rest) = loop cap 0 (pos + 1) p rest := by
  have hc₀ : c ≠ 0 := by
    rintro rfl
    exact absurd hc (by decide)
  refine loop_step [] hc₀ ?_
  rcases hc with rfl | rfl | rfl | rfl <;> rfl

theorem Spaced.stopped {s s' : Bytes} (h : Spaced s s') (hend : Ended s') : Stopped s := by
  obtain ⟨c, r, hs', hc⟩ := hend
  cases h with
  | nil => cases hs'
  | space hspace _ => exact ⟨_, _, rfl, by rcases hspace with h | h | h | h <;> simp [h]⟩
  | mark _ _ =>
      injection hs' with hs'
      subst hs'
      exact ⟨_, _, rfl, by rcases hc with h | h | h <;> simp [h]⟩
  | str _ _ =>
      injection hs' with hs'
      subst hs'
      exact absurd hc (by decide)
  | prim hraw _ _ =>
      obtain ⟨⟨d, hhead, hstart⟩, _⟩ := hraw
      obtain ⟨tail, rfl⟩ := List.head?_eq_some_iff.mp hhead
      injection hs' with hs'
      subst hs'
      rcases hc with rfl | rfl | rfl <;> exact absurd hstart (by decide)

theorem drop_add {s back : Bytes} (front : Bytes) (h : s.drop pos = front ++ back) :
    s.drop (pos + front.length) = back := by
  rw [← List.drop_drop, h, List.drop_left]

/-- The two runs make the same tokens. -/
theorem loop_spaced {cap : Nat} {s s' : Bytes} (h : Spaced s s') :
    ∀ {pos pos' : Nat} {ps : List (Tok × Tok)} {sup : Option Nat}, src.drop pos = s →
      src'.drop pos' = s' → Twins src src' pos pos' ps →
      Follows src src' (pos + s.length) (pos' + s'.length) (loop cap 0 pos (left ps sup) s)
        (loop cap 0 pos' (right ps sup) s') := by
  induction h with
  | nil =>
      intro pos pos' ps sup _ _ htwins p' hp'
      injection hp' with hp'
      exact ⟨ps, sup, rfl, hp'.symm, htwins⟩
  | @space c s s' hc _ ih =>
      intro pos pos' ps sup hs hs' htwins
      rw [loop_space hc, List.length_cons, show pos + (s.length + 1) = pos + 1 + s.length by omega]
      exact ih (drop_add [c] hs) hs' (htwins.mono (by omega) (by omega) (by omega))
  | @mark c s s' hc _ ih =>
      intro pos pos' ps sup hs hs' htwins
      have hc₀ : c ≠ 0 := by
        rintro rfl
        exact absurd hc (by decide)
      have hl := loop_bind [] hc₀ (jsmnChar_mark cap pos hc s
        (left ps sup))
      have hr := loop_bind [] hc₀ (jsmnChar_mark cap pos' hc s'
        (right ps sup))
      rw [List.nil_append] at hl hr
      rw [hl, hr, List.length_cons, List.length_cons,
        show pos + (s.length + 1) = pos + 1 + s.length by omega,
        show pos' + (s'.length + 1) = pos' + 1 + s'.length by omega]
      exact (htwins.mark cap hc).bind fun ps sup htwins =>
        ih (drop_add [c] hs) (drop_add [c] hs') htwins
  | @str raw s s' hraw _ ih =>
      intro pos pos' ps sup hs hs' htwins
      have hquote : (34 : UInt8) ≠ 0 := by decide
      have hback : ∀ back : Bytes, raw ++ 34 :: back = (raw ++ [34]) ++ back := fun back => by
        rw [List.append_assoc]
        rfl
      have htaken : (raw ++ [(34 : UInt8)]).length = raw.length + 1 := List.length_append
      have hl := loop_bind (raw ++ [34]) hquote (by
        rw [← hback, htaken]
        exact jsmnChar_string cap pos hraw s (left ps sup))
      have hr := loop_bind (raw ++ [34]) hquote (by
        rw [← hback, htaken]
        exact jsmnChar_string cap pos' hraw s' (right ps sup))
      rw [← hback, htaken] at hl hr
      have htext : (src.drop (pos + 1)).take raw.length = (src'.drop (pos' + 1)).take raw.length := by
        have hl : src.drop (pos + 1) = raw ++ 34 :: s := drop_add [34] hs
        have hr : src'.drop (pos' + 1) = raw ++ 34 :: s' := drop_add [34] hs'
        rw [hl, hr, List.take_left, List.take_left]
      have hlen : ∀ back : Bytes, (34 :: (raw ++ 34 :: back) : Bytes).length =
          1 + (raw.length + 1) + back.length := fun back => by
        simp only [List.length_cons, List.length_append]
        omega
      rw [hl, hr, hlen, hlen, ← Nat.add_assoc, ← Nat.add_assoc pos', ← Nat.add_assoc pos,
        ← Nat.add_assoc pos']
      refine (htwins.add cap (d := 1) htext (by omega)).bind fun ps sup htwins => ?_
      refine ih ?_ ?_ (htwins.mono (by omega) (by omega) (by omega))
      · rw [hback] at hs
        have hdrop := drop_add (34 :: (raw ++ [34])) hs
        rwa [List.length_cons, htaken, Nat.add_comm (raw.length + 1) 1, ← Nat.add_assoc] at hdrop
      · rw [hback] at hs'
        have hdrop := drop_add (34 :: (raw ++ [34])) hs'
        rwa [List.length_cons, htaken, Nat.add_comm (raw.length + 1) 1, ← Nat.add_assoc] at hdrop
  | @prim raw s s' hraw hend hrest ih =>
      intro pos pos' ps sup hs hs' htwins
      obtain ⟨c, tail, rfl⟩ : ∃ c tail, raw = c :: tail := by
        obtain ⟨⟨c, hhead, _⟩, _⟩ := hraw
        obtain ⟨tail, htail⟩ := List.head?_eq_some_iff.mp hhead
        exact ⟨c, tail, htail⟩
      have hc₀ : c ≠ 0 := by
        rintro rfl
        exact absurd (hraw.2 0 List.mem_cons_self) (by decide)
      have hl := loop_bind _ hc₀ (jsmnChar_primitive cap pos hraw
        (hrest.stopped hend) (left ps sup))
      have hr := loop_bind _ hc₀ (jsmnChar_primitive cap pos' hraw hend.stopped
        (right ps sup))
      have htext : (src.drop pos).take (tail.length + 1) =
          (src'.drop pos').take (tail.length + 1) := by
        rw [hs, hs', ← List.length_cons (a := c), List.take_left, List.take_left]
      rw [List.cons_append, List.cons_append, hl, hr]
      have hlen : ∀ back : Bytes, (c :: (tail ++ back) : Bytes).length =
          tail.length + 1 + back.length := fun back => by
        simp only [List.length_cons, List.length_append]
        omega
      rw [hlen, hlen, ← Nat.add_assoc pos, ← Nat.add_assoc pos',
        show pos + 1 + tail.length = pos + (tail.length + 1) by omega,
        show pos' + 1 + tail.length = pos' + (tail.length + 1) by omega]
      refine (htwins.prim cap htext (by omega)).bind fun ps sup htwins => ?_
      exact ih (drop_add _ hs) (drop_add _ hs') htwins

end

/-! ## Whole texts -/

/-- Two documents whose tokens say the same. -/
def Twin (j j' : Doc) : Prop :=
  ∃ ps pos pos', j.tok = ps.map Prod.fst ∧ j'.tok = ps.map Prod.snd ∧
    Twins j.src j'.src pos pos' ps

theorem jsonParse_of_loop {src : Bytes} {p : Parser} {t : Tok} {rest : List Tok}
    (hloop : loop JSON_TOK_CAP 0 0 {} src = .ok p) (htoks : p.toks = t :: rest)
    (htype : t.type = .object) (hstop : ∀ u ∈ p.toks, u.stop ≠ none)
    (hparent : ∀ u ∈ rest, u.parent ≠ none) : jsonParse src = some ⟨src, p.toks⟩ := by
  have hclosed : p.toks.any (·.stop == none) = false := by
    rw [List.any_eq_false]
    intro u hu
    simpa using hstop u hu
  have hall : rest.all (·.parent.isSome) = true := by
    rw [List.all_eq_true]
    exact fun u hu => Option.isSome_iff_ne_none.mpr (hparent u hu)
  have hparse : jsmnParse JSON_TOK_CAP src = .ok (t :: rest) := by
    rw [jsmnParse, hloop, ← htoks]
    show (if p.toks.any (·.stop == none) then _ else _) = _
    rw [hclosed]
    rfl
  rw [jsonParse, hparse, htoks]
  exact if_pos ⟨htype, hall⟩

/-- A text is accepted when it is without its white space. -/
theorem jsonParse_spaced {src src' : Bytes} {j' : Doc} (h : Spaced src src')
    (hj' : jsonParse src' = some j') : ∃ j, jsonParse src = some j ∧ j.src = src ∧ Twin j j' := by
  obtain ⟨hsrc, p', t', rest', hloop', htok, htoks, htype, hstop, hparent⟩ := jsonParse_ok hj'
  have hfollows : Follows src src' (0 + src.length) (0 + src'.length)
      (loop JSON_TOK_CAP 0 0 (left [] none) src) (loop JSON_TOK_CAP 0 0 (right [] none) src') :=
    loop_spaced h List.drop_zero List.drop_zero .nil
  obtain ⟨ps, sup, hloop, rfl, htwins⟩ := hfollows p' hloop'
  cases ps with
  | nil => cases htoks
  | cons x xs =>
      injection htoks with hx hrest
      have hall := htwins.same
      refine ⟨⟨src, (left (x :: xs) sup).toks⟩, ?_, rfl, x :: xs, _, _, rfl, htok, hsrc ▸ htwins⟩
      refine jsonParse_of_loop hloop rfl ?_ ?_ ?_
      · rw [(hall x List.mem_cons_self).type, hx]
        exact htype
      · intro u hu
        obtain ⟨y, hy, rfl⟩ := List.mem_map.mp hu
        rw [Ne, (hall y hy).stop]
        exact hstop _ (List.mem_map_of_mem hy)
      · intro u hu
        obtain ⟨y, hy, rfl⟩ := List.mem_map.mp hu
        rw [(hall y (List.mem_cons_of_mem x hy)).parent]
        exact hparent _ (hrest ▸ List.mem_map_of_mem hy)

section

variable {j j' : Doc}

theorem Twin.length (h : Twin j j') : j.tok.length = j'.tok.length := by
  obtain ⟨ps, _, _, hl, hr, _⟩ := h
  rw [hl, hr, List.length_map, List.length_map]

theorem Twin.tok (h : Twin j j') {i : Nat} {t' : Tok} (ht' : j'.tok[i]? = some t') :
    ∃ t, j.tok[i]? = some t ∧ Same j.src j'.src t t' := by
  obtain ⟨ps, _, _, hl, hr, htwins⟩ := h
  rw [hr, List.getElem?_map] at ht'
  cases hx : ps[i]? with
  | none =>
      rw [hx] at ht'
      cases ht'
  | some x =>
      rw [hx] at ht'
      injection ht' with ht'
      subst ht'
      exact ⟨x.1, by rw [hl, List.getElem?_map, hx]; rfl, htwins.same x (List.mem_of_getElem? hx)⟩

theorem Twin.none (h : Twin j j') {i : Nat} (ht' : j'.tok[i]? = none) : j.tok[i]? = none := by
  rw [List.getElem?_eq_none_iff] at ht' ⊢
  exact h.length ▸ ht'

theorem Twin.find (h : Twin j j') (obj : Nat) (key : Bytes) (i n : Nat) :
    j.find obj key i (j.tok.drop n) = j'.find obj key i (j'.tok.drop n) := by
  have hlen := h.length
  obtain ⟨ps, pos, pos', hl, hr, htwins⟩ := h
  rw [hl, hr, ← List.map_drop, ← List.map_drop]
  have hsame : ∀ x ∈ ps.drop n, Same j.src j'.src x.1 x.2 :=
    fun x hx => htwins.same x (List.mem_of_mem_drop hx)
  generalize ps.drop n = xs at hsame
  induction xs generalizing i with
  | nil => rfl
  | cons x xs ih =>
      obtain ⟨htype, _, hparent, _, htext, _⟩ := hsame x List.mem_cons_self
      rw [List.map_cons, List.map_cons, Doc.find, Doc.find,
        ih (i + 1) fun y hy => hsame y (List.mem_cons_of_mem x hy), hlen, hparent, htype]
      by_cases hstr : x.2.type = .string
      · have heq : j.text x.1 = j'.text x.2 := htext (.inl (htype.trans hstr))
        rw [heq]
      · rw [if_neg fun hc => hstr hc.2.1, if_neg fun hc => hstr hc.2.1]

theorem Twin.get (h : Twin j j') (obj : Nat) (key : Bytes) : j.get obj key = j'.get obj key := by
  have hroot : (j.tok[obj]?).any (·.type == .object) = (j'.tok[obj]?).any (·.type == .object) := by
    cases ht' : j'.tok[obj]? with
    | none => rw [h.none ht']
    | some t' =>
        obtain ⟨t, ht, hsame⟩ := h.tok ht'
        rw [ht, Option.any_some, Option.any_some, hsame.type]
  rw [Doc.get, Doc.get, hroot, h.find]

theorem Twin.items (h : Twin j j') (list : Nat) : j.items list = j'.items list := by
  obtain ⟨ps, pos, pos', hl, hr, htwins⟩ := h
  rw [Doc.items, Doc.items, hl, hr, ← List.map_drop, ← List.map_drop]
  have hsame : ∀ x ∈ ps.drop (list + 1), Same j.src j'.src x.1 x.2 :=
    fun x hx => htwins.same x (List.mem_of_mem_drop hx)
  generalize ps.drop (list + 1) = xs at hsame
  generalize list + 1 = i
  induction xs generalizing i with
  | nil => rfl
  | cons x xs ih =>
      rw [List.map_cons, List.map_cons, children, children,
        ih (i := i + 1) fun y hy => hsame y (List.mem_cons_of_mem x hy),
        (hsame x List.mem_cons_self).parent]

theorem Twin.strdup (h : Twin j j') (t : Option Nat) : j.strdup t = j'.strdup t := by
  cases t with
  | none => rfl
  | some i =>
      rw [Doc.strdup, Doc.strdup, Doc.str?, Doc.str?, Option.bind_some, Option.bind_some]
      cases ht' : j'.tok[i]? with
      | none => rw [h.none ht']; rfl
      | some t' =>
          obtain ⟨t, ht, hsame⟩ := h.tok ht'
          rw [ht, Option.filter_some, Option.filter_some, hsame.type]
          by_cases hstr : t'.type = .string
          · have heq : j.text t = j'.text t' := hsame.text (.inl (hsame.type.trans hstr))
            rw [hstr]
            show some ((unescape (j.text t)).takeWhile _) = some ((unescape (j'.text t')).takeWhile _)
            rw [heq]
          · rw [if_neg (by simpa using hstr), if_neg (by simpa using hstr)]
            rfl

end

/-! ## Reading a text with white space -/

/-- Token `i` is the first of a text of `v`. -/
def Shows (j : Doc) (i : Nat) (v : Tree) : Prop := ∃ j', Twin j j' ∧ Node j' i v

/-- What a lookup finds is a text of the tree under the key. -/
def Shown (j : Doc) (v : Option Tree) (r : Option Nat) : Prop :=
  (v = none ∧ r = none) ∨ ∃ w k, v = some w ∧ r = some k ∧ Shows j k w

/-- A text of an object is accepted when there is room for its tokens. -/
theorem ObjectText.parse {src : Bytes} {ms : List (Bytes × Tree)} (h : ObjectText src ms)
    (hcap : (Tree.obj ms).count ≤ JSON_TOK_CAP) :
    ∃ j, jsonParse src = some j ∧ j.src = src ∧ Shows j 0 (.obj ms) := by
  have hparse := (jsonParse_print h.1).trans (if_pos hcap)
  obtain ⟨j, hj, hsrc, htwin⟩ := jsonParse_spaced h.2 hparse
  exact ⟨j, hj, hsrc, _, htwin, Node.root h.1 hparse⟩

theorem Shows.found {j : Doc} {i : Nat} {v : Tree} (h : Shows j i v) (key : Bytes) :
    Shown j (v.get key) (j.get i key) := by
  obtain ⟨j', htwin, hnode⟩ := h
  rw [htwin.get]
  rcases hnode.found key with hnone | ⟨w, k, hv, hr, hw⟩
  · exact .inl hnone
  · exact .inr ⟨w, k, hv, hr, j', htwin, hw⟩

theorem Shows.items {j : Doc} {i : Nat} {xs : List Tree} (h : Shows j i (.arr xs)) :
    List.Forall₂ (Shows j) (j.items i) xs := by
  obtain ⟨j', htwin, hnode⟩ := h
  rw [htwin.items]
  exact hnode.items.imp fun _ _ hw => ⟨j', htwin, hw⟩

theorem Shows.strdup {j : Doc} {i : Nat} {v : Tree} (h : Shows j i v) :
    j.strdup (some i) = v.str? := by
  obtain ⟨j', htwin, hnode⟩ := h
  rw [htwin.strdup, hnode.strdup]

theorem Shows.tok {j : Doc} {i : Nat} {v : Tree} (h : Shows j i v) :
    ∃ t, j.tok[i]? = some t ∧ t.type = v.type ∧ t.size = v.size := by
  obtain ⟨j', htwin, hnode⟩ := h
  obtain ⟨t', ht', htype, hsize⟩ := hnode.tok
  obtain ⟨t, ht, hsame⟩ := htwin.tok ht'
  exact ⟨t, ht, hsame.type.trans htype, hsame.size.trans hsize⟩

/-- The bytes of a string or a primitive, as they stand in the text. -/
def Tree.raw? : Tree → Option Bytes
  | .str raw => some raw
  | .prim raw => some raw
  | _ => none

theorem Node.raw {j : Doc} {i : Nat} {v : Tree} {raw : Bytes} (h : Node j i v)
    (hraw : v.raw? = some raw) : ∃ t, j.tok[i]? = some t ∧ j.text t = raw := by
  cases v with
  | str s =>
      injection hraw with hraw
      subst hraw
      obtain ⟨pos, parent, back, behind, hsrc, htok, _⟩ := h
      have hget : j.tok[i]? = ((Tree.str s).toks pos i parent ++ behind)[0]? := by
        rw [← htok, List.getElem?_drop, Nat.add_zero]
      refine ⟨_, hget.trans rfl, ?_⟩
      rw [Doc.text, ← List.drop_drop, hsrc, Tree.print]
      simp
  | prim s =>
      injection hraw with hraw
      subst hraw
      exact h.prim
  | arr | obj => cases hraw

theorem Shows.raw {j : Doc} {i : Nat} {v : Tree} {raw : Bytes} (h : Shows j i v)
    (hraw : v.raw? = some raw) : ∃ t, j.tok[i]? = some t ∧ t.type = v.type ∧ j.text t = raw := by
  obtain ⟨j', htwin, hnode⟩ := h
  obtain ⟨t', ht', htype, _⟩ := hnode.tok
  obtain ⟨u, hu, htext⟩ := hnode.raw hraw
  cases ht'.symm.trans hu
  obtain ⟨t, ht, hsame⟩ := htwin.tok ht'
  refine ⟨t, ht, hsame.type.trans htype, (hsame.text ?_).trans htext⟩
  rw [hsame.type, htype]
  cases v with
  | str => exact .inl rfl
  | prim => exact .inr rfl
  | arr | obj => cases hraw

end GeistServe.Json
