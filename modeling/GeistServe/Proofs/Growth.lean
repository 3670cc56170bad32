import GeistServe.Json.Writer

/-!
# What the tokenizer keeps

`jsmn_parse` on any text, not only on one that was printed from a tree. A token
that is in the array keeps its type, its start and its parent, and its end once
it has one (`Later`); the array only grows. One turn of the loop keeps this, and
so does every run of it. Beside it, what a string of the text is: up to its quote
an escaped string in the sense of `Quotable`, and no shorter than what it stands
for.
-/

namespace GeistServe.Json

open GeistServe.Lib

/-! ## Strings -/

theorem map_ok {e : Except JsmnError Nat} {k n : Nat} (h : e.map (· + k) = .ok n) :
    ∃ m, e = .ok m ∧ m + k = n := by
  cases e with
  | error e => cases h
  | ok m =>
      injection h with h
      exact ⟨m, rfl, h⟩

/-- The end of a string is the first quote behind an escaped string. -/
theorem parseString_sound {s : Bytes} : ∀ {n : Nat}, parseString s = .ok n →
    ∃ raw rest, Quotable raw ∧ s = raw ++ 34 :: rest ∧ raw.length = n := by
  induction s using parseString.induct with
  | case1 | case4 =>
      intro n h
      cases h
  | case2 rest =>
      intro n h
      rw [parseString.eq_def] at h
      cases h
  | case3 rest _ =>
      intro n h
      rw [parseString.eq_def] at h
      injection h with h
      exact ⟨[], rest, .nil, rfl, h⟩
  | case5 e rest he _ _ ih =>
      intro n h
      rw [parseString.eq_def] at h
      simp only [if_pos he] at h
      obtain ⟨m, hm, rfl⟩ := map_ok h
      obtain ⟨raw, back, hraw, rfl, rfl⟩ := ih hm
      exact ⟨92 :: e :: raw, back, .short he hraw, rfl, rfl⟩
  | case6 a b c d rest hx _ _ _ ih =>
      intro n h
      rw [parseString.eq_def] at h
      simp only [hx] at h
      obtain ⟨m, hm, rfl⟩ := map_ok h
      obtain ⟨raw, back, hraw, rfl, rfl⟩ := ih hm
      exact ⟨92 :: 117 :: a :: b :: c :: d :: raw, back, .unicode hx hraw, rfl, rfl⟩
  | case7 a b c d rest hx _ _ _ =>
      intro n h
      rw [parseString.eq_def] at h
      simp only [hx] at h
      cases h
  | case8 rest hshort h0 h34 hu =>
      intro n h
      rw [parseString.eq_def] at h
      simp only [if_neg h0, if_neg h34, if_neg hu, if_true] at h
      cases h
  | case9 e rest he hu _ _ =>
      intro n h
      rw [parseString.eq_def] at h
      simp only [if_neg he, if_neg hu] at h
      cases h
  | case10 c rest h0 h34 h92 ih =>
      intro n h
      rw [parseString.eq_def] at h
      simp only [if_neg h0, if_neg h34, if_neg h92] at h
      obtain ⟨m, hm, rfl⟩ := map_ok h
      obtain ⟨raw, back, hraw, rfl, rfl⟩ := ih hm
      exact ⟨c :: raw, back, .plain ⟨h0, h34, h92⟩ hraw, rfl, rfl⟩

theorem utf8_length_le (cp : Nat) : (utf8 cp).length ≤ 4 := by
  unfold utf8
  split
  · exact Nat.le_add_left 1 3
  · split
    · exact Nat.le_add_left 2 2
    · split
      · exact Nat.le_succ 3
      · exact Nat.le_refl 4

/-- What a string stands for is no longer than the string. -/
theorem unescape_length_le (s : Bytes) : (unescape s).length ≤ s.length := by
  induction hn : s.length using Nat.strong_induction_on generalizing s with
  | h n ih =>
      subst hn
      have hshorter : ∀ t : Bytes, t.length < s.length → (unescape t).length ≤ t.length :=
        fun t ht => ih t.length ht t rfl
      cases s with
      | nil => rw [unescape]
      | cons c rest =>
          by_cases hc : c = 92
          case neg =>
            rw [unescape_plain hc]
            exact Nat.succ_le_succ (hshorter rest (Nat.lt_succ_self _))
          subst hc
          cases rest with
          | nil =>
              rw [unescape.eq_def]
              exact Nat.le_refl 1
          | cons e rest =>
              have hrest := hshorter rest (by simp only [List.length_cons]; omega)
              by_cases he : e = 117
              case neg =>
                rw [unescape_short he]
                simp only [List.length_cons]
                omega
              subst he
              by_cases hfour : ∃ h₁ h₂ h₃ h₄ back, rest = h₁ :: h₂ :: h₃ :: h₄ :: back
              case neg =>
                rw [unescape_cut fun h₁ h₂ h₃ h₄ back h => hfour ⟨h₁, h₂, h₃, h₄, back, h⟩]
                simp only [List.length_cons]
                omega
              obtain ⟨h₁, h₂, h₃, h₄, back, rfl⟩ := hfour
              have hback := hshorter back (by simp only [List.length_cons]; omega)
              have hutf8 := utf8_length_le (hexNum [h₁, h₂, h₃, h₄])
              by_cases hcp : 0xD800 ≤ hexNum [h₁, h₂, h₃, h₄] ∧ hexNum [h₁, h₂, h₃, h₄] ≤ 0xDBFF
              case neg =>
                rw [unescape_unicode hcp, List.length_append]
                simp only [List.length_cons]
                omega
              by_cases hpair : ∃ l₁ l₂ l₃ l₄ tail, back = 92 :: 117 :: l₁ :: l₂ :: l₃ :: l₄ :: tail
              case neg =>
                rw [unescape_high hcp fun l₁ l₂ l₃ l₄ tail h => hpair ⟨l₁, l₂, l₃, l₄, tail, h⟩,
                  List.length_append]
                simp only [List.length_cons]
                omega
              obtain ⟨l₁, l₂, l₃, l₄, tail, rfl⟩ := hpair
              rw [unescape.eq_def]
              simp only [ne_eq, not_true_eq_false, if_false, if_pos hcp]
              split
              · have htail := hshorter tail (by simp only [List.length_cons]; omega)
                have htwo := utf8_length_le
                  (pair (hexNum [h₁, h₂, h₃, h₄]) (hexNum [l₁, l₂, l₃, l₄]))
                rw [List.length_append]
                simp only [List.length_cons]
                omega
              · rw [List.length_append]
                simp only [List.length_cons] at hback ⊢
                omega

theorem unescape_unicode_lt {h₁ h₂ h₃ h₄ : UInt8} {rest : Bytes} :
    (unescape (92 :: 117 :: h₁ :: h₂ :: h₃ :: h₄ :: rest)).length < rest.length + 6 := by
  have hone := utf8_length_le (hexNum [h₁, h₂, h₃, h₄])
  have hle := unescape_length_le rest
  rw [unescape.eq_def]
  simp only [ne_eq, not_true_eq_false, if_false]
  split
  · split
    · next l₁ l₂ l₃ l₄ rest' =>
        have htwo := utf8_length_le (pair (hexNum [h₁, h₂, h₃, h₄]) (hexNum [l₁, l₂, l₃, l₄]))
        have hle' := unescape_length_le rest'
        split
        · simp only [List.length_append, List.length_cons]
          omega
        · rw [List.length_append]
          omega
    · rw [List.length_append]
      omega
  · rw [List.length_append]
    omega

/-- An escape makes the string longer than what it stands for. -/
theorem Quotable.shorter {raw : Bytes} (h : Quotable raw) (hesc : (92 : UInt8) ∈ raw) :
    (unescape raw).length < raw.length := by
  induction h with
  | nil => cases hesc
  | plain hc _ ih =>
      rcases List.mem_cons.mp hesc with heq | hesc
      · exact absurd heq.symm hc.2.2
      · rw [unescape_plain hc.2.2]
        exact Nat.succ_lt_succ (ih hesc)
  | @short e rest he hrest _ =>
      have hu : e ≠ 117 := by
        rintro rfl
        exact absurd he (by decide)
      have hle := unescape_length_le rest
      rw [unescape_short hu]
      simp only [List.length_cons]
      omega
  | unicode _ _ _ => exact unescape_unicode_lt

/-! ## Tokens -/

theorem map_modify {α β : Type} (g : α → β) {f : α → α} {f' : β → β}
    (hf : ∀ a, g (f a) = f' (g a)) (k : Nat) (l : List α) :
    (l.modify k f).map g = (l.map g).modify k f' := by
  induction l generalizing k with
  | nil => rw [List.modify_nil, List.map_nil, List.modify_nil]
  | cons a l ih =>
      cases k with
      | zero =>
          show g (f a) :: l.map g = f' (g a) :: l.map g
          rw [hf]
      | succ k =>
          rw [List.modify_succ_cons, List.map_cons, ih, List.map_cons, List.modify_succ_cons]

/-- A token later in a run. -/
structure Later (t t' : Tok) : Prop where
  type : t'.type = t.type
  start : t'.start = t.start
  parent : t'.parent = t.parent
  stop : t.stop ≠ none → t'.stop = t.stop

theorem Later.refl (t : Tok) : Later t t := ⟨rfl, rfl, rfl, fun _ => rfl⟩

theorem Later.trans {t u v : Tok} (h : Later t u) (h' : Later u v) : Later t v where
  type := h'.type.trans h.type
  start := h'.start.trans h.start
  parent := h'.parent.trans h.parent
  stop hstop := (h'.stop (h.stop hstop ▸ hstop)).trans (h.stop hstop)

/-- An array later in a run. -/
def Extends (ts ts' : List Tok) : Prop :=
  ∀ (i : Nat) (t : Tok), ts[i]? = some t → ∃ t', ts'[i]? = some t' ∧ Later t t'

theorem Extends.refl (ts : List Tok) : Extends ts ts := fun _ t h => ⟨t, h, .refl t⟩

theorem Extends.trans {ts us vs : List Tok} (h : Extends ts us) (h' : Extends us vs) :
    Extends ts vs := by
  intro i t ht
  obtain ⟨u, hu, htu⟩ := h i t ht
  obtain ⟨v, hv, huv⟩ := h' i u hu
  exact ⟨v, hv, htu.trans huv⟩

theorem Extends.append (ts us : List Tok) : Extends ts (ts ++ us) := fun _ t h =>
  ⟨t, (List.getElem?_append_left (List.getElem?_eq_some_iff.mp h).1).trans h, .refl t⟩

/-- A change of one token that leaves what is kept. -/
theorem Extends.modify {ts : List Tok} {k : Nat} {f : Tok → Tok}
    (hf : ∀ t, ts[k]? = some t → Later t (f t)) : Extends ts (ts.modify k f) := by
  intro i t ht
  rw [List.getElem?_modify, ht]
  by_cases hk : k = i
  · subst hk
    exact ⟨f t, by simp, hf t ht⟩
  · exact ⟨t, by simp [hk], .refl t⟩

theorem Extends.addSize (ts : List Tok) (i : Option Nat) : Extends ts (addSize ts i) := by
  cases i with
  | none => exact .refl ts
  | some i => exact .modify fun t _ => ⟨rfl, rfl, rfl, fun _ => rfl⟩

/-- A closing bracket closes an open token of its type. -/
theorem closed_open {type : JType} {toks : List Tok} {sup : Option Nat} :
    ∀ {fuel i k : Nat}, closed type toks sup fuel i = .ok (some k) →
      ∃ t, toks[k]? = some t ∧ t.stop = none ∧ t.type = type := by
  intro fuel
  induction fuel with
  | zero =>
      intro i k h
      cases h
  | succ fuel ih =>
      intro i k h
      rw [closed] at h
      split at h
      · cases h
      · next t ht =>
          split at h
          · next hopen =>
              split at h
              · cases h
              · next htype =>
                  injection h with h
                  injection h with h
                  subst h
                  exact ⟨t, ht, hopen, not_not.mp htype⟩
          · split at h
            · split at h <;> cases h
            · exact ih h

/-! ## What a step does -/

theorem openBracket_ok {cap pos : Nat} {type : JType} {p p' : Parser}
    (h : openBracket cap type pos p = .ok p') : p.toks.length < cap ∧
      p' = ⟨addSize p.toks p.toksuper ++ [⟨type, pos, none, 0, p.toksuper⟩],
        some p.toks.length⟩ := by
  unfold openBracket at h
  split at h
  · cases h
  · next hcap =>
      split at h
      · cases h
      · injection h with h
        exact ⟨Nat.not_le.mp hcap, h.symm⟩

/-- A closing bracket closes an open token of its type, or does nothing. -/
theorem closeBracket_ok {pos : Nat} {type : JType} {p p' : Parser}
    (h : closeBracket type pos p = .ok p') : p' = p ∨
      ∃ i t, closed type p.toks p.toksuper p.toks.length (p.toks.length - 1) = .ok (some i) ∧
        p.toks[i]? = some t ∧ t.stop = none ∧ t.type = type ∧
        p' = ⟨p.toks.modify i fun t => { t with stop := some (pos + 1) }, t.parent⟩ := by
  unfold closeBracket at h
  split at h
  · cases h
  · injection h with h
    exact .inl h.symm
  · next i hclosed =>
      injection h with h
      obtain ⟨t, ht, hopen, htype⟩ := closed_open hclosed
      rw [ht] at h
      exact .inr ⟨i, t, hclosed, ht, hopen, htype, h.symm⟩

theorem addToken_ok {cap start stop : Nat} {type : JType} {p p' : Parser}
    (h : addToken cap type start stop p = .ok p') :
    p' = ⟨addSize (p.toks ++ [⟨type, start, some stop, 0, p.toksuper⟩]) p.toksuper,
      p.toksuper⟩ := by
  unfold addToken at h
  split at h
  · cases h
  · injection h with h
    exact h.symm

theorem openBracket_extends {cap pos : Nat} {type : JType} {p p' : Parser}
    (h : openBracket cap type pos p = .ok p') : Extends p.toks p'.toks := by
  obtain ⟨_, rfl⟩ := openBracket_ok h
  exact (Extends.addSize _ _).trans (.append _ _)

theorem closeBracket_extends {pos : Nat} {type : JType} {p p' : Parser}
    (h : closeBracket type pos p = .ok p') : Extends p.toks p'.toks := by
  rcases closeBracket_ok h with rfl | ⟨i, t, _, ht, hopen, _, rfl⟩
  · exact .refl _
  · refine .modify fun u hu => ⟨rfl, rfl, rfl, fun hstop => ?_⟩
    rw [ht] at hu
    injection hu with hu
    exact absurd (hu ▸ hopen) hstop

theorem addToken_extends {cap start stop : Nat} {type : JType} {p p' : Parser}
    (h : addToken cap type start stop p = .ok p') : Extends p.toks p'.toks := by
  rw [addToken_ok h]
  exact (Extends.append _ _).trans (.addSize _ _)

theorem map_pair_ok {e : Except JsmnError Parser} {k n : Nat} {p : Parser}
    (h : e.map (·, k) = .ok (p, n)) : e = .ok p ∧ k = n := by
  cases e with
  | error e => cases h
  | ok q =>
      injection h with h
      injection h with h h'
      exact ⟨congrArg _ h, h'⟩

/-- A character that starts a token. -/
abbrev starts (c : UInt8) : Prop := c = 123 ∨ c = 91 ∨ c = 34 ∨ primStart c

/-- One turn of the loop at a character: the parser behind it, and how many more
bytes were taken. -/
inductive Turn (cap pos : Nat) (c : UInt8) (p : Parser) : Parser → Nat → Prop where
  | opens {type : JType} {p' : Parser} (hc : starts c) (htype : type = .object ∨ type = .array)
      (h : openBracket cap type pos p = .ok p') : Turn cap pos c p p' 0
  | closes {type : JType} {p' : Parser} (hc : ¬ starts c) (htype : type = .object ∨ type = .array)
      (h : closeBracket type pos p = .ok p') : Turn cap pos c p p' 0
  | adds {type : JType} {start stop n : Nat} {p' : Parser} (hc : starts c)
      (htype : type = .string ∨ type = .primitive) (hstart : pos ≤ start) (hstop : start ≤ stop)
      (hn : stop ≤ pos + 1 + n) (h : addToken cap type start stop p = .ok p') :
      Turn cap pos c p p' n
  | same (hc : ¬ starts c) : Turn cap pos c p p 0
  | colon (hc : c = 58) : Turn cap pos c p
      { p with toksuper := if p.toks.length = 0 then none else some (p.toks.length - 1) } 0
  | comma {t : Tok} (hc : c = 44) (ht : p.toksuper.bind (p.toks[·]?) = some t)
      (htype : t.type ≠ .array ∧ t.type ≠ .object) :
      Turn cap pos c p { p with toksuper := t.parent } 0

theorem jsmnChar_turn {cap pos : Nat} {c : UInt8} {rest : Bytes} {p p' : Parser} {n : Nat}
    (h : jsmnChar cap pos c rest p = .ok (p', n)) : Turn cap pos c p p' n := by
  let Turns (r : Except JsmnError (Parser × Nat)) : Prop :=
    ∀ p' n, r = .ok (p', n) → Turn cap pos c p p' n
  have branch : ∀ {q : Prop} [Decidable q] {a b : Except JsmnError (Parser × Nat)},
      (q → Turns a) → (¬ q → Turns b) → Turns (if q then a else b) :=
    fun ha hb => iteInduction (motive := Turns) ha hb
  have herror : ∀ e, Turns (.error e) := fun e p' n h => by cases h
  have hok : ∀ {q : Parser}, Turn cap pos c p q 0 → Turns (.ok (q, 0)) := by
    intro q hq p' n h
    injection h with h
    injection h with h hn
    subst h hn
    exact hq
  have hmap : ∀ {e : Except JsmnError Parser} {k : Nat},
      (∀ q, e = .ok q → Turn cap pos c p q k) → Turns (e.map (·, k)) := by
    intro e k hq p' n h
    obtain ⟨hstep, rfl⟩ := map_pair_ok h
    exact hq p' hstep
  suffices hall : Turns (jsmnChar cap pos c rest p) from hall p' n h
  unfold jsmnChar
  refine branch (fun hc => hmap fun q => .opens (.inl hc) (.inl rfl)) fun _ => ?_
  refine branch (fun hc => hmap fun q => .opens (.inr (.inl hc)) (.inr rfl)) fun _ => ?_
  refine branch (fun hc => hmap fun q => .closes ?_ (.inl rfl)) fun _ => ?_
  · subst hc
    decide
  refine branch (fun hc => hmap fun q => .closes ?_ (.inr rfl)) fun _ => ?_
  · subst hc
    decide
  refine branch (fun hc => ?string) fun _ => ?_
  case string =>
    split
    · exact herror _
    · exact hmap fun q => .adds (.inr (.inr (.inl hc))) (.inl rfl) (Nat.le_succ pos)
        (Nat.le_add_right _ _) (by omega)
  refine branch (fun hc => hok (.same ?_)) fun _ => ?_
  · rcases hc with rfl | rfl | rfl | rfl <;> decide
  refine branch (fun hc => hok (.colon hc)) fun _ => ?_
  refine branch (fun hc => ?comma) fun _ => ?_
  case comma =>
    have hsame : Turn cap pos c p p 0 := .same (by subst hc; decide)
    split
    · exact hok hsame
    · next t ht => exact branch (fun htype => hok (.comma hc ht htype)) fun _ => hok hsame
  refine branch (fun hc => branch (fun _ => herror _) fun _ => ?prim) fun _ => herror _
  case prim =>
    split
    · exact herror _
    · exact hmap fun q => .adds (.inr (.inr (.inr hc))) (.inr rfl) (Nat.le_refl pos)
        (Nat.le_add_right _ _) (by omega)

/-! ## Invariants of a run -/

/-- A property of the parser at a position that everything keeps that a character
can do. -/
structure Preserved (cap : Nat) (I : Nat → Parser → Prop) : Prop where
  mono : ∀ {pos q : Nat} {p : Parser}, pos ≤ q → I pos p → I q p
  opens : ∀ {pos : Nat} {type : JType} {p p' : Parser}, type = .object ∨ type = .array →
    I pos p → openBracket cap type pos p = .ok p' → I (pos + 1) p'
  closes : ∀ {pos : Nat} {type : JType} {p p' : Parser}, type = .object ∨ type = .array →
    I pos p → closeBracket type pos p = .ok p' → I (pos + 1) p'
  adds : ∀ {pos start stop : Nat} {type : JType} {p p' : Parser}, pos ≤ start → start ≤ stop →
    I pos p → addToken cap type start stop p = .ok p' → I stop p'
  colon : ∀ {pos : Nat} {p : Parser}, I pos p →
    I pos { p with toksuper := if p.toks.length = 0 then none else some (p.toks.length - 1) }
  comma : ∀ {pos : Nat} {p : Parser} {t : Tok}, I pos p →
    p.toksuper.bind (p.toks[·]?) = some t → t.type ≠ .array ∧ t.type ≠ .object →
    I pos { p with toksuper := t.parent }

section

variable {cap : Nat} {I : Nat → Parser → Prop}

/-- One turn of the loop keeps it. -/
theorem Preserved.turn (h : Preserved cap I) {pos n : Nat} {c : UInt8} {p p' : Parser}
    (hp : I pos p) (hturn : Turn cap pos c p p' n) : I (pos + 1 + n) p' := by
  cases hturn with
  | opens _ htype hstep => exact h.opens htype hp hstep
  | closes _ htype hstep => exact h.closes htype hp hstep
  | adds _ _ hstart hstop hn hstep => exact h.mono hn (h.adds hstart hstop hp hstep)
  | same _ => exact h.mono (Nat.le_succ pos) hp
  | colon _ => exact h.mono (Nat.le_succ pos) (h.colon hp)
  | comma _ ht htype => exact h.mono (Nat.le_succ pos) (h.comma hp ht htype)

/-- And so does a run. -/
theorem Preserved.loop (h : Preserved cap I) : ∀ {s : Bytes} {skip pos : Nat} {p p' : Parser},
    I (pos + skip) p → loop cap skip pos p s = .ok p' → ∃ q, I q p' := by
  intro s
  induction s with
  | nil =>
      intro skip pos p p' hp h'
      cases skip <;> · injection h' with h'; exact ⟨_, h' ▸ hp⟩
  | cons c s ih =>
      intro skip pos p p' hp h'
      cases skip with
      | succ skip =>
          rw [← Nat.add_assoc, Nat.add_right_comm] at hp
          exact ih hp h'
      | zero =>
          rw [Json.loop.eq_def] at h'
          simp only at h'
          split at h'
          · injection h' with h'
            exact ⟨_, h' ▸ hp⟩
          · split at h'
            · cases h'
            · next q n hq => exact ih (h.turn hp (jsmnChar_turn hq)) h'

end

/-- What is in the array is kept. -/
theorem extends_preserved (cap : Nat) (ts : List Tok) :
    Preserved cap fun _ p => Extends ts p.toks where
  mono _ h := h
  opens _ h h' := h.trans (openBracket_extends h')
  closes _ h h' := h.trans (closeBracket_extends h')
  adds _ _ h h' := h.trans (addToken_extends h')
  colon h := h
  comma h _ _ := h

theorem loop_extends {cap : Nat} {s : Bytes} {skip pos : Nat} {p p' : Parser}
    (h : loop cap skip pos p s = .ok p') : Extends p.toks p'.toks :=
  ((extends_preserved cap p.toks).loop (Extends.refl _) h).choose_spec

/-! ## Whole texts -/

/-- What `json_parse` has seen to when it accepts a text. -/
theorem jsonParse_ok {src : Bytes} {j : Doc} (h : jsonParse src = some j) :
    j.src = src ∧ ∃ p t rest, loop JSON_TOK_CAP 0 0 {} src = .ok p ∧ j.tok = p.toks ∧
      p.toks = t :: rest ∧ t.type = .object ∧ (∀ u ∈ p.toks, u.stop ≠ none) ∧
      ∀ u ∈ rest, u.parent ≠ none := by
  unfold jsonParse jsmnParse at h
  cases hloop : loop JSON_TOK_CAP 0 0 {} src with
  | error e =>
      rw [hloop] at h
      cases h
  | ok p =>
      rw [hloop] at h
      simp only at h
      by_cases hopen : p.toks.any (·.stop == none)
      · rw [if_pos hopen] at h
        cases h
      · rw [if_neg hopen] at h
        cases htoks : p.toks with
        | nil =>
            rw [htoks] at h
            cases h
        | cons t rest =>
            rw [htoks] at h
            simp only at h
            split at h
            · next hroot =>
                injection h with h
                subst h
                refine ⟨rfl, p, t, rest, rfl, htoks.symm, htoks, hroot.1, fun u hu hstop => ?_,
                  fun u hu => ?_⟩
                · refine hopen (List.any_eq_true.mpr ⟨u, htoks ▸ hu, ?_⟩)
                  rw [hstop]
                  rfl
                · exact Option.isSome_iff_ne_none.mp (List.all_eq_true.mp hroot.2 u hu)
            · cases h

end GeistServe.Json
