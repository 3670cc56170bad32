import Mathlib.Data.List.Basic
import Mathlib.Data.List.TakeWhile
import GeistServe.Lib.Lines

/-!
# A text through the buffer of fgets

`fgets` with a buffer of `cap` bytes gives a text in pieces (`fgetsAll`): each ends behind a
newline, or where the buffer is full, or with the text. A reader that has no such buffer sees the
`textLines`. The pieces of a line are full ones without a newline and a last one
(`fgetsAll_line`), so a reader that looks for the newline of each piece can follow the lines,
as long as it sees the end of the last piece.
-/

namespace GeistServe.Lib

/-- What `fgets` gives of a text, with `acc` in the buffer already. -/
def fgetsAll (cap : Nat) (acc : Bytes) : Bytes → List Bytes
  | [] => if acc = [] then [] else [acc]
  | b :: rest =>
      if b = newline ∨ acc.length + 2 = cap then (acc ++ [b]) :: fgetsAll cap [] rest
      else fgetsAll cap (acc ++ [b]) rest

/-- The lines of a text, with `acc` in front of it. The last may have no newline. -/
def textLines (acc : Bytes) : Bytes → List Bytes
  | [] => if acc = [] then [] else [acc]
  | b :: rest =>
      if b = newline then (acc ++ [b]) :: textLines [] rest else textLines (acc ++ [b]) rest

/-- `strchr` of the newline, which a NUL ends. -/
def endSeen (piece : Bytes) : Bool := (piece.takeWhile (· ≠ 0)).contains newline

/-- The last piece of a line. -/
def lastPiece (cap : Nat) (l : Bytes) : Bytes :=
  l.drop ((l.length - 1) / (cap - 1) * (cap - 1))

/-! ## Lines -/

theorem textLines_newline {body : Bytes} (hbody : newline ∉ body) (rest : Bytes) :
    ∀ acc, textLines acc (body ++ newline :: rest) =
      (acc ++ body ++ [newline]) :: textLines [] rest := by
  induction body with
  | nil =>
      intro acc
      rw [List.nil_append, List.append_nil, textLines, if_pos rfl]
  | cons b body ih =>
      intro acc
      rw [List.mem_cons, not_or] at hbody
      rw [List.cons_append, textLines, if_neg (Ne.symm hbody.1), ih hbody.2]
      simp only [List.append_assoc, List.cons_append, List.nil_append]

theorem textLines_tail {body : Bytes} (hbody : newline ∉ body) :
    ∀ acc, textLines acc body = if acc ++ body = [] then [] else [acc ++ body] := by
  induction body with
  | nil =>
      intro acc
      rw [textLines, List.append_nil]
  | cons b body ih =>
      intro acc
      rw [List.mem_cons, not_or] at hbody
      rw [textLines, if_neg (Ne.symm hbody.1), ih hbody.2, List.append_assoc]
      rfl

/-- A text is nothing, a line without a newline, or a line and another text. -/
theorem text_induction {P : Bytes → Prop} (nil : P [])
    (tail : ∀ body, body ≠ [] → newline ∉ body → P body)
    (line : ∀ body rest, newline ∉ body → P rest → P (body ++ newline :: rest)) (bs : Bytes) :
    P bs := by
  induction hn : bs.length using Nat.strong_induction_on generalizing bs with
  | _ n ih =>
      by_cases hmem : newline ∈ bs
      · obtain ⟨body, rest, rfl, hbody⟩ := List.eq_append_cons_of_mem hmem
        refine line body rest hbody (ih rest.length ?_ rest rfl)
        rw [← hn, List.length_append, List.length_cons]
        omega
      · by_cases hnil : bs = []
        · rw [hnil]
          exact nil
        · exact tail bs hnil hmem

/-! ## Pieces -/

section
variable {cap : Nat}

/-- Text without a newline that leaves room is only collected. -/
theorem fgetsAll_collect {body : Bytes} (hbody : newline ∉ body) (rest : Bytes) :
    ∀ {acc : Bytes}, acc.length + body.length + 1 < cap →
      fgetsAll cap acc (body ++ rest) = fgetsAll cap (acc ++ body) rest := by
  induction body with
  | nil =>
      intro acc _
      rw [List.nil_append, List.append_nil]
  | cons b body ih =>
      intro acc hroom
      rw [List.mem_cons, not_or] at hbody
      rw [List.length_cons] at hroom
      have hnext : (acc ++ [b]).length + body.length + 1 < cap := by
        rw [List.length_append, List.length_singleton]
        omega
      have hstay : ¬ (b = newline ∨ acc.length + 2 = cap) := by
        rintro (h | h)
        · exact hbody.1 h.symm
        · omega
      rw [List.cons_append, fgetsAll, if_neg hstay, ih hbody.2 hnext, List.append_assoc]
      rfl

/-- A full buffer. -/
theorem fgetsAll_full {first : Bytes} (hfirst : newline ∉ first) (hlen : first.length + 1 = cap)
    (hpos : first ≠ []) (rest : Bytes) :
    fgetsAll cap [] (first ++ rest) = first :: fgetsAll cap [] rest := by
  obtain ⟨front, b, rfl⟩ := (List.eq_nil_or_concat first).resolve_left hpos
  rw [List.concat_eq_append] at *
  rw [List.mem_append, not_or] at hfirst
  rw [List.length_append, List.length_singleton] at hlen
  have hroom : ([] : Bytes).length + front.length + 1 < cap := by
    rw [List.length_nil]
    omega
  rw [List.append_assoc, fgetsAll_collect hfirst.1 _ hroom, List.nil_append, List.singleton_append,
    fgetsAll, if_pos (.inr (by omega))]

/-- A line that the buffer can take. -/
theorem fgetsAll_short {body : Bytes} (hbody : newline ∉ body) (hlen : body.length + 1 < cap)
    (rest : Bytes) :
    fgetsAll cap [] (body ++ newline :: rest) = (body ++ [newline]) :: fgetsAll cap [] rest := by
  have hroom : ([] : Bytes).length + body.length + 1 < cap := by
    rw [List.length_nil]
    omega
  rw [fgetsAll_collect hbody _ hroom, List.nil_append, fgetsAll, if_pos (.inl rfl)]

theorem lastPiece_short {l : Bytes} (h : l.length < cap) : lastPiece cap l = l := by
  by_cases hl : l.length = 0
  · rw [List.length_eq_zero_iff.mp hl, lastPiece, List.drop_nil]
  · rw [lastPiece, Nat.div_eq_of_lt (by omega), Nat.zero_mul, List.drop_zero]

theorem lastPiece_full {first rest : Bytes} (hlen : first.length + 1 = cap) (hpos : first ≠ [])
    (hrest : rest ≠ []) : lastPiece cap (first ++ rest) = lastPiece cap rest := by
  have hfirst := List.length_pos_iff.mpr hpos
  have hrest := List.length_pos_iff.mpr hrest
  have hcap : cap - 1 = first.length := by omega
  have hdiv : (first.length + rest.length - 1) / first.length =
      (rest.length - 1) / first.length + 1 := by
    rw [show first.length + rest.length - 1 = rest.length - 1 + first.length by omega,
      Nat.add_div_right _ hfirst]
  rw [lastPiece, lastPiece, hcap, List.length_append, hdiv, Nat.add_mul, Nat.one_mul,
    Nat.add_comm, List.drop_append, List.drop_of_length_le (Nat.le_add_right ..),
    Nat.add_sub_cancel_left, List.nil_append]

/-- A text that does not fit the buffer starts with a full one. -/
theorem full_first {l : Bytes} (h : cap ≤ l.length) (hcap : 1 < cap) :
    ∃ first rest, l = first ++ rest ∧ first.length + 1 = cap ∧ first ≠ [] ∧ rest ≠ [] := by
  have hlen : (l.take (cap - 1)).length = cap - 1 := by
    rw [List.length_take]
    omega
  refine ⟨l.take (cap - 1), l.drop (cap - 1), (List.take_append_drop _ _).symm, by omega, ?_, ?_⟩
  · intro hnil
    rw [hnil, List.length_nil] at hlen
    omega
  · intro hnil
    have hdrop := congrArg List.length hnil
    rw [List.length_drop, List.length_nil] at hdrop
    omega

/-- The pieces of a line: full ones without a newline, and the last. There are full ones only
where the line does not fit. By induction on its length. -/
theorem fgetsAll_line (hcap : 1 < cap) {body : Bytes} (hbody : newline ∉ body) (rest : Bytes) :
    ∃ front, fgetsAll cap [] (body ++ newline :: rest) =
        front ++ lastPiece cap (body ++ [newline]) :: fgetsAll cap [] rest ∧
      (∀ p ∈ front, newline ∉ p) ∧ (front = [] ↔ (body ++ [newline]).length < cap) := by
  induction hn : body.length using Nat.strong_induction_on generalizing body with
  | _ n ih =>
      have hlen : (body ++ [newline]).length = body.length + 1 := by
        rw [List.length_append, List.length_singleton]
      by_cases hshort : body.length + 1 < cap
      · refine ⟨[], ?_, fun p hp => absurd hp List.not_mem_nil, ?_⟩
        · rw [fgetsAll_short hbody hshort, lastPiece_short (by omega), List.nil_append]
        · rw [hlen]
          exact ⟨fun _ => hshort, fun _ => rfl⟩
      · -- the newline does not come into the first piece
        obtain ⟨first, more, hsplit, hfull, hpos, hmore⟩ :=
          full_first (l := body ++ [newline]) (by omega) hcap
        obtain ⟨last, hlast⟩ : ∃ last, more = last ++ [newline] := by
          obtain ⟨last, b, heq⟩ := (List.eq_nil_or_concat more).resolve_left hmore
          rw [List.concat_eq_append] at heq
          refine ⟨last, ?_⟩
          have hend := congrArg List.getLast? hsplit
          rw [heq, ← List.append_assoc, List.getLast?_concat, List.getLast?_concat] at hend
          rw [heq, Option.some.inj hend]
        rw [hlast, ← List.append_assoc] at hsplit
        have hwhole := List.append_cancel_right hsplit
        rw [hwhole, List.mem_append, not_or] at hbody
        have hshorter : last.length < n := by
          have hlens := congrArg List.length hwhole
          rw [List.length_append] at hlens
          have hfirst := List.length_pos_iff.mpr hpos
          omega
        obtain ⟨front, hpieces, hfront, _⟩ := ih last.length hshorter hbody.2 rfl
        refine ⟨first :: front, ?_, ?_, ?_⟩
        · rw [hwhole, List.append_assoc, fgetsAll_full hbody.1 hfull hpos, hpieces,
            List.append_assoc, lastPiece_full hfull hpos (List.append_ne_nil_of_right_ne_nil _
              (List.cons_ne_nil _ _)), List.cons_append]
        · intro p hp
          rcases List.mem_cons.mp hp with rfl | hp
          · exact hbody.1
          · exact hfront p hp
        · rw [hlen]
          exact ⟨fun h => absurd h (List.cons_ne_nil _ _), fun h => absurd h hshort⟩

/-- No piece of a text without a newline has one, and there is a piece unless there is no
text. -/
theorem fgetsAll_tail (hcap : 1 < cap) {body : Bytes} (hbody : newline ∉ body) (hne : body ≠ []) :
    ∃ first front, fgetsAll cap [] body = first :: front ∧ ∀ p ∈ first :: front, newline ∉ p := by
  induction hn : body.length using Nat.strong_induction_on generalizing body with
  | _ n ih =>
      have hall : ∀ {first : Bytes} {front : List Bytes}, newline ∉ first →
          (∀ p ∈ front, newline ∉ p) → ∀ p ∈ first :: front, newline ∉ p := by
        intro first front hfirst hfront p hp
        rcases List.mem_cons.mp hp with rfl | hp
        · exact hfirst
        · exact hfront p hp
      by_cases hroom : body.length + 1 < cap
      · have hcollect : fgetsAll cap [] body = [body] := by
          have hlt : ([] : Bytes).length + body.length + 1 < cap := by
            rw [List.length_nil]
            omega
          have h := fgetsAll_collect hbody [] hlt
          rw [List.append_nil, List.nil_append] at h
          rw [h, fgetsAll, if_neg hne]
        exact ⟨body, [], hcollect, hall hbody fun p hp => absurd hp List.not_mem_nil⟩
      · by_cases hfull : body.length + 1 = cap
        · have hpieces := fgetsAll_full hbody hfull hne []
          rw [List.append_nil, fgetsAll, if_pos rfl] at hpieces
          exact ⟨body, [], hpieces, hall hbody fun p hp => absurd hp List.not_mem_nil⟩
        · obtain ⟨first, more, rfl, hlen, hpos, hmore⟩ :=
            @full_first cap body (by omega) hcap
          rw [List.mem_append, not_or] at hbody
          have hfirst := List.length_pos_iff.mpr hpos
          rw [List.length_append] at hn
          obtain ⟨first', front, hpieces, hfront⟩ := ih more.length (by omega) hbody.2 hmore rfl
          refine ⟨first, first' :: front, ?_, hall hbody.1 hfront⟩
          rw [fgetsAll_full hbody.1 hlen hpos, hpieces]

end

/-! ## The end of a piece -/

theorem endSeen_false {piece : Bytes} (h : newline ∉ piece) : endSeen piece = false := by
  rw [endSeen, List.contains_eq_mem, decide_eq_false_iff_not]
  exact fun hmem => h ((List.takeWhile_sublist _).mem hmem)

/-- The newline at the end is seen if no NUL is in front of it. -/
theorem endSeen_line {body : Bytes} (hbody : newline ∉ body) :
    endSeen (body ++ [newline]) = true ↔ (0 : UInt8) ∉ body := by
  rw [endSeen, List.contains_eq_mem, decide_eq_true_eq]
  constructor
  · intro hmem hnul
    obtain ⟨as, bs, rfl, has⟩ := List.eq_append_cons_of_mem hnul
    have hplain : ∀ c ∈ as, decide (c ≠ 0) = true := by
      intro c hc
      rw [decide_eq_true_eq]
      rintro rfl
      exact has hc
    have hstop : (as ++ 0 :: bs ++ [newline]).takeWhile (· ≠ 0) = as := by
      rw [List.append_assoc, List.takeWhile_append_of_pos hplain, List.cons_append,
        List.takeWhile_cons_of_neg (by simp), List.append_nil]
    rw [hstop] at hmem
    exact hbody (List.mem_append_left _ hmem)
  · intro hnul
    rw [text_eq (by simpa [newline] using hnul)]
    exact List.mem_append_right _ (List.mem_singleton.mpr rfl)

end GeistServe.Lib
