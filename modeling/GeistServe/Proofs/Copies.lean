import GeistServe.Client.Copies
import GeistServe.Proofs.Growth
import Mathlib.Data.List.Induction

/-!
# A copy of a string stays in the memory allocated for it

What the three loops have in common is that the pen never runs ahead of the text: an escape
writes no more cells than it has bytes (`strdupLoop_wrote`, `gdUnescapeLoop_wrote`), and a
byte that is escaped writes six at most, with a NUL behind them that the next write goes over
(`tokenizeByte_wrote`). Whatever four characters stand behind a `\u`, `strtoul` makes a number
of them, and any number has four bytes at most in `utf8`.

On the texts that the other modules are about, the copies are theirs.
-/

namespace GeistServe.Client

open GeistServe.Lib GeistServe.Geistd GeistServe.Json

/-! ## Four characters -/

theorem hexVal_lt {c : UInt8} (h : isHex c = true) : hexVal c < 16 := by
  simp only [isHex, Bool.or_eq_true, Bool.and_eq_true, decide_eq_true_eq,
    UInt8.le_iff_toNat_le] at h
  simp only [hexVal, UInt8.le_iff_toNat_le]
  have h₀ : (48 : UInt8).toNat = 48 := rfl
  have h₁ : (57 : UInt8).toNat = 57 := rfl
  have h₂ : (65 : UInt8).toNat = 65 := rfl
  have h₃ : (70 : UInt8).toNat = 70 := rfl
  have h₄ : (97 : UInt8).toNat = 97 := rfl
  have h₅ : (102 : UInt8).toNat = 102 := rfl
  split
  · omega
  · split <;> omega

theorem hexNum_lt {cs : Bytes} (h : cs.all isHex = true) : hexNum cs < 16 ^ cs.length := by
  induction cs using List.reverseRecOn with
  | nil => exact Nat.one_pos
  | append_singleton cs c ih =>
      rw [List.all_append, Bool.and_eq_true] at h
      have hcs := ih h.1
      have hc := hexVal_lt (c := c) (by simpa using h.2)
      have hstep : hexNum (cs ++ [c]) = 16 * hexNum cs + hexVal c := by
        rw [hexNum, List.foldl_append]
        rfl
      rw [hstep, List.length_append, List.length_singleton, Nat.pow_succ]
      omega

theorem hex_sign {c : UInt8} (h : isHex c = true) :
    isSpace c = false ∧ c ≠ 45 ∧ c ≠ 43 ∧ c ≠ 120 ∧ c ≠ 88 := by
  have hall : ∀ n < 256, isHex (UInt8.ofNat n) = true →
      isSpace (UInt8.ofNat n) = false ∧ UInt8.ofNat n ≠ 45 ∧ UInt8.ofNat n ≠ 43 ∧
        UInt8.ofNat n ≠ 120 ∧ UInt8.ofNat n ≠ 88 := by decide +kernel
  have hc := hall c.toNat c.toNat_lt
  rw [UInt8.ofNat_toNat] at hc
  exact hc h

theorem behind0x_eq {a b c : UInt8} {rest : Bytes} (h : ¬ (b = 120 ∨ b = 88)) :
    behind0x (a :: b :: c :: rest) = a :: b :: c :: rest := by
  unfold behind0x
  split
  · next heq =>
      cases heq
      exact if_neg fun hx => h hx.1
  · rfl

theorem behind0x_suffix (cs : Bytes) : behind0x cs <:+ cs := by
  unfold behind0x
  split
  · next x h rest =>
      split
      · exact ⟨[48, x], rfl⟩
      · exact List.suffix_rfl
  · exact List.suffix_rfl

theorem behindSign_suffix (cs : Bytes) : behindSign cs <:+ cs := by
  unfold behindSign
  split
  · exact List.tail_suffix cs
  · exact List.suffix_rfl

/-- Four digits. -/
theorem strtoul16_hex {a b c d : UInt8} (h : (isHex a && isHex b && isHex c && isHex d) = true) :
    strtoul16 [a, b, c, d] = (hexNum [a, b, c, d], []) := by
  simp only [Bool.and_eq_true] at h
  obtain ⟨⟨⟨ha, hb⟩, hc⟩, hd⟩ := h
  obtain ⟨hspace, hminus, hplus, -, -⟩ := hex_sign ha
  obtain ⟨-, -, -, hx, hX⟩ := hex_sign hb
  have htext : [a, b, c, d].dropWhile isSpace = [a, b, c, d] := by
    rw [List.dropWhile_cons, hspace]
    rfl
  have hat : charAt [a, b, c, d] = a := rfl
  have hsign : behindSign [a, b, c, d] = [a, b, c, d] :=
    if_neg fun hs => hs.elim hminus hplus
  have hdigits : behind0x [a, b, c, d] = [a, b, c, d] := behind0x_eq fun h => h.elim hx hX
  have htake : [a, b, c, d].takeWhile isHex = [a, b, c, d] := by
    simp only [List.takeWhile_cons, List.takeWhile_nil, ha, hb, hc, hd, if_true]
  have hdrop : [a, b, c, d].dropWhile isHex = [] := by
    simp only [List.dropWhile_cons, List.dropWhile_nil, ha, hb, hc, hd, if_true]
  have hlt : hexNum [a, b, c, d] < 16 ^ [a, b, c, d].length := hexNum_lt (by
    simp only [List.all_cons, List.all_nil, ha, hb, hc, hd, Bool.and_self])
  have hlt : hexNum [a, b, c, d] < 16 ^ 4 := hlt
  unfold strtoul16
  simp only [htext, hat, hsign, hdigits, htake, hdrop, if_neg hminus]
  rw [Nat.mod_eq_of_lt (by omega), if_neg (by simp)]

/-- Four characters that are not all digits: no surrogate. -/
theorem strtoul16_odd {a b c d : UInt8} (h : (isHex a && isHex b && isHex c && isHex d) = false) :
    (strtoul16 [a, b, c, d]).1 < 0xD800 ∨ 0xDFFF < (strtoul16 [a, b, c, d]).1 := by
  have hsuffix : behind0x (behindSign ([a, b, c, d].dropWhile isSpace)) <:+ [a, b, c, d] :=
    ((behind0x_suffix _).trans (behindSign_suffix _)).trans (List.dropWhile_suffix _)
  have hprefix := List.takeWhile_prefix isHex
    (l := behind0x (behindSign ([a, b, c, d].dropWhile isSpace)))
  have hall : ((behind0x (behindSign ([a, b, c, d].dropWhile isSpace))).takeWhile isHex).all
      isHex = true := List.all_takeWhile
  have hlt := hexNum_lt hall
  have hshort : ((behind0x (behindSign ([a, b, c, d].dropWhile isSpace))).takeWhile isHex).length
      ≤ 3 := by
    -- four digits would be all of the characters
    by_contra hno
    have hlen := hsuffix.length_le
    have hlen' := hprefix.length_le
    rw [show [a, b, c, d].length = 4 from rfl] at hlen
    have heq := hsuffix.eq_of_length (by rw [show [a, b, c, d].length = 4 from rfl]; omega)
    have heq' := hprefix.eq_of_length (by omega)
    rw [heq', heq] at hall
    simp only [List.all_cons, List.all_nil, Bool.and_true] at hall
    rw [← Bool.and_assoc, ← Bool.and_assoc] at hall
    exact absurd (h.symm.trans hall) (by decide)
  have hbound : hexNum ((behind0x (behindSign ([a, b, c, d].dropWhile isSpace))).takeWhile isHex) <
      16 ^ 3 := Nat.lt_of_lt_of_le hlt (Nat.pow_le_pow_right (by decide) hshort)
  unfold strtoul16
  simp only []
  split <;> omega

/-! ## `json_strdup` -/

theorem strdupLoop_cut {rest : Bytes} (h : rest.length < 4) (p : Pen UInt8) :
    strdupLoop (92 :: 117 :: rest) p = strdupLoop rest p := by
  rw [strdupLoop.eq_def]
  simp only [ne_eq, not_true_eq_false, if_false]
  split
  · simp only [List.length_cons] at h
    omega
  · rfl

/-- An escape of four digits, in a text that the tokenizer accepts. -/
theorem behind_unicode {a b c d : UInt8} {rest : Bytes}
    (h : Quotable (92 :: 117 :: a :: b :: c :: d :: rest)) :
    (isHex a && isHex b && isHex c && isHex d) = true ∧ Quotable rest := by
  cases h with
  | plain hc => exact absurd rfl hc.2.2
  | short he => exact absurd he (by decide)
  | unicode hx hrest => exact ⟨hx, hrest⟩

/-- A `\u` escape: one character, or a pair. -/
theorem strdup_unicode (h₁ h₂ h₃ h₄ : UInt8) (rest : Bytes) :
    ∃ xs rest', Pen.Turn strdupLoop (92 :: 117 :: h₁ :: h₂ :: h₃ :: h₄ :: rest) xs rest' ∧
      (Quotable (92 :: 117 :: h₁ :: h₂ :: h₃ :: h₄ :: rest) → Quotable rest' ∧
        unescape (92 :: 117 :: h₁ :: h₂ :: h₃ :: h₄ :: rest) = xs ++ unescape rest') := by
  have hcp : Quotable (92 :: 117 :: h₁ :: h₂ :: h₃ :: h₄ :: rest) →
      (strtoul16 [h₁, h₂, h₃, h₄]).1 = hexNum [h₁, h₂, h₃, h₄] := by
    intro hq
    rw [strtoul16_hex (behind_unicode hq).1]
  have hutf8 := utf8_length_le (strtoul16 [h₁, h₂, h₃, h₄]).1
  have hone : (utf8 (strtoul16 [h₁, h₂, h₃, h₄]).1).length + rest.length ≤
        (92 :: 117 :: h₁ :: h₂ :: h₃ :: h₄ :: rest).length ∧
      rest.length < (92 :: 117 :: h₁ :: h₂ :: h₃ :: h₄ :: rest).length := by
    simp only [List.length_cons]
    omega
  by_cases hhigh : 0xD800 ≤ (strtoul16 [h₁, h₂, h₃, h₄]).1 ∧ (strtoul16 [h₁, h₂, h₃, h₄]).1 ≤ 0xDBFF
  · by_cases hesc : ∃ l₁ l₂ l₃ l₄ rest', rest = 92 :: 117 :: l₁ :: l₂ :: l₃ :: l₄ :: rest'
    · obtain ⟨l₁, l₂, l₃, l₄, rest', rfl⟩ := hesc
      by_cases hlow : 0xDC00 ≤ (strtoul16 [l₁, l₂, l₃, l₄]).1 ∧
          (strtoul16 [l₁, l₂, l₃, l₄]).1 ≤ 0xDFFF
      · refine ⟨utf8 (pair (strtoul16 [h₁, h₂, h₃, h₄]).1 (strtoul16 [l₁, l₂, l₃, l₄]).1), rest',
          ⟨?_, ?_, fun p => ?_⟩, fun hq => ?_⟩
        · have hpair := utf8_length_le
            (pair (strtoul16 [h₁, h₂, h₃, h₄]).1 (strtoul16 [l₁, l₂, l₃, l₄]).1)
          simp only [List.length_cons]
          omega
        · simp only [List.length_cons]
          omega
        · rw [strdupLoop.eq_def]
          exact (if_pos hhigh).trans (if_pos hlow)
        · have hq' := behind_unicode (behind_unicode hq).2
          have hlo : (strtoul16 [l₁, l₂, l₃, l₄]).1 = hexNum [l₁, l₂, l₃, l₄] := by
            rw [strtoul16_hex hq'.1]
          refine ⟨hq'.2, ?_⟩
          rw [hcp hq] at hhigh ⊢
          rw [hlo] at hlow ⊢
          rw [unescape.eq_def]
          exact (if_pos hhigh).trans (if_pos hlow)
      · refine ⟨_, 92 :: 117 :: l₁ :: l₂ :: l₃ :: l₄ :: rest', ⟨hone.1, hone.2,
          fun p => ?_⟩, fun hq => ?_⟩
        · rw [strdupLoop.eq_def]
          exact (if_pos hhigh).trans (if_neg hlow)
        · have hq' := (behind_unicode hq).2
          have hlo : (strtoul16 [l₁, l₂, l₃, l₄]).1 = hexNum [l₁, l₂, l₃, l₄] := by
            rw [strtoul16_hex (behind_unicode hq').1]
          refine ⟨hq', ?_⟩
          rw [hcp hq] at hhigh ⊢
          rw [hlo] at hlow
          rw [unescape.eq_def]
          exact (if_pos hhigh).trans (if_neg hlow)
    · have hlone : ∀ l₁ l₂ l₃ l₄ rest', rest = 92 :: 117 :: l₁ :: l₂ :: l₃ :: l₄ :: rest' → False :=
        fun l₁ l₂ l₃ l₄ rest' heq => hesc ⟨l₁, l₂, l₃, l₄, rest', heq⟩
      refine ⟨_, rest, ⟨hone.1, hone.2, fun p => ?_⟩,
        fun hq => ⟨(behind_unicode hq).2, ?_⟩⟩
      · rw [strdupLoop.eq_def]
        simp only [ne_eq, not_true_eq_false, if_false, if_pos hhigh]
      · rw [hcp hq] at hhigh ⊢
        exact unescape_high hhigh hlone
  · refine ⟨_, rest, ⟨hone.1, hone.2, fun p => ?_⟩,
      fun hq => ⟨(behind_unicode hq).2, ?_⟩⟩
    · rw [strdupLoop.eq_def]
      exact if_neg hhigh
    · rw [hcp hq] at hhigh ⊢
      exact unescape_unicode hhigh

theorem strdup_turn {s : Bytes} (hs : s ≠ []) :
    ∃ xs rest, Pen.Turn strdupLoop s xs rest ∧
      (Quotable s → Quotable rest ∧ unescape s = xs ++ unescape rest) := by
  cases s with
  | nil => exact absurd rfl hs
  | cons c rest =>
      by_cases hc : c = 92
      case neg =>
        refine ⟨[c], rest, ⟨?_, Nat.lt_succ_self _, strdupLoop_plain hc rest⟩, fun hq => ⟨?_, ?_⟩⟩
        · simp only [List.length_cons, List.length_nil]
          omega
        · cases hq with
          | plain _ h => exact h
          | short => exact absurd rfl hc
          | unicode => exact absurd rfl hc
        · exact unescape_plain hc rest
      subst hc
      match rest with
      | [] =>
          refine ⟨[92], [], ⟨Nat.le_refl _, Nat.one_pos, strdupLoop_last⟩, fun hq => ?_⟩
          cases hq with
          | plain hc => exact absurd rfl hc.2.2
      | e :: rest =>
          by_cases he : e = 117
          case neg =>
            refine ⟨[escaped e], rest, ⟨?_, ?_, strdupLoop_short he rest⟩, fun hq => ⟨?_, ?_⟩⟩
            · simp only [List.length_cons, List.length_nil]
              omega
            · simp only [List.length_cons]
              omega
            · cases hq with
              | plain hc => exact absurd rfl hc.2.2
              | short _ h => exact h
              | unicode => exact absurd rfl he
            · exact unescape_short he rest
          subst he
          by_cases hfour : rest.length < 4
          · refine ⟨[], rest, ⟨?_, ?_, fun p => strdupLoop_cut hfour p⟩, fun hq => ?_⟩
            · simp only [List.length_cons, List.length_nil]
              omega
            · simp only [List.length_cons]
              omega
            · cases hq with
              | plain hc => exact absurd rfl hc.2.2
              | short he => exact absurd he (by decide)
              | unicode => simp only [List.length_cons] at hfour; omega
          · match rest, hfour with
            | h₁ :: h₂ :: h₃ :: h₄ :: rest, _ => exact strdup_unicode h₁ h₂ h₃ h₄ rest
            | [], h => exact absurd (Nat.zero_lt_succ 3) h
            | [_], h => exact absurd (by decide : 1 < 4) h
            | [_, _], h => exact absurd (by decide : 2 < 4) h
            | [_, _, _], h => exact absurd (by decide : 3 < 4) h

/-- The loop has room for what it writes, whatever the text. -/
theorem strdupLoop_wrote (s : Bytes) {p : Pen UInt8} (hroom : p.pos + s.length ≤ p.cells.length) :
    ∃ xs r, strdupLoop s p = some r ∧ (Quotable s → xs = unescape s) ∧ p.Wrote xs r ∧
      xs.length ≤ s.length := by
  have hloop := @Pen.loop_wrote _ _ strdupLoop id ⟨[], 0⟩
    (fun s t => ∃ xs, t = some xs ∧ (Quotable s → xs = unescape s)) (fun _ => rfl)
    ⟨[], rfl, fun _ => (by rw [unescape])⟩ (fun s hs => ?_) s p hroom
  · rcases hloop with ⟨-, xs, hno, -⟩ | ⟨xs, r, hrun, ⟨ys, heq, hxs⟩, hwrote, hlen⟩
    · cases hno
    · cases heq
      exact ⟨xs, r, hrun, hxs, hwrote, hlen⟩
  · obtain ⟨xs, rest, hturn, hq⟩ := strdup_turn hs
    refine .inr ⟨xs, rest, hturn, ?_⟩
    rintro _ ⟨ys, rfl, hys⟩
    refine ⟨xs ++ ys, rfl, fun hs => ?_⟩
    rw [(hq hs).2, hys (hq hs).1]

/-! ## `gd_unescape` -/

/-- The second half of a pair: what `strtoul` and its end say is what the digits say. -/
theorem low_half (l₁ l₂ l₃ l₄ : UInt8) :
    (gdHex l₁ l₂ l₃ l₄ = none ∨ ∃ lo, gdHex l₁ l₂ l₃ l₄ = some lo ∧ (lo < 0xDC00 ∨ 0xDFFF < lo)) ∧
        (charAt (strtoul16 [l₁, l₂, l₃, l₄]).2 ≠ 0 ∨ (strtoul16 [l₁, l₂, l₃, l₄]).1 < 0xDC00 ∨
          0xDFFF < (strtoul16 [l₁, l₂, l₃, l₄]).1) ∨
      gdHex l₁ l₂ l₃ l₄ = some (strtoul16 [l₁, l₂, l₃, l₄]).1 ∧
        ¬ (charAt (strtoul16 [l₁, l₂, l₃, l₄]).2 ≠ 0 ∨ (strtoul16 [l₁, l₂, l₃, l₄]).1 < 0xDC00 ∨
          0xDFFF < (strtoul16 [l₁, l₂, l₃, l₄]).1) := by
  by_cases hx : (isHex l₁ && isHex l₂ && isHex l₃ && isHex l₄) = true
  · have hhex : gdHex l₁ l₂ l₃ l₄ = some (hexNum [l₁, l₂, l₃, l₄]) := if_pos hx
    rw [strtoul16_hex hx, hhex]
    by_cases hout : hexNum [l₁, l₂, l₃, l₄] < 0xDC00 ∨ 0xDFFF < hexNum [l₁, l₂, l₃, l₄]
    · exact .inl ⟨.inr ⟨_, rfl, hout⟩, .inr hout⟩
    · exact .inr ⟨rfl, fun h => h.elim (fun h => h rfl) hout⟩
  · have hhex : gdHex l₁ l₂ l₃ l₄ = none := if_neg hx
    have hodd := strtoul16_odd (Bool.not_eq_true _ ▸ hx)
    exact .inl ⟨.inl hhex, .inr (by omega)⟩

/-- A `\u` escape: a refusal, one character, or a pair. -/
theorem gd_unicode (h₁ h₂ h₃ h₄ : UInt8) (rest : Bytes) :
    ((∀ p, gdUnescapeLoop (92 :: 117 :: h₁ :: h₂ :: h₃ :: h₄ :: rest) p = some .refused) ∧
        gdUnescape (92 :: 117 :: h₁ :: h₂ :: h₃ :: h₄ :: rest) = none) ∨
      ∃ xs rest', Pen.Turn gdUnescapeLoop (92 :: 117 :: h₁ :: h₂ :: h₃ :: h₄ :: rest) xs rest' ∧
        gdUnescape (92 :: 117 :: h₁ :: h₂ :: h₃ :: h₄ :: rest) =
          (gdUnescape rest').map (xs ++ ·) := by
  cases hcp : gdHex h₁ h₂ h₃ h₄ with
  | none =>
      refine .inl ⟨fun p => ?_, ?_⟩
      · rw [gdUnescapeLoop.eq_def]
        simp only [ne_eq, not_true_eq_false, if_false, hcp]
      · rw [gdUnescape.eq_def]
        simp only [ne_eq, not_true_eq_false, if_false, hcp]
  | some cp =>
      have hutf8 := utf8_length_le cp
      by_cases hhigh : 0xD800 ≤ cp ∧ cp ≤ 0xDBFF
      · by_cases hesc : ∃ l₁ l₂ l₃ l₄ rest', rest = 92 :: 117 :: l₁ :: l₂ :: l₃ :: l₄ :: rest'
        · obtain ⟨l₁, l₂, l₃, l₄, rest', rfl⟩ := hesc
          have hpair := utf8_length_le (pair cp (strtoul16 [l₁, l₂, l₃, l₄]).1)
          rcases low_half l₁ l₂ l₃ l₄ with ⟨hno, hout⟩ | ⟨hyes, hin⟩
          · refine .inl ⟨fun p => ?_, ?_⟩
            · rw [gdUnescapeLoop.eq_def]
              simp only [ne_eq, not_true_eq_false, if_false, hcp, if_pos hhigh]
              exact if_pos hout
            · rw [gdUnescape.eq_def]
              simp only [ne_eq, not_true_eq_false, if_false, hcp, if_pos hhigh]
              rcases hno with hno | ⟨lo, hlo, hrange⟩
              · rw [hno]
              · rw [hlo]
                exact if_pos hrange
          · refine .inr ⟨utf8 (pair cp (strtoul16 [l₁, l₂, l₃, l₄]).1), rest', ⟨?_, ?_, fun p => ?_⟩, ?_⟩
            · simp only [List.length_cons]
              omega
            · simp only [List.length_cons]
              omega
            · rw [gdUnescapeLoop.eq_def]
              simp only [ne_eq, not_true_eq_false, if_false, hcp, if_pos hhigh]
              exact if_neg hin
            · rw [gdUnescape.eq_def]
              simp only [ne_eq, not_true_eq_false, if_false, hcp, if_pos hhigh, hyes]
              exact if_neg fun h => hin (.inr h)
        · refine .inl ⟨fun p => ?_, ?_⟩
          · rw [gdUnescapeLoop.eq_def]
            simp only [ne_eq, not_true_eq_false, if_false, hcp, if_pos hhigh]
            split
            · next l₁ l₂ l₃ l₄ rest' => exact absurd ⟨l₁, l₂, l₃, l₄, rest', rfl⟩ hesc
            · rfl
          · rw [gdUnescape.eq_def]
            simp only [ne_eq, not_true_eq_false, if_false, hcp, if_pos hhigh]
            split
            · next l₁ l₂ l₃ l₄ rest' => exact absurd ⟨l₁, l₂, l₃, l₄, rest', rfl⟩ hesc
            · rfl
      · by_cases hlow : 0xDC00 ≤ cp ∧ cp ≤ 0xDFFF
        · refine .inl ⟨fun p => ?_, ?_⟩
          · rw [gdUnescapeLoop.eq_def]
            simp only [ne_eq, not_true_eq_false, if_false, hcp, if_neg hhigh, if_pos hlow]
          · rw [gdUnescape.eq_def]
            simp only [ne_eq, not_true_eq_false, if_false, hcp, if_neg hhigh, if_pos hlow]
        · refine .inr ⟨utf8 cp, rest, ⟨?_, ?_, fun p => ?_⟩, ?_⟩
          · simp only [List.length_cons]
            omega
          · simp only [List.length_cons]
            omega
          · rw [gdUnescapeLoop.eq_def]
            simp only [ne_eq, not_true_eq_false, if_false, hcp, if_neg hhigh, if_neg hlow]
          · rw [gdUnescape.eq_def]
            simp only [ne_eq, not_true_eq_false, if_false, hcp, if_neg hhigh, if_neg hlow]

theorem gd_turn {s : Bytes} (hs : s ≠ []) :
    ((∀ p, gdUnescapeLoop s p = some .refused) ∧ gdUnescape s = none) ∨
      ∃ xs rest, Pen.Turn gdUnescapeLoop s xs rest ∧
        gdUnescape s = (gdUnescape rest).map (xs ++ ·) := by
  cases s with
  | nil => exact absurd rfl hs
  | cons c rest =>
      by_cases hc : c = 92
      case neg =>
        refine .inr ⟨[c], rest, ⟨?_, Nat.lt_succ_self _, gdLoop_plain hc rest⟩,
          gdUnescape_plain hc rest⟩
        simp only [List.length_cons, List.length_nil]
        omega
      subst hc
      cases rest with
      | nil =>
          refine .inr ⟨[92], [], ⟨Nat.le_refl _, Nat.one_pos, gdLoop_last⟩, ?_⟩
          rw [gdUnescape.eq_def, gdUnescape]
          rfl
      | cons e rest =>
          by_cases he : e = 117
          case neg =>
            refine .inr ⟨[escaped e], rest, ⟨?_, ?_, gdLoop_short he rest⟩, gdUnescape_short he rest⟩
            · simp only [List.length_cons, List.length_nil]
              omega
            · simp only [List.length_cons]
              omega
          subst he
          rcases rest with _ | ⟨h₁, _ | ⟨h₂, _ | ⟨h₃, _ | ⟨h₄, rest⟩⟩⟩⟩
          case cons.cons.cons.cons => exact gd_unicode h₁ h₂ h₃ h₄ rest
          all_goals
            exact .inl ⟨fun p => by rw [gdUnescapeLoop.eq_def]; rfl, by rw [gdUnescape.eq_def]; rfl⟩

theorem gdLoop_wrote (s : Bytes) {p : Pen UInt8} (hroom : p.pos + s.length ≤ p.cells.length) :
    (gdUnescapeLoop s p = some .refused ∧ gdUnescape s = none) ∨
      ∃ xs r, gdUnescapeLoop s p = some (.done r) ∧ gdUnescape s = some xs ∧ p.Wrote xs r ∧
        xs.length ≤ s.length := by
  refine @Pen.loop_wrote _ _ gdUnescapeLoop .done .refused (fun s t => gdUnescape s = t)
    (fun _ => rfl) (by rw [gdUnescape]) (fun s hs => ?_) s p hroom
  rcases gd_turn hs with h | ⟨xs, rest, hturn, heq⟩
  · exact .inl h
  · refine .inr ⟨xs, rest, hturn, ?_⟩
    rintro t rfl
    exact heq

/-! ## `geistd_tokenize` -/

theorem tokenizeByte_wrote {p : Pen UInt8} (c : UInt8) (hroom : p.pos + 7 ≤ p.cells.length) :
    ∃ r, tokenizeByte p c = some r ∧ p.Wrote (tokenizeEscape c) r := by
  unfold tokenizeByte tokenizeEscape
  have hputs : ∀ xs : Bytes, xs.length ≤ 7 → ∃ r, p.puts xs = some r ∧ p.Wrote xs r :=
    fun xs h => Pen.puts_wrote xs (by omega)
  split
  · exact hputs [92, c] (by simp)
  · split
    · exact hputs [92, 110] (by decide)
    · split
      · have hsix : (unicodeEscape c).length = 6 := rfl
        obtain ⟨r, hprint, hr, -⟩ := Pen.print_wrote (p := p) (unicodeEscape c) 0
          (by rw [hsix]; omega)
        exact ⟨r, by rw [snprintf, if_pos (by rw [hsix]; decide), hprint], hr⟩
      · rw [put_eq]
        exact hputs [c] (by simp)

theorem tokenizeEscape_length (c : UInt8) :
    (tokenizeEscape c).length ≤ 6 := by
  unfold tokenizeEscape
  split
  · exact (by decide : 2 ≤ 6)
  · split
    · exact (by decide : 2 ≤ 6)
    · split
      · exact Nat.le_refl 6
      · exact (by decide : 1 ≤ 6)

/-- Six cells for a byte, and one for the NUL behind a control character. -/
theorem tokenizeBytes_wrote (text : Bytes) :
    ∀ {p : Pen UInt8}, p.pos + 6 * text.length + 1 ≤ p.cells.length →
      ∃ r, text.foldlM tokenizeByte p = some r ∧ p.Wrote (text.flatMap tokenizeEscape) r ∧
        (text.flatMap tokenizeEscape).length ≤ 6 * text.length := by
  induction text with
  | nil =>
      intro p hroom
      refine ⟨p, rfl, ⟨rfl, rfl, ?_, (List.append_nil _).symm⟩, Nat.le_refl _⟩
      simp only [List.length_nil] at hroom
      omega
  | cons c text ih =>
      intro p hroom
      rw [List.length_cons] at hroom
      have hesc := tokenizeEscape_length c
      obtain ⟨q, hone, hq⟩ := tokenizeByte_wrote (p := p) c (by omega)
      obtain ⟨r, hrest, hr, hlen⟩ := ih (p := q) (by rw [hq.pos, hq.length]; omega)
      refine ⟨r, ?_, ?_, ?_⟩
      · rw [List.foldlM_cons, hone]
        exact hrest
      · rw [List.flatMap_cons]
        exact hq.trans hr
      · rw [List.flatMap_cons, List.length_append, List.length_cons]
        omega

/-! ## The three copies -/

/-- The terminator behind what a loop wrote, into cells that are one more than the text. -/
theorem terminated {cells s xs : Bytes} {r : Pen UInt8} (hcells : cells.length = s.length + 1)
    (hr : Pen.Wrote ⟨cells, 0⟩ xs r) (hlen : xs.length ≤ s.length) :
    ∃ r', r.put 0 = some r' ∧ r'.cells.length = cells.length ∧
      r'.cells.take r'.pos = xs ++ [0] := by
  have hpos : r.pos = 0 + xs.length := hr.pos
  have hlength : r.cells.length = cells.length := hr.length
  obtain ⟨r', hput, hr'⟩ := r.put_wrote 0 (by omega)
  refine ⟨r', hput, hr'.length.trans hlength, ?_⟩
  rw [hr'.written, hr.written]
  rfl

/-- Whatever the token's text, `json_strdup` stays in the memory of one byte more. -/
theorem jsonStrdup_fits {cells s : Bytes} (hcells : cells.length = s.length + 1) :
    ∃ xs r, jsonStrdup cells s = some r ∧ r.cells.length = cells.length ∧
      r.cells.take r.pos = xs ++ [0] ∧ (Quotable s → xs = unescape s) := by
  obtain ⟨xs, r, hrun, hxs, hr, hlen⟩ := strdupLoop_wrote s (p := ⟨cells, 0⟩)
    (by show 0 + s.length ≤ cells.length; omega)
  obtain ⟨r', hput, hlength, htext⟩ := terminated hcells hr hlen
  exact ⟨xs, r', by rw [jsonStrdup, hrun]; exact hput, hlength, htext, hxs⟩

/-- And so does `gd_unescape`, which copies what `gdUnescape` says, or refuses. -/
theorem gdUnescapeCopy_fits {cells s : Bytes} (hcells : cells.length = s.length + 1) :
    (gdUnescapeCopy cells s = some .refused ∧ gdUnescape s = none) ∨
      ∃ xs r, gdUnescapeCopy cells s = some (.done r) ∧ gdUnescape s = some xs ∧
        r.cells.length = cells.length ∧ r.cells.take r.pos = xs ++ [0] := by
  have hroom : (Pen.mk cells 0).pos + s.length ≤ (Pen.mk cells 0).cells.length := by
    show 0 + s.length ≤ cells.length
    omega
  rcases gdLoop_wrote s hroom with ⟨hrun, hno⟩ | ⟨xs, r, hrun, hxs, hr, hlen⟩
  · exact .inl ⟨by rw [gdUnescapeCopy, hrun]; rfl, hno⟩
  · obtain ⟨r', hput, hlength, htext⟩ := terminated hcells hr hlen
    refine .inr ⟨xs, r', ?_, hxs, hlength, htext⟩
    rw [gdUnescapeCopy, hrun]
    show (r.put 0).map _ = _
    rw [hput]
    rfl

/-- The header of `geistd_tokenize`, in six bytes for each of the text and 32 more. -/
theorem tokenizeCopy_fits {cells text : Bytes} (hcells : cells.length = (cstr text).length * 6 + 32) :
    ∃ r, tokenizeCopy cells text = some r ∧ r.cells.length = cells.length ∧
      r.cells.take (r.pos + 1) = lit "\x7b\"op\":\"tokenize\",\"text\":\"" ++
        (cstr text).flatMap tokenizeEscape ++ lit "\"\x7d" ++ [0] := by
  have hopen : (lit "\x7b\"op\":\"tokenize\",\"text\":\"").length = 25 := by decide
  have hclose : (lit "\"\x7d").length = 2 := by decide
  obtain ⟨p, hprint, hp, -⟩ := Pen.print_wrote (p := ⟨cells, 0⟩)
    (lit "\x7b\"op\":\"tokenize\",\"text\":\"") 0
    (by show 0 + _ < cells.length; omega)
  have hpos : p.pos = 0 + 25 := hp.pos.trans (by rw [hopen])
  have hlength : p.cells.length = cells.length := hp.length
  obtain ⟨q, hbytes, hq, hlen⟩ := tokenizeBytes_wrote (cstr text) (p := p) (by omega)
  have hqpos := hq.pos
  have hqlength := hq.length
  obtain ⟨r, hend, hr, hall⟩ := Pen.print_wrote (p := q) (lit "\"\x7d") 0 (by omega)
  refine ⟨r, ?_, hr.length.trans (hqlength.trans hlength), ?_⟩
  · unfold tokenizeCopy
    simp only []
    rw [snprintf, if_pos (by omega), hprint]
    show ((cstr text).foldlM tokenizeByte p >>= _) = _
    rw [hbytes]
    exact hend
  · rw [hall, hq.written, hp.written]
    rfl

/-- The decoders write to the places 0 to `n` of their memory for a token of `n` bytes, and the
encoder to the `6 n + 32` that it allocated, for every mix of bytes and escapes; and there
stands, in front of a NUL, what the other modules say of a text that was accepted. -/
theorem copies_stay_inside :
    (∀ cells s : Bytes, cells.length = s.length + 1 →
      ∃ xs r, jsonStrdup cells s = some r ∧ r.cells.length = cells.length ∧
        r.cells.take r.pos = xs ++ [0] ∧ (Quotable s → xs = unescape s)) ∧
    (∀ cells s : Bytes, cells.length = s.length + 1 →
      (gdUnescapeCopy cells s = some .refused ∧ gdUnescape s = none) ∨
        ∃ xs r, gdUnescapeCopy cells s = some (.done r) ∧ gdUnescape s = some xs ∧
          r.cells.length = cells.length ∧ r.cells.take r.pos = xs ++ [0]) ∧
    ∀ cells text : Bytes, cells.length = (cstr text).length * 6 + 32 →
      ∃ r, tokenizeCopy cells text = some r ∧ r.cells.length = cells.length ∧
        ∀ header, gdTokenize (cstr text) = some header →
          r.cells.take (r.pos + 1) = header ++ [0] := by
  refine ⟨fun cells s h => jsonStrdup_fits h, fun cells s h => gdUnescapeCopy_fits h,
    fun cells text h => ?_⟩
  obtain ⟨r, hrun, hlength, htext⟩ := tokenizeCopy_fits h
  refine ⟨r, hrun, hlength, fun header hheader => ?_⟩
  unfold gdTokenize at hheader
  split at hheader
  · cases hheader
  · cases hheader
    exact htext

/-- A pair, an escape that is cut short, and one of no digits. -/
def oddText : Bytes := lit "\\uD83D\\uDE00\\u- 1z\\u12"

theorem copies_stay_inside_odd :
    (∃ xs r, jsonStrdup (List.replicate (oddText.length + 1) 7) oddText = some r ∧
      r.cells.length = (List.replicate (oddText.length + 1) (7 : UInt8)).length ∧
      r.cells.take r.pos = xs ++ [0] ∧ (Quotable oddText → xs = unescape oddText)) ∧
    ∃ r, tokenizeCopy (List.replicate 62 7) (lit "a\"\n\tz") = some r ∧
      r.cells.length = (List.replicate 62 (7 : UInt8)).length ∧
      ∀ header, gdTokenize (cstr (lit "a\"\n\tz")) = some header →
        r.cells.take (r.pos + 1) = header ++ [0] :=
  ⟨copies_stay_inside.1 _ _ (List.length_replicate), copies_stay_inside.2.2 _ _ (by decide)⟩

end GeistServe.Client
