import GeistServe.Json.Tree
import GeistServe.Geistd.Wire

/-!
# Writing strings

The two escape writers: `gd_put_json` of the client and `sb_json_str` of the
daemon. Both escape quotes, backslashes and control characters and leave every
other byte as it is; the daemon has a short form for three of the control
characters.
-/

namespace GeistServe.Json

open GeistServe.Lib GeistServe.Geistd

/-- A digit of `%04x`. -/
def hexDigit (n : Nat) : UInt8 := if n < 10 then UInt8.ofNat (48 + n) else UInt8.ofNat (87 + n)

/-- `\u%04x` of a byte below 0x20. -/
def unicodeEscape (c : UInt8) : Bytes :=
  [92, 117, 48, 48, hexDigit (c.toNat / 16), hexDigit (c.toNat % 16)]

/-- One byte in `gd_put_json`. -/
def gdEscape (c : UInt8) : Bytes :=
  if c = 34 ∨ c = 92 then [92, c] else if c < 32 then unicodeEscape c else [c]

/-- One byte in `sb_json_str`. -/
def sbEscape (c : UInt8) : Bytes :=
  if c = 34 then [92, 34] else if c = 92 then [92, 92] else if c = 10 then [92, 110]
  else if c = 13 then [92, 114] else if c = 9 then [92, 116]
  else if c < 32 then unicodeEscape c else [c]

/-- `gd_put_json`, of a C string. -/
def gdPutJson (s : Bytes) : Bytes := 34 :: (s.flatMap gdEscape ++ [34])

/-- `sb_json_str`, of a buffer. -/
def sbJsonStr (s : Bytes) : Bytes := 34 :: (s.flatMap sbEscape ++ [34])

/-! ## What a reader makes of it -/

/-- An escape that is read back as its byte, whatever comes behind it. -/
structure Escapes (esc : UInt8 → Bytes) (c : UInt8) : Prop where
  quotable : ∀ rest, Quotable rest → Quotable (esc c ++ rest)
  read : ∀ rest, unescape (esc c ++ rest) = c :: unescape rest

theorem unescape_plain {c : UInt8} (hc : c ≠ 92) (rest : Bytes) :
    unescape (c :: rest) = c :: unescape rest := by
  rw [unescape.eq_def]
  simp only [ne_eq, hc, not_false_eq_true, if_true]

theorem unescape_short {e : UInt8} (he : e ≠ 117) (rest : Bytes) :
    unescape (92 :: e :: rest) = escaped e :: unescape rest := by
  rw [unescape.eq_def]
  simp only [ne_eq, not_true_eq_false, if_false, he, not_false_eq_true, if_true]

/-- A `\u` escape that is no high surrogate. -/
theorem unescape_unicode {h₁ h₂ h₃ h₄ : UInt8} {rest : Bytes}
    (hcp : ¬ (0xD800 ≤ hexNum [h₁, h₂, h₃, h₄] ∧ hexNum [h₁, h₂, h₃, h₄] ≤ 0xDBFF)) :
    unescape (92 :: 117 :: h₁ :: h₂ :: h₃ :: h₄ :: rest) =
      utf8 (hexNum [h₁, h₂, h₃, h₄]) ++ unescape rest := by
  rw [unescape.eq_def]
  exact if_neg hcp

/-- A high surrogate without a `\u` escape behind it. -/
theorem unescape_high {h₁ h₂ h₃ h₄ : UInt8} {rest : Bytes}
    (hcp : 0xD800 ≤ hexNum [h₁, h₂, h₃, h₄] ∧ hexNum [h₁, h₂, h₃, h₄] ≤ 0xDBFF)
    (hlone : ∀ l₁ l₂ l₃ l₄ rest', rest = 92 :: 117 :: l₁ :: l₂ :: l₃ :: l₄ :: rest' → False) :
    unescape (92 :: 117 :: h₁ :: h₂ :: h₃ :: h₄ :: rest) =
      utf8 (hexNum [h₁, h₂, h₃, h₄]) ++ unescape rest := by
  rw [unescape.eq_def]
  simp only [ne_eq, not_true_eq_false, if_false, if_pos hcp]

/-- A `\u` with less than four characters behind it. -/
theorem unescape_cut {rest : Bytes}
    (hshort : ∀ h₁ h₂ h₃ h₄ rest', rest = h₁ :: h₂ :: h₃ :: h₄ :: rest' → False) :
    unescape (92 :: 117 :: rest) = unescape rest := by
  rw [unescape.eq_def]
  simp only [ne_eq, not_true_eq_false, if_false]

theorem hexDigit_isHex : ∀ n < 16, isHex (hexDigit n) = true := by decide

theorem hexVal_hexDigit : ∀ n < 16, hexVal (hexDigit n) = n := by decide

theorem hexNum_byte {c : UInt8} (h : c < 32) :
    hexNum [48, 48, hexDigit (c.toNat / 16), hexDigit (c.toNat % 16)] = c.toNat := by
  have hlt : c.toNat < 32 := h
  have hzero : hexVal 48 = 0 := rfl
  simp only [hexNum, List.foldl_cons, List.foldl_nil, hzero,
    hexVal_hexDigit (c.toNat / 16) (by omega), hexVal_hexDigit (c.toNat % 16) (by omega)]
  omega

/-- The three ways to write a byte: as it is, by a short escape, by a `\u` escape. -/
inductive Spelled (c : UInt8) : Bytes → Prop where
  | plain (hc : c ≠ 0 ∧ c ≠ 34 ∧ c ≠ 92) : Spelled c [c]
  | short {e : UInt8}
      (he : e = 34 ∨ e = 47 ∨ e = 92 ∨ e = 98 ∨ e = 102 ∨ e = 114 ∨ e = 110 ∨ e = 116)
      (hc : escaped e = c) : Spelled c [92, e]
  | unicode (hlow : c < 32) : Spelled c (unicodeEscape c)

theorem unicodeEscape_hex {c : UInt8} (h : c < 32) : (isHex 48 && isHex 48 &&
    isHex (hexDigit (c.toNat / 16)) && isHex (hexDigit (c.toNat % 16))) = true := by
  have hlt : c.toNat < 32 := h
  rw [hexDigit_isHex (c.toNat / 16) (by omega), hexDigit_isHex (c.toNat % 16) (by omega)]
  rfl

theorem utf8_byte {c : UInt8} (h : c < 128) : utf8 c.toNat = [c] := by
  have hlt : c.toNat < 128 := h
  rw [utf8, if_pos hlt, UInt8.ofNat_toNat]

theorem Spelled.escapes {esc : UInt8 → Bytes} {c : UInt8} (h : Spelled c (esc c)) :
    Escapes esc c := by
  generalize hesc : esc c = s at h
  cases h with
  | plain hc =>
      constructor
      · intro rest hrest
        rw [hesc]
        exact .plain hc hrest
      · intro rest
        rw [hesc, List.singleton_append, unescape_plain hc.2.2]
  | @short e he hc =>
      have hu : e ≠ 117 := by
        rintro rfl
        exact absurd he (by decide)
      constructor
      · intro rest hrest
        rw [hesc]
        exact .short he hrest
      · intro rest
        rw [hesc, List.cons_append, List.singleton_append, unescape_short hu, hc]
  | unicode hlow =>
      have hlt : c.toNat < 32 := hlow
      constructor
      · intro rest hrest
        rw [hesc]
        exact .unicode (unicodeEscape_hex hlow) hrest
      · intro rest
        have hnum := hexNum_byte hlow
        rw [hesc]
        show unescape (92 :: 117 :: 48 :: 48 :: hexDigit (c.toNat / 16) ::
          hexDigit (c.toNat % 16) :: rest) = _
        rw [unescape_unicode (by omega), hnum, utf8_byte (Nat.lt_trans hlt (by decide)),
          List.singleton_append]

theorem gdEscape_spelled (c : UInt8) : Spelled c (gdEscape c) := by
  by_cases hquote : c = 34 ∨ c = 92
  · rw [gdEscape, if_pos hquote]
    rcases hquote with rfl | rfl
    · exact .short (by decide) rfl
    · exact .short (by decide) rfl
  · rw [gdEscape, if_neg hquote]
    rw [not_or] at hquote
    split
    · next hlow => exact .unicode hlow
    · next hlow =>
        refine .plain ⟨?_, hquote⟩
        rintro rfl
        exact hlow (by decide)

theorem sbEscape_spelled (c : UInt8) : Spelled c (sbEscape c) := by
  unfold sbEscape
  split
  · next h => subst h; exact .short (by decide) rfl
  · next h34 =>
      split
      · next h => subst h; exact .short (by decide) rfl
      · next h92 =>
          split
          · next h => subst h; exact .short (by decide) rfl
          · split
            · next h => subst h; exact .short (by decide) rfl
            · split
              · next h => subst h; exact .short (by decide) rfl
              · split
                · next hlow => exact .unicode hlow
                · next hlow =>
                    refine .plain ⟨?_, h34, h92⟩
                    rintro rfl
                    exact hlow (by decide)

theorem gdEscape_escapes (c : UInt8) : Escapes gdEscape c := (gdEscape_spelled c).escapes

theorem sbEscape_escapes (c : UInt8) : Escapes sbEscape c := (sbEscape_spelled c).escapes

/-- A string that was written by escapes is read back. -/
theorem Escapes.flatMap {esc : UInt8 → Bytes} (h : ∀ c, Escapes esc c) (s : Bytes) :
    Quotable (s.flatMap esc) ∧ unescape (s.flatMap esc) = s := by
  induction s with
  | nil => exact ⟨.nil, by rw [List.flatMap_nil, unescape]⟩
  | cons c s ih =>
      obtain ⟨hq, hr⟩ := ih
      rw [List.flatMap_cons]
      exact ⟨(h c).quotable _ hq, by rw [(h c).read, hr]⟩

/-! ## Numbers -/

theorem utf8EncodeChar_digit {c : Char} (h : c.isDigit = true) :
    ∃ b, String.utf8EncodeChar c = [b] ∧ 48 ≤ b ∧ b ≤ 57 := by
  have hdigit : 48 ≤ c.toNat ∧ c.toNat ≤ 57 := Char.isDigit_iff_toNat.mp h
  have hc : c = Char.ofNat c.toNat := (Char.ofNat_toNat c).symm
  generalize c.toNat = n at hdigit hc
  subst hc
  have hall : ∀ n < 58, 48 ≤ n → ∃ b ∈ [48, 49, 50, 51, 52, 53, 54, 55, 56, 57],
      String.utf8EncodeChar (Char.ofNat n) = [b] ∧ (48 : UInt8) ≤ b ∧ b ≤ 57 := by decide
  obtain ⟨b, _, hb⟩ := hall n (by omega) hdigit.1
  exact ⟨b, hb⟩

/-- A number is written in digits. -/
theorem decimal_digits (n : Nat) : ∀ b ∈ lit (toString n), 48 ≤ b ∧ b ≤ 57 := by
  intro b hb
  rw [lit, Nat.toString_eq_repr, Nat.toList_repr, List.mem_flatMap] at hb
  obtain ⟨c, hc, hb⟩ := hb
  obtain ⟨d, hd, hdigit⟩ :=
    utf8EncodeChar_digit (Nat.isDigit_of_mem_toDigits (by decide) (by decide) hc)
  rw [hd, List.mem_singleton] at hb
  exact hb ▸ hdigit

end GeistServe.Json
