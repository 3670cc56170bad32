import GeistServe.Client.Framing
import GeistServe.Json.Writer

/-!
# Strings in the client

The client reads a reply's header with the tokenizer of the daemon but with
helpers of its own: `gd_find` looks under the root only, and `gd_unescape` refuses
a `\u` escape that is no character. It also has a second escape writer, the one in
`geistd_tokenize`.
-/

namespace GeistServe.Client

open GeistServe.Lib GeistServe.Geistd GeistServe.Json

/-! ## Reading -/

def GD_TOK_CAP : Nat := 4096

/-- The end of `gd_recv`: the tokens of a header. Unlike `json_parse` it does not
look for tokens behind the root. -/
def gdParse (hdr : Bytes) : Option Doc :=
  match jsmnParse GD_TOK_CAP hdr with
  | .error _ => none
  | .ok toks => if (toks.head?).any (·.type == .object) then some ⟨hdr, toks⟩ else none

/-- `gd_find`. -/
def gdFind (j : Doc) (key : Bytes) : Option Nat := j.find 0 key 1 (j.tok.drop 1)

/-- The code point of four hexadecimal digits. -/
def gdHex (h₁ h₂ h₃ h₄ : UInt8) : Option Nat :=
  if isHex h₁ && isHex h₂ && isHex h₃ && isHex h₄ then some (hexNum [h₁, h₂, h₃, h₄]) else none

/-- `gd_unescape`, with memory taken to be there. Whatever else `strtoul` reads
from four characters is below 0xDC00 or above 0xDFFF, and refused as well. -/
def gdUnescape : Bytes → Option Bytes
  | [] => some []
  | c :: rest =>
      if c ≠ 92 then (gdUnescape rest).map (c :: ·)
      else match rest with
        | [] => some [c]
        | e :: rest =>
            if e ≠ 117 then (gdUnescape rest).map (escaped e :: ·)
            else match rest with
              | h₁ :: h₂ :: h₃ :: h₄ :: rest =>
                  match gdHex h₁ h₂ h₃ h₄ with
                  | none => none
                  | some cp =>
                      if 0xD800 ≤ cp ∧ cp ≤ 0xDBFF then
                        match rest with
                        | 92 :: 117 :: l₁ :: l₂ :: l₃ :: l₄ :: rest' =>
                            match gdHex l₁ l₂ l₃ l₄ with
                            | none => none
                            | some lo =>
                                if lo < 0xDC00 ∨ 0xDFFF < lo then none
                                else (gdUnescape rest').map (utf8 (pair cp lo) ++ ·)
                        | _ => none
                      else if 0xDC00 ≤ cp ∧ cp ≤ 0xDFFF then none
                      else (gdUnescape rest).map (utf8 cp ++ ·)
              | _ => none

/-- The string under a key, as `geistd_generate` and `geistd_strs` copy it out: up
to its first NUL. -/
def gdString (j : Doc) (t : Option Nat) : Option Bytes :=
  (j.str? t).bind fun t => (gdUnescape (j.text t)).map (·.takeWhile (· ≠ 0))

/-! ## Writing -/

/-- One byte of the text in `geistd_tokenize`. -/
def tokenizeEscape (c : UInt8) : Bytes :=
  if c = 34 ∨ c = 92 then [92, c] else if c = 10 then [92, 110]
  else if c < 32 then unicodeEscape c else [c]

/-- The header that `geistd_tokenize` sends; no text of more than 64 KiB. -/
def gdTokenize (text : Bytes) : Option Bytes :=
  if text.length > 64 <<< 10 then none
  else some (lit "\x7b\"op\":\"tokenize\",\"text\":\"" ++ text.flatMap tokenizeEscape ++ lit "\"\x7d")

theorem tokenizeEscape_spelled (c : UInt8) : Spelled c (tokenizeEscape c) := by
  by_cases hnl : c = 10
  · subst hnl
    exact .short (by decide) rfl
  · have hesc : tokenizeEscape c = gdEscape c := by
      rw [tokenizeEscape, if_neg hnl, gdEscape]
    rw [hesc]
    exact gdEscape_spelled c

/-! ## What gd_unescape makes of an escape -/

theorem gdUnescape_plain {c : UInt8} (hc : c ≠ 92) (rest : Bytes) :
    gdUnescape (c :: rest) = (gdUnescape rest).map (c :: ·) := by
  rw [gdUnescape.eq_def]
  exact if_pos hc

theorem gdUnescape_short {e : UInt8} (he : e ≠ 117) (rest : Bytes) :
    gdUnescape (92 :: e :: rest) = (gdUnescape rest).map (escaped e :: ·) := by
  rw [gdUnescape.eq_def]
  exact if_pos he

/-- A `\u` escape of a character. -/
theorem gdUnescape_unicode {h₁ h₂ h₃ h₄ : UInt8} {rest : Bytes}
    (hx : (isHex h₁ && isHex h₂ && isHex h₃ && isHex h₄) = true)
    (hcp : ¬ (0xD800 ≤ hexNum [h₁, h₂, h₃, h₄] ∧ hexNum [h₁, h₂, h₃, h₄] ≤ 0xDFFF)) :
    gdUnescape (92 :: 117 :: h₁ :: h₂ :: h₃ :: h₄ :: rest) =
      (gdUnescape rest).map (utf8 (hexNum [h₁, h₂, h₃, h₄]) ++ ·) := by
  have hhex : gdHex h₁ h₂ h₃ h₄ = some (hexNum [h₁, h₂, h₃, h₄]) := if_pos hx
  rw [gdUnescape.eq_def]
  simp only [ne_eq, not_true_eq_false, if_false, hhex]
  rw [if_neg (by omega), if_neg (by omega)]

theorem gdUnescape_spelled {c : UInt8} {s : Bytes} (h : Spelled c s) (rest : Bytes) :
    gdUnescape (s ++ rest) = (gdUnescape rest).map (c :: ·) := by
  cases h with
  | plain hc => exact gdUnescape_plain hc.2.2 rest
  | @short e he hc =>
      have hu : e ≠ 117 := by
        rintro rfl
        exact absurd he (by decide)
      rw [List.cons_append, List.singleton_append, gdUnescape_short hu, hc]
  | unicode hlow =>
      have hlt : c.toNat < 32 := hlow
      have hnum := hexNum_byte hlow
      show gdUnescape (92 :: 117 :: 48 :: 48 :: hexDigit (c.toNat / 16) ::
        hexDigit (c.toNat % 16) :: rest) = _
      rw [gdUnescape_unicode (unicodeEscape_hex hlow) (by omega), hnum,
        utf8_byte (Nat.lt_trans hlt (by decide))]
      rfl

/-- The client reads back what any of the writers wrote. -/
theorem gdUnescape_flatMap {esc : UInt8 → Bytes} (h : ∀ c, Spelled c (esc c)) (s : Bytes) :
    gdUnescape (s.flatMap esc) = some s := by
  induction s with
  | nil => rw [List.flatMap_nil, gdUnescape]
  | cons c s ih => rw [List.flatMap_cons, gdUnescape_spelled (h c), ih, Option.map_some]

end GeistServe.Client
