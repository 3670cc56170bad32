import GeistServe.Lib.Cells
import GeistServe.Client.Strings
import GeistServe.Geistd.Main

/-!
# The three copies of a string, cell by cell

`json_strdup`, `gd_unescape` and `geistd_tokenize` each allocate a piece of memory whose size
they work out beforehand, and then fill it with a pointer that only goes forward. Here each
loop writes into the cells it was given, whatever they hold, and a write behind them has no
result. Malformed escapes are read as the source reads them, by `strtoul` on four characters.
-/

namespace GeistServe.Client

open GeistServe.Lib GeistServe.Geistd GeistServe.Json

/-- The first of some characters, or the NUL behind them. -/
def charAt (cs : Bytes) : UInt8 := cs.head?.getD 0

/-- Behind a sign. -/
def behindSign (cs : Bytes) : Bytes := if charAt cs = 45 ∨ charAt cs = 43 then cs.tail else cs

/-- Behind a `0x`, if a digit follows. -/
def behind0x : Bytes → Bytes
  | 48 :: x :: h :: rest =>
      if (x = 120 ∨ x = 88) ∧ isHex h then h :: rest else 48 :: x :: h :: rest
  | cs => cs

/-- `strtoul` to the base 16, cut to an `unsigned`: blanks, a sign, `0x`, digits. With the
value comes what is left behind the number. -/
def strtoul16 (cs : Bytes) : Nat × Bytes :=
  let text := cs.dropWhile isSpace
  let digits := behind0x (behindSign text)
  let v := hexNum (digits.takeWhile isHex)
  (if charAt text = 45 then (2 ^ 64 - v) % 2 ^ 32 else v % 2 ^ 32,
    if digits.takeWhile isHex = [] then cs else digits.dropWhile isHex)

/-! ## `json_strdup` -/

/-- The loop: what is left of the token, and the pen `out[o++]`. -/
def strdupLoop : Bytes → Pen UInt8 → Option (Pen UInt8)
  | [], p => some p
  | c :: rest, p =>
      if c ≠ 92 then (p.put c).bind (strdupLoop rest)
      else match rest with
        | [] => p.put c
        | e :: rest =>
            if e ≠ 117 then (p.put (escaped e)).bind (strdupLoop rest)
            else match rest with
              | h₁ :: h₂ :: h₃ :: h₄ :: rest =>
                  let cp := (strtoul16 [h₁, h₂, h₃, h₄]).1
                  if 0xD800 ≤ cp ∧ cp ≤ 0xDBFF then
                    match rest with
                    | 92 :: 117 :: l₁ :: l₂ :: l₃ :: l₄ :: rest' =>
                        let lo := (strtoul16 [l₁, l₂, l₃, l₄]).1
                        if 0xDC00 ≤ lo ∧ lo ≤ 0xDFFF then
                          (p.puts (utf8 (pair cp lo))).bind (strdupLoop rest')
                        else (p.puts (utf8 cp)).bind
                          (strdupLoop (92 :: 117 :: l₁ :: l₂ :: l₃ :: l₄ :: rest'))
                    | rest => (p.puts (utf8 cp)).bind (strdupLoop rest)
                  else (p.puts (utf8 cp)).bind (strdupLoop rest)
              | rest => strdupLoop rest p -- four characters are not there, and none is skipped

theorem put_eq (p : Pen UInt8) (c : UInt8) : p.put c = p.puts [c] := by
  rw [Pen.puts_cons]
  cases p.put c <;> rfl

theorem strdupLoop_plain {c : UInt8} (hc : c ≠ 92) (rest : Bytes) (p : Pen UInt8) :
    strdupLoop (c :: rest) p = (p.puts [c]).bind (strdupLoop rest) := by
  rw [strdupLoop.eq_def]
  simp only [ne_eq, hc, not_false_eq_true, if_true, put_eq]

theorem strdupLoop_last (p : Pen UInt8) : strdupLoop [92] p = (p.puts [92]).bind (strdupLoop []) := by
  rw [strdupLoop.eq_def]
  simp only [ne_eq, not_true_eq_false, if_false, put_eq]
  cases p.puts [92] <;> rfl

theorem strdupLoop_short {e : UInt8} (he : e ≠ 117) (rest : Bytes) (p : Pen UInt8) :
    strdupLoop (92 :: e :: rest) p = (p.puts [escaped e]).bind (strdupLoop rest) := by
  rw [strdupLoop.eq_def]
  simp only [ne_eq, not_true_eq_false, if_false, he, not_false_eq_true, if_true, put_eq]

/-- `json_strdup` of a token's text, into fresh memory. -/
def jsonStrdup (cells s : Bytes) : Option (Pen UInt8) :=
  (strdupLoop s ⟨cells, 0⟩).bind (·.put 0)

/-! ## `gd_unescape` -/

/-- The copy, or the memory freed and a null pointer. -/
inductive Copied where
  | done (p : Pen UInt8)
  | refused

/-- The loop, with the tests of a `\u` escape in the order of the source. -/
def gdUnescapeLoop : Bytes → Pen UInt8 → Option Copied
  | [], p => some (.done p)
  | c :: rest, p =>
      if c ≠ 92 then (p.put c).bind (gdUnescapeLoop rest)
      else match rest with
        | [] => (p.put c).map .done
        | e :: rest =>
            if e ≠ 117 then (p.put (escaped e)).bind (gdUnescapeLoop rest)
            else match rest with
              | h₁ :: h₂ :: h₃ :: h₄ :: rest =>
                  match gdHex h₁ h₂ h₃ h₄ with
                  | none => some .refused
                  | some cp =>
                      if 0xD800 ≤ cp ∧ cp ≤ 0xDBFF then
                        match rest with
                        | 92 :: 117 :: l₁ :: l₂ :: l₃ :: l₄ :: rest' =>
                            let low := strtoul16 [l₁, l₂, l₃, l₄]
                            if charAt low.2 ≠ 0 ∨ low.1 < 0xDC00 ∨ 0xDFFF < low.1 then some .refused
                            else (p.puts (utf8 (pair cp low.1))).bind (gdUnescapeLoop rest')
                        | _ => some .refused
                      else if 0xDC00 ≤ cp ∧ cp ≤ 0xDFFF then some .refused
                      else (p.puts (utf8 cp)).bind (gdUnescapeLoop rest)
              | _ => some .refused

theorem gdLoop_plain {c : UInt8} (hc : c ≠ 92) (rest : Bytes) (p : Pen UInt8) :
    gdUnescapeLoop (c :: rest) p = (p.puts [c]).bind (gdUnescapeLoop rest) := by
  rw [gdUnescapeLoop.eq_def]
  simp only [ne_eq, hc, not_false_eq_true, if_true, put_eq]

theorem gdLoop_last (p : Pen UInt8) :
    gdUnescapeLoop [92] p = (p.puts [92]).bind (gdUnescapeLoop []) := by
  rw [gdUnescapeLoop.eq_def]
  simp only [ne_eq, not_true_eq_false, if_false, put_eq]
  cases p.puts [92] <;> rfl

theorem gdLoop_short {e : UInt8} (he : e ≠ 117) (rest : Bytes) (p : Pen UInt8) :
    gdUnescapeLoop (92 :: e :: rest) p = (p.puts [escaped e]).bind (gdUnescapeLoop rest) := by
  rw [gdUnescapeLoop.eq_def]
  simp only [ne_eq, not_true_eq_false, if_false, he, not_false_eq_true, if_true, put_eq]

/-- `gd_unescape`. -/
def gdUnescapeCopy (cells s : Bytes) : Option Copied :=
  (gdUnescapeLoop s ⟨cells, 0⟩).bind fun
    | .done p => (p.put 0).map .done
    | .refused => some .refused

/-! ## `geistd_tokenize` -/

/-- `snprintf` of a text to where the pen is, which moves by the whole length of the text. -/
def snprintf (p : Pen UInt8) (size : Nat) (text : Bytes) : Option (Pen UInt8) :=
  if text.length < size then p.print text 0
  else (p.print (text.take (size - 1)) 0).map fun q => { q with pos := p.pos + text.length }

/-- One byte of the text. -/
def tokenizeByte (p : Pen UInt8) (c : UInt8) : Option (Pen UInt8) :=
  if c = 34 ∨ c = 92 then p.puts [92, c]
  else if c = 10 then p.puts [92, 110]
  else if c < 32 then snprintf p 8 (unicodeEscape c)
  else p.put c

/-- The header, in the memory that is allocated for it. -/
def tokenizeCopy (cells text : Bytes) : Option (Pen UInt8) := do
  let text := cstr text
  let p ← snprintf ⟨cells, 0⟩ (text.length * 6 + 32) (lit "\x7b\"op\":\"tokenize\",\"text\":\"")
  let p ← text.foldlM tokenizeByte p
  p.print (lit "\"\x7d") 0

end GeistServe.Client
