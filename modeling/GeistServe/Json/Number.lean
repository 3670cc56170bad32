import GeistServe.Json.Reader
import GeistServe.Json.Writer
import GeistServe.Lib.Numeral

/-!
# Reading numbers

`json_num` and `json_bool`. A number is read by `strtod`, which takes more than JSON has:
a hexadecimal number, an infinity, a NaN. `strtod` starts at the token and stops where the
token ends, for no number has a comma, a bracket or a blank in it. It is not asked about
texts that start with a blank or a plus sign, so those are left out.
-/

namespace GeistServe.Json

open GeistServe.Lib GeistServe.Geistd

/-- The format of `double`. -/
def DOUBLE : Format := ⟨53, -1074, by decide⟩

/-- What a `double` can be. -/
def IsDouble : Double → Prop
  | .fin q => DOUBLE.Holds |q| ∧ |q| < 2 ^ 1024
  | _ => True

/-- The nearest double of a number that is not negative. -/
def toDouble (q : ℚ) : Double :=
  if DOUBLE.round q < 2 ^ 1024 then .fin (DOUBLE.round q) else .inf false

def negate : Double → Double
  | .fin q => .fin (-q)
  | .inf neg => .inf !neg
  | .nan => .nan

/-! ## `strtod` -/

def lower (c : UInt8) : UInt8 := if 65 ≤ c ∧ c ≤ 90 then c + 32 else c

/-- The digits in front of a hexadecimal point, those behind it, and the rest. -/
def readHex (s : Bytes) : Bytes × Bytes × Bytes :=
  match s.dropWhile isHex with
  | 46 :: r => (s.takeWhile isHex, r.takeWhile isHex, r.dropWhile isHex)
  | r => (s.takeWhile isHex, [], r)

/-- The exponent behind a `p`. -/
def readPower : Bytes → ℤ
  | [] => 0
  | c :: r =>
    if lower c = 112 then
      let n := (ofDigits (readDigits (readSign r).2).1 : ℤ)
      if (readSign r).1 then -n else n
    else 0

/-- A hexadecimal number. -/
def hexValue : Bytes → Option ℚ
  | 48 :: x :: s =>
    if lower x = 120 then
      let (int, frac, rest) := readHex s
      if int = [] ∧ frac = [] then none
      else some (hexNum (int ++ frac) * 2 ^ (readPower rest - 4 * frac.length))
    else none
  | _ => none

/-- `strtod` behind the sign. -/
def strtodUnsigned (s : Bytes) : Double :=
  if (s.take 3).map lower = lit "inf" then .inf false
  else if (s.take 3).map lower = lit "nan" then .nan
  else match hexValue s with
    | some q => toDouble q
    | none => match readNumeral s with
      | some a => toDouble a.value
      | none => .fin 0

/-- `strtod`. -/
def strtod (s : Bytes) : Double :=
  if (readSign s).1 then negate (strtodUnsigned (readSign s).2)
  else strtodUnsigned (readSign s).2

/-! ## The fields of a document -/

/-- The text of a token that is a primitive. -/
def Doc.prim? (j : Doc) (t : Option Nat) : Option Bytes :=
  ((t.bind (j.tok[·]?)).filter (·.type == .primitive)).map j.text

/-- `json_num`. -/
def Doc.num (j : Doc) (t : Option Nat) (dflt : Double) : Double :=
  match j.prim? t with
  | some (c :: s) => if c = 45 ∨ (48 ≤ c ∧ c ≤ 57) then strtod (c :: s) else dflt
  | _ => dflt

/-- `json_bool`. -/
def Doc.bool (j : Doc) (t : Option Nat) (dflt : Bool) : Bool :=
  match j.prim? t with
  | none => dflt
  | some s => decide (s.head? = some 116)

/-! ## Numbers that were written -/

/-- What a numeral is written with. -/
def NumeralByte (c : UInt8) : Prop := isDigit c = true ∨ c = 46 ∨ c = 101 ∨ c = 43 ∨ c = 45

theorem expText_bytes (e : Option ℤ) : ∀ c ∈ expText e, NumeralByte c := by
  intro c hc
  cases e with
  | none => cases hc
  | some e =>
      rw [expText] at hc
      rcases List.mem_cons.mp hc with rfl | hc
      · exact .inr (.inr (.inl rfl))
      · rcases List.mem_cons.mp hc with rfl | hc
        · split
          · exact .inr (.inr (.inr (.inr rfl)))
          · exact .inr (.inr (.inr (.inl rfl)))
        · exact .inl (expDigits_isDigit _ c hc)

/-- A digit in front, and nothing else in it. -/
def Written (s : Bytes) : Prop := (∃ c ∈ s.head?, isDigit c = true) ∧ ∀ c ∈ s, NumeralByte c

theorem written_digits {s : Bytes} (h : ∀ c ∈ s, isDigit c = true) (hne : s ≠ []) :
    Written s := by
  obtain ⟨c, r, rfl⟩ := List.exists_cons_of_ne_nil hne
  exact ⟨⟨c, rfl, h c (List.mem_cons_self ..)⟩, fun c hc => .inl (h c hc)⟩

theorem written_text {a : Numeral} (hint : ∀ c ∈ a.int, isDigit c = true)
    (hfrac : ∀ c ∈ a.frac, isDigit c = true) (hne : a.int ≠ []) : Written a.text := by
  constructor
  · obtain ⟨c, r, heq⟩ := List.exists_cons_of_ne_nil hne
    rw [Numeral.text, heq]
    exact ⟨c, rfl, hint c (heq ▸ List.mem_cons_self ..)⟩
  · intro c hc
    rw [Numeral.text] at hc
    rcases List.mem_append.mp hc with hc | hc
    · rcases List.mem_append.mp hc with hc | hc
      · exact .inl (hint c hc)
      · split at hc
        · cases hc
        · rcases List.mem_cons.mp hc with rfl | hc
          · exact .inr (.inl rfl)
          · exact .inl (hfrac c hc)
    · exact expText_bytes a.exp c hc

theorem written_general {n : ℕ} (hn : 0 < n) (x : ℚ) : Written (generalText n x) := by
  rw [generalText]
  split
  · exact written_digits (fun c hc => by
      rw [List.mem_singleton.mp hc]
      decide) (List.cons_ne_nil _ _)
  · obtain ⟨hint, hfrac, hne⟩ := general_digits (d := toDecimal n x) hn
    exact written_text hint hfrac hne

theorem NumeralByte.inPrim {c : UInt8} (h : NumeralByte c) : inPrim c := by
  have hdigit : ∀ c ∈ ([48, 49, 50, 51, 52, 53, 54, 55, 56, 57] : List UInt8),
      GeistServe.Json.inPrim c := by decide
  rcases h with h | rfl | rfl | rfl | rfl
  · exact hdigit c (isDigit_mem h)
  all_goals decide

/-- It is a primitive of JSON. -/
theorem Written.isPrim {s : Bytes} (h : Written s) : IsPrim s := by
  obtain ⟨⟨c, hc, hdigit⟩, hall⟩ := h
  refine ⟨⟨c, hc, .inr (.inl ?_)⟩, fun c hc => (hall c hc).inPrim⟩
  exact of_decide_eq_true hdigit

/-- There is no sign, no letter and no hexadecimal in it, so it is read as a numeral. -/
theorem Written.strtod {s : Bytes} {a : Numeral} (h : Written s) (ha : readNumeral s = some a) :
    strtod s = toDouble a.value := by
  obtain ⟨⟨c, hc, hdigit⟩, hall⟩ := h
  cases s with
  | nil => cases hc
  | cons c' s =>
      obtain rfl := Option.some.inj hc
      have hfirst : c' ≠ 45 ∧ c' ≠ 43 ∧ lower c' ≠ 105 ∧ lower c' ≠ 110 := by
        have hall : ∀ c ∈ ([48, 49, 50, 51, 52, 53, 54, 55, 56, 57] : List UInt8),
            c ≠ 45 ∧ c ≠ 43 ∧ lower c ≠ 105 ∧ lower c ≠ 110 := by decide
        exact hall c' (isDigit_mem hdigit)
      have hsign : readSign (c' :: s) = (false, c' :: s) := by
        unfold readSign
        split
        · next h => exact absurd (List.cons.inj h).1 hfirst.1
        · next h => exact absurd (List.cons.inj h).1 hfirst.2.1
        · rfl
      have hinf : ((c' :: s).take 3).map lower ≠ lit "inf" := by
        intro h
        exact hfirst.2.2.1 (List.cons.inj h).1
      have hnan : ((c' :: s).take 3).map lower ≠ lit "nan" := by
        intro h
        exact hfirst.2.2.2 (List.cons.inj h).1
      have hhex : hexValue (c' :: s) = none := by
        unfold hexValue
        split
        · next x r heq =>
            have hx : NumeralByte x := by
              refine hall x ?_
              rw [heq]
              exact List.mem_cons_of_mem _ (List.mem_cons_self ..)
            have hno : ∀ c ∈ ([48, 49, 50, 51, 52, 53, 54, 55, 56, 57] : List UInt8),
                lower c ≠ 120 := by decide
            refine if_neg ?_
            rcases hx with hx | rfl | rfl | rfl | rfl
            · exact hno x (isDigit_mem hx)
            all_goals decide
        · rfl
      rw [Json.strtod, hsign, if_neg Bool.false_ne_true, strtodUnsigned, if_neg hinf, if_neg hnan, hhex,
        ha]

theorem toDouble_fin {q x : ℚ} (h : DOUBLE.round q = x) (hx : x < 2 ^ 1024) :
    toDouble q = .fin x := by
  rw [toDouble, h, if_pos hx]

/-- `%.17g` loses nothing of a double. -/
theorem strtod_general {x : ℚ} (hx : 0 ≤ x) (hdouble : IsDouble (.fin x)) :
    strtod (generalText 17 x) = .fin x := by
  obtain ⟨hholds, hlt⟩ := hdouble
  rw [abs_of_nonneg hx] at hholds hlt
  obtain ⟨a, ha, hround⟩ := readNumeral_generalText (n := 17) hholds hx
    (show 2 ^ 53 < 10 ^ 16 by norm_num)
  rw [(written_general (by decide) x).strtod ha, toDouble_fin hround hlt]

/-- Digits are read as the number that they stand for. -/
theorem strtod_digits {s : Bytes} (hs : ∀ c ∈ s, isDigit c = true) (hne : s ≠ [])
    (hlt : ofDigits s < 2 ^ 53) : strtod s = .fin (ofDigits s) := by
  have htext : (⟨s, [], none⟩ : Numeral).text = s := by
    rw [Numeral.text, if_pos rfl, expText, List.append_nil, List.append_nil]
  have ha := readNumeral_text (a := ⟨s, [], none⟩) hs (fun c hc => by cases hc) hne
  rw [htext] at ha
  have hvalue : Numeral.value ⟨s, [], none⟩ = (ofDigits s : ℚ) := by
    rw [Numeral.value, List.append_nil]
    norm_num
  have hbig : (ofDigits s : ℚ) < 2 ^ 1024 := by
    have h53 : (ofDigits s : ℚ) < 2 ^ 53 := by exact_mod_cast hlt
    exact h53.trans (pow_lt_pow_right₀ (by norm_num) (by norm_num))
  rw [(written_digits hs hne).strtod ha, hvalue,
    toDouble_fin (Format.round_nat hlt (by decide)) hbig]

end GeistServe.Json
