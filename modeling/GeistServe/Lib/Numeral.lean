import GeistServe.Lib.Float
import GeistServe.Lib.Lines

/-!
# Numerals

The text of a decimal: digits, perhaps a point with digits behind it, perhaps an
exponent. `general n` is the way `%.{n}g` of C writes a number of `n` digits: it chooses
between the two styles by the exponent, and drops the zeros behind the last digit that
counts. Reading is the other way round, and a numeral is read back as what was written.
-/

namespace GeistServe.Lib

/-! ## Digits -/

def digitByte (d : ℕ) : UInt8 := UInt8.ofNat (48 + d)

def isDigit (c : UInt8) : Bool := decide (48 ≤ c ∧ c ≤ 57)

/-- The last `n` digits of a number. -/
def digits : ℕ → ℕ → Bytes
  | 0, _ => []
  | n + 1, m => digits n (m / 10) ++ [digitByte (m % 10)]

/-- The number that digits stand for. -/
def ofDigits (s : Bytes) : ℕ := s.foldl (fun a c => 10 * a + (c.toNat - 48)) 0

theorem digitByte_toNat {d : ℕ} (h : d < 10) : (digitByte d).toNat = 48 + d := by
  rw [digitByte, UInt8.toNat_ofNat', Nat.mod_eq_of_lt (by omega)]

theorem isDigit_digitByte {d : ℕ} (h : d < 10) : isDigit (digitByte d) = true := by
  have := digitByte_toNat h
  rw [isDigit, decide_eq_true_eq, UInt8.le_iff_toNat_le, UInt8.le_iff_toNat_le, this]
  exact ⟨Nat.le_add_right 48 d, show 48 + d ≤ 57 by omega⟩

/-- There are ten of them. -/
theorem isDigit_mem {c : UInt8} (h : isDigit c = true) :
    c ∈ ([48, 49, 50, 51, 52, 53, 54, 55, 56, 57] : List UInt8) := by
  have hbounds := of_decide_eq_true h
  have hlo : 48 ≤ c.toNat := UInt8.le_iff_toNat_le.mp hbounds.1
  have hhi : c.toNat ≤ 57 := UInt8.le_iff_toNat_le.mp hbounds.2
  have hall : ∀ n < 58, 48 ≤ n →
      UInt8.ofNat n ∈ ([48, 49, 50, 51, 52, 53, 54, 55, 56, 57] : List UInt8) := by decide
  have hmem := hall c.toNat (Nat.lt_succ_of_le hhi) hlo
  rwa [UInt8.ofNat_toNat] at hmem

theorem digits_length (n m : ℕ) : (digits n m).length = n := by
  induction n generalizing m with
  | zero => rfl
  | succ n ih => rw [digits, List.length_append, ih, List.length_singleton]

theorem digits_isDigit (n m : ℕ) : ∀ c ∈ digits n m, isDigit c = true := by
  induction n generalizing m with
  | zero =>
      intro c hc
      cases hc
  | succ n ih =>
      intro c hc
      rw [digits] at hc
      rcases List.mem_append.mp hc with hc | hc
      · exact ih _ c hc
      · rw [List.mem_singleton.mp hc]
        exact isDigit_digitByte (Nat.mod_lt _ (by decide))

theorem ofDigits_concat (s : Bytes) (c : UInt8) :
    ofDigits (s ++ [c]) = 10 * ofDigits s + (c.toNat - 48) := by
  rw [ofDigits, List.foldl_append]
  rfl

theorem ofDigits_append (s t : Bytes) :
    ofDigits (s ++ t) = ofDigits s * 10 ^ t.length + ofDigits t := by
  induction t using List.reverseRecOn with
  | nil =>
      rw [List.append_nil, List.length_nil, pow_zero, mul_one]
      rfl
  | append_singleton t c ih =>
      rw [← List.append_assoc, ofDigits_concat, ih, ofDigits_concat, List.length_append,
        List.length_singleton, pow_succ]
      ring

theorem ofDigits_digits {n m : ℕ} (h : m < 10 ^ n) : ofDigits (digits n m) = m := by
  induction n generalizing m with
  | zero =>
      rw [pow_zero] at h
      rw [digits, Nat.lt_one_iff.mp h]
      rfl
  | succ n ih =>
      have hdiv : m / 10 < 10 ^ n := by
        rw [pow_succ] at h
        exact Nat.div_lt_of_lt_mul (by omega)
      rw [digits, ofDigits_concat, ih hdiv, digitByte_toNat (Nat.mod_lt _ (by decide))]
      omega

theorem ofDigits_zeros (n : ℕ) : ofDigits (List.replicate n 48) = 0 := by
  induction n with
  | zero => rfl
  | succ n ih =>
      rw [List.replicate_succ', ofDigits_concat, ih]
      rfl

/-- Digits without the zeros at their end. -/
def strip (s : Bytes) : Bytes := (s.reverse.dropWhile fun c => decide (c = 48)).reverse

theorem strip_append (s : Bytes) : ∃ k, s = strip s ++ List.replicate k 48 := by
  have hzeros : ∀ t : Bytes, t.takeWhile (fun c => decide (c = 48)) =
      List.replicate (t.takeWhile fun c => decide (c = 48)).length 48 := by
    intro t
    refine List.eq_replicate_of_mem fun c hc => ?_
    exact of_decide_eq_true (List.mem_takeWhile_imp (p := fun c => decide (c = 48)) hc)
  have hsplit := congrArg List.reverse
    (List.takeWhile_append_dropWhile (p := fun c : UInt8 => decide (c = 48)) (l := s.reverse))
  rw [List.reverse_append, List.reverse_reverse, hzeros, List.reverse_replicate] at hsplit
  exact ⟨_, hsplit.symm⟩

/-! ## Numerals -/

/-- Digits in front of the point, digits behind it, and the exponent if there is one. -/
structure Numeral where
  int : Bytes
  frac : Bytes
  exp : Option ℤ

def Numeral.value (a : Numeral) : ℚ :=
  ofDigits (a.int ++ a.frac) * 10 ^ (a.exp.getD 0 - a.frac.length)

/-- Digits of an exponent: no fewer than two. -/
def expDigits (k : ℕ) : Bytes := digits (max 2 (Nat.log 10 k + 1)) k

def expText : Option ℤ → Bytes
  | none => []
  | some e => 101 :: (if e < 0 then 45 else 43) :: expDigits e.natAbs

def Numeral.text (a : Numeral) : Bytes :=
  a.int ++ (if a.frac = [] then [] else 46 :: a.frac) ++ expText a.exp

/-- What stands in front of the first character that is no digit, and what is left. -/
def readDigits (s : Bytes) : Bytes × Bytes := (s.takeWhile isDigit, s.dropWhile isDigit)

def readSign : Bytes → Bool × Bytes
  | 45 :: r => (true, r)
  | 43 :: r => (false, r)
  | r => (false, r)

def readExp : Bytes → Option ℤ
  | [] => none
  | c :: r =>
    if c = 101 ∨ c = 69 then
      let ds := (readDigits (readSign r).2).1
      if ds = [] then none
      else some (if (readSign r).1 then -(ofDigits ds : ℤ) else ofDigits ds)
    else none

def readFrac : Bytes → Bytes × Bytes
  | 46 :: r => readDigits r
  | r => ([], r)

/-- The numeral that a text starts with. -/
def readNumeral (s : Bytes) : Option Numeral :=
  let (int, r) := readDigits s
  let (frac, r) := readFrac r
  if int = [] ∧ frac = [] then none else some ⟨int, frac, readExp r⟩

/-! ## Reading what was written -/

/-- A text that no digit starts. -/
def Digitless (s : Bytes) : Prop := ∀ c ∈ s.head?, isDigit c = false

theorem readDigits_append {s r : Bytes} (hs : ∀ c ∈ s, isDigit c = true) (hr : Digitless r) :
    readDigits (s ++ r) = (s, r) := by
  rw [readDigits, List.takeWhile_append_of_pos hs, List.dropWhile_append_of_pos hs]
  cases r with
  | nil => rw [List.takeWhile_nil, List.dropWhile_nil, List.append_nil]
  | cons c r =>
      have hc : ¬ isDigit c = true := by
        rw [hr c rfl]
        decide
      rw [List.takeWhile_cons_of_neg hc, List.dropWhile_cons_of_neg hc, List.append_nil]

theorem expDigits_isDigit (k : ℕ) : ∀ c ∈ expDigits k, isDigit c = true := digits_isDigit _ _

theorem ofDigits_expDigits (k : ℕ) : ofDigits (expDigits k) = k := by
  refine ofDigits_digits ?_
  have hlog := Nat.lt_pow_succ_log_self (b := 10) (by decide) k
  exact lt_of_lt_of_le hlog (Nat.pow_le_pow_right (by decide) (le_max_right _ _))

theorem expDigits_ne_nil (k : ℕ) : expDigits k ≠ [] := by
  intro h
  have hlen := digits_length (max 2 (Nat.log 10 k + 1)) k
  rw [expDigits] at h
  rw [h, List.length_nil] at hlen
  have := le_max_left 2 (Nat.log 10 k + 1)
  omega

theorem readExp_expText (e : Option ℤ) : readExp (expText e) = e := by
  cases e with
  | none => rfl
  | some e =>
      have hdigits : readDigits (expDigits e.natAbs) = (expDigits e.natAbs, []) := by
        have := readDigits_append (expDigits_isDigit e.natAbs) (r := []) (fun c hc => by cases hc)
        rwa [List.append_nil] at this
      rw [expText, readExp, if_pos (Or.inl rfl)]
      by_cases he : e < 0
      · simp only [he, if_true, readSign, hdigits, expDigits_ne_nil, if_false,
          ofDigits_expDigits]
        congr 1
        omega
      · simp only [he, if_false, readSign, hdigits, expDigits_ne_nil, ofDigits_expDigits,
          Bool.false_eq_true]
        congr 1
        omega

theorem expText_digitless (e : Option ℤ) : Digitless (expText e) := by
  cases e with
  | none =>
      intro c hc
      cases hc
  | some e =>
      intro c hc
      cases hc
      decide

theorem expText_no_point (e : Option ℤ) : readFrac (expText e) = ([], expText e) := by
  cases e with
  | none => rfl
  | some e => rfl

/-- A numeral with a digit in front of its point is read back. -/
theorem readNumeral_text {a : Numeral} (hint : ∀ c ∈ a.int, isDigit c = true)
    (hfrac : ∀ c ∈ a.frac, isDigit c = true) (hne : a.int ≠ []) :
    readNumeral a.text = some a := by
  rw [Numeral.text, List.append_assoc]
  by_cases hpoint : a.frac = []
  · rw [if_pos hpoint, List.nil_append, readNumeral, readDigits_append hint (expText_digitless _)]
    dsimp only
    rw [expText_no_point]
    dsimp only
    rw [if_neg (fun h => hne h.1), readExp_expText, ← hpoint]
  · rw [if_neg hpoint, readNumeral, readDigits_append hint (by
      intro c hc
      cases hc
      decide)]
    dsimp only
    rw [List.cons_append, readFrac, readDigits_append hfrac (expText_digitless _)]
    dsimp only
    rw [if_neg (fun h => hne h.1), readExp_expText]

/-! ## The general style -/

/-- `%.{n}g`, of the `n` digits `d.1` with the last at the exponent `d.2`. -/
def general (n : ℕ) (d : ℕ × ℤ) : Numeral :=
  let ds := digits n d.1
  let x := d.2 + (n - 1)
  if x < -4 ∨ n ≤ x then ⟨ds.take 1, strip (ds.drop 1), some x⟩
  else if 0 ≤ x then ⟨ds.take (x.toNat + 1), strip (ds.drop (x.toNat + 1)), none⟩
  else ⟨[48], strip (List.replicate ((-x).toNat - 1) 48 ++ ds), none⟩

/-- `%.{n}g` of a number that is not negative. -/
def generalText (n : ℕ) (x : ℚ) : Bytes :=
  if x = 0 then [48] else (general n (toDecimal n x)).text

/-- Zeros at the end of the digits behind the point do not count. -/
theorem value_strip (int frac : Bytes) (e : Option ℤ) :
    Numeral.value ⟨int, strip frac, e⟩ = Numeral.value ⟨int, frac, e⟩ := by
  obtain ⟨k, hk⟩ := strip_append frac
  rw [Numeral.value, Numeral.value]
  conv_rhs => rw [hk]
  dsimp only
  rw [← List.append_assoc, ofDigits_append (int ++ strip frac), ofDigits_zeros, add_zero,
    List.length_append, List.length_replicate]
  push_cast
  rw [mul_assoc, ← zpow_natCast, ← zpow_add₀ (by norm_num)]
  congr 2
  ring

theorem general_value {n : ℕ} {d : ℕ × ℤ} (hn : 0 < n) (hd : d.1 < 10 ^ n) :
    (general n d).value = ofDecimal d := by
  have hlen := digits_length n d.1
  have hvalue := ofDigits_digits hd
  rw [general]
  generalize hx : d.2 + ((n : ℤ) - 1) = x
  split
  · rw [value_strip, Numeral.value, List.take_append_drop, hvalue, List.length_drop, hlen,
      Option.getD_some, ofDecimal]
    congr 2
    omega
  · next hstyle =>
      rw [not_or, not_lt, not_le] at hstyle
      split
      · rw [value_strip, Numeral.value, List.take_append_drop, hvalue, List.length_drop, hlen,
          Option.getD_none, ofDecimal]
        congr 2
        omega
      · rw [value_strip, Numeral.value, ← List.append_assoc, ofDigits_append, List.length_append,
          List.length_replicate, hlen, hvalue, Option.getD_none, ofDecimal]
        have hzeros : ofDigits ([48] ++ List.replicate ((-x).toNat - 1) 48) = 0 :=
          ofDigits_zeros ((-x).toNat - 1 + 1)
        rw [hzeros, zero_mul, zero_add]
        congr 2
        push_cast
        omega

theorem strip_isDigit {s : Bytes} (h : ∀ c ∈ s, isDigit c = true) :
    ∀ c ∈ strip s, isDigit c = true := by
  intro c hc
  obtain ⟨k, hk⟩ := strip_append s
  exact h c (hk ▸ List.mem_append_left _ hc)

theorem general_digits {n : ℕ} {d : ℕ × ℤ} (hn : 0 < n) :
    (∀ c ∈ (general n d).int, isDigit c = true) ∧
      (∀ c ∈ (general n d).frac, isDigit c = true) ∧ (general n d).int ≠ [] := by
  have hdigits := digits_isDigit n d.1
  have htake : ∀ k, (digits n d.1).take (k + 1) ≠ [] := by
    intro k h
    have := congrArg List.length h
    rw [List.length_take, digits_length, List.length_nil] at this
    omega
  rw [general]
  split
  · exact ⟨fun c hc => hdigits c (List.mem_of_mem_take hc),
      strip_isDigit fun c hc => hdigits c (List.mem_of_mem_drop hc), htake 0⟩
  · split
    · exact ⟨fun c hc => hdigits c (List.mem_of_mem_take hc),
        strip_isDigit fun c hc => hdigits c (List.mem_of_mem_drop hc), htake _⟩
    · refine ⟨fun c hc => ?_, strip_isDigit fun c hc => ?_, List.cons_ne_nil _ _⟩
      · rw [List.mem_singleton.mp hc]
        decide
      · rcases List.mem_append.mp hc with hc | hc
        · rw [List.eq_of_mem_replicate hc]
          decide
        · exact hdigits c hc

/-- A number of a format is read back from its text, if there are digits enough. -/
theorem readNumeral_generalText {f : Format} {n : ℕ} {x : ℚ} (hf : f.Holds x) (hx : 0 ≤ x)
    (hdigits : 2 ^ f.prec < 10 ^ (n - 1)) :
    ∃ a, readNumeral (generalText n x) = some a ∧ f.round a.value = x := by
  have hn : 0 < n := by
    rcases Nat.eq_zero_or_pos n with rfl | h
    · exact absurd hdigits (not_lt.mpr (Nat.one_le_two_pow))
    · exact h
  rw [generalText]
  split
  · next hzero =>
      refine ⟨⟨[48], [], none⟩, rfl, ?_⟩
      have hvalue : Numeral.value ⟨[48], [], none⟩ = 0 := by
        rw [Numeral.value]
        exact mul_eq_zero_of_left (by norm_cast) _
      rw [hvalue, Format.round_zero, hzero]
  · next hne =>
      have hpos : 0 < x := lt_of_le_of_ne hx (Ne.symm hne)
      obtain ⟨hint, hfrac, hhead⟩ := general_digits (d := toDecimal n x) hn
      refine ⟨_, readNumeral_text hint hfrac hhead, ?_⟩
      rw [general_value hn (toDecimal_bounds hpos hn).2]
      exact round_toDecimal hf hpos hdigits

end GeistServe.Lib
