import Mathlib.Data.Int.Log
import Mathlib.Data.Rat.Floor
import Mathlib.Tactic.FieldSimp
import Mathlib.Tactic.Linarith
import Mathlib.Tactic.Positivity
import Mathlib.Tactic.Ring

/-!
# Binary floats, and decimals that tell them apart

A format holds the integers below `2 ^ prec`, scaled by a power of two that is no less
than `2 ^ low`. A number is brought into it by the nearest number of the format, and the
even one of two. `toDecimal n x` is the nearest to `x` of the numbers with `n` digits. With
one digit more than the format needs, the decimal is nearer to `x` than half the way to
the next number of the format, so it is brought back to `x`.

The numbers here are not negative: a sign is put in front by whoever needs one.
-/

namespace GeistServe.Lib

/-! ## The nearest integer -/

/-- The nearest integer, of two the even one. -/
def roundEven (q : ℚ) : ℤ :=
  if 2 * (q - ⌊q⌋) < 1 ∨ (2 * (q - ⌊q⌋) = 1 ∧ ⌊q⌋ % 2 = 0) then ⌊q⌋ else ⌊q⌋ + 1

theorem roundEven_close (q : ℚ) : |q - roundEven q| ≤ 1 / 2 := by
  have hlo := Int.floor_le q
  have hhi := Int.lt_floor_add_one q
  rw [roundEven]
  split
  · next h =>
      have hle : 2 * (q - ⌊q⌋) ≤ 1 := by
        rcases h with h | h
        · exact le_of_lt h
        · exact le_of_eq h.1
      rw [abs_le]
      constructor <;> linarith
  · next h =>
      rw [not_or, not_lt] at h
      push_cast
      rw [abs_le]
      constructor <;> linarith [h.1]

theorem roundEven_eq {q : ℚ} {n : ℤ} (h : |q - n| < 1 / 2) : roundEven q = n := by
  have hclose := roundEven_close q
  rw [abs_lt] at h
  rw [abs_le] at hclose
  have hlo : (n : ℚ) - 1 < roundEven q := by linarith [h.1, hclose.2]
  have hhi : (roundEven q : ℚ) < n + 1 := by linarith [h.2, hclose.1]
  have hlo' : n - 1 < roundEven q := by exact_mod_cast hlo
  have hhi' : roundEven q < n + 1 := by exact_mod_cast hhi
  omega

/-- On the nonnegative side there is nothing to round down to a negative number. -/
theorem roundEven_nonneg {q : ℚ} (h : 0 ≤ q) : 0 ≤ roundEven q := by
  have hclose := abs_le.mp (roundEven_close q)
  have hlo : (-1 : ℚ) < roundEven q := by linarith [hclose.2]
  have hlo' : -1 < roundEven q := by exact_mod_cast hlo
  omega

/-! ## A format -/

structure Format where
  prec : ℕ
  low : ℤ
  pos : 0 < prec

namespace Format

variable (f : Format)

/-- The numbers of the format, without an upper bound. -/
def Holds (x : ℚ) : Prop := ∃ (m : ℕ) (e : ℤ), x = m * 2 ^ e ∧ m < 2 ^ f.prec ∧ f.low ≤ e

/-- The exponent of the last place of a number. -/
def scale (x : ℚ) : ℤ := max (Int.log 2 x - (f.prec - 1)) f.low

/-- The number of the format that is nearest. -/
def round (x : ℚ) : ℚ := roundEven (x / 2 ^ f.scale x) * 2 ^ f.scale x

variable {f} {x y : ℚ}

theorem two_zpow_pos (e : ℤ) : (0 : ℚ) < 2 ^ e := zpow_pos (by norm_num) e

theorem lt_scale (x : ℚ) : x < 2 ^ (f.scale x + f.prec) := by
  have hlog := Int.lt_zpow_succ_log_self (R := ℚ) (b := 2) (by decide) x
  have hle : Int.log 2 x + 1 ≤ f.scale x + f.prec := by
    have := le_max_left (Int.log 2 x - (f.prec - 1)) f.low
    rw [scale]
    omega
  have hmono : (2 : ℚ) ^ (Int.log 2 x + 1) ≤ 2 ^ (f.scale x + f.prec) :=
    zpow_le_zpow_right₀ (by norm_num) hle
  exact lt_of_lt_of_le (by exact_mod_cast hlog) hmono

/-- Above the least exponent the first digit is there. -/
theorem le_scale (hx : 0 < x) (hlow : f.low < f.scale x) :
    2 ^ (f.scale x + f.prec - 1) ≤ x := by
  have hlog := Int.zpow_log_le_self (R := ℚ) (b := 2) (by decide) hx
  have heq : f.scale x = Int.log 2 x - (f.prec - 1) := by
    rw [scale] at hlow ⊢
    omega
  have hexp : f.scale x + f.prec - 1 = Int.log 2 x := by omega
  rw [hexp]
  exact_mod_cast hlog

/-- A positive number of the format is an integer in units of its last place. -/
theorem Holds.mantissa (h : f.Holds x) (hx : 0 < x) :
    ∃ m : ℕ, x = m * 2 ^ f.scale x ∧ 0 < m ∧ m < 2 ^ f.prec := by
  obtain ⟨m, e, rfl, hm, he⟩ := h
  have hm0 : 0 < m := by
    rcases Nat.eq_zero_or_pos m with rfl | h
    · rw [Nat.cast_zero, zero_mul] at hx
      exact absurd hx (lt_irrefl 0)
    · exact h
  -- the last place is no higher than the exponent that the number is written with
  have hscale : f.scale (m * 2 ^ e) ≤ e := by
    refine max_le ?_ he
    have hlt : (m : ℚ) * 2 ^ e < 2 ^ (f.prec + e : ℤ) := by
      rw [zpow_add₀ (by norm_num)]
      refine mul_lt_mul_of_pos_right ?_ (two_zpow_pos e)
      exact_mod_cast hm
    have hlog := (Int.lt_zpow_iff_log_lt (b := 2) (by decide) hx).mp (by exact_mod_cast hlt)
    omega
  obtain ⟨k, hk⟩ := Int.eq_ofNat_of_zero_le (sub_nonneg.mpr hscale)
  have heq : (m : ℚ) * 2 ^ e = ((m * 2 ^ k : ℕ) : ℚ) * 2 ^ f.scale (m * 2 ^ e) := by
    have hpow : (2 : ℚ) ^ e = 2 ^ k * 2 ^ f.scale (m * 2 ^ e) := by
      rw [← zpow_natCast, ← zpow_add₀ (by norm_num), ← hk, sub_add_cancel]
    push_cast
    rw [mul_assoc, ← hpow]
  refine ⟨m * 2 ^ k, heq, Nat.mul_pos hm0 (Nat.two_pow_pos k), ?_⟩
  have hlt := lt_scale (f := f) (m * 2 ^ e)
  rw [add_comm, zpow_add₀ (by norm_num)] at hlt
  nth_rewrite 1 [heq] at hlt
  exact_mod_cast lt_of_mul_lt_mul_right hlt (le_of_lt (two_zpow_pos _))

/-! ## Near a number of the format -/

theorem round_of_scale {m : ℕ} {e : ℤ} (hx : x = m * 2 ^ e) (hy : f.scale y = e)
    (h : |y - x| < 2 ^ e / 2) : f.round y = x := by
  have hpos := two_zpow_pos e
  have hround : roundEven (y / 2 ^ e) = m := by
    refine roundEven_eq ?_
    have heq : y / 2 ^ e - (m : ℤ) = (y - x) / 2 ^ e := by
      rw [hx, Int.cast_natCast]
      field_simp
    rw [heq, abs_div, abs_of_pos hpos, div_lt_iff₀ hpos]
    linarith
  rw [round, hy, hround, Int.cast_natCast, hx]

/-- What is nearer to a number of the format than half the way to the next one is brought
to it. Below a power of two the numbers are closer. -/
theorem round_near (hf : f.Holds x) (hx : 0 < x) (hnear : |y - x| < 2 ^ f.scale x / 2)
    (hbelow : x = 2 ^ (f.scale x + f.prec - 1) → |y - x| < 2 ^ f.scale x / 4) :
    f.round y = x := by
  obtain ⟨m, hm, hm0, hlt⟩ := hf.mantissa hx
  generalize he : f.scale x = e at *
  have hpos := two_zpow_pos e
  have habs := abs_lt.mp hnear
  have hm1 : (1 : ℚ) ≤ m := by exact_mod_cast hm0
  have hle : (m : ℚ) + 1 ≤ 2 ^ f.prec := by exact_mod_cast hlt
  have hy0 : 0 < y := by nlinarith
  -- `y` has not the room to reach the next power of two
  have hyhi : y < 2 ^ (e + f.prec) := by
    rw [add_comm, zpow_add₀ (by norm_num), zpow_natCast]
    nlinarith
  have hlog := (Int.lt_zpow_iff_log_lt (b := 2) (by decide) hy0).mp (by exact_mod_cast hyhi)
  have hyle : f.scale y ≤ e := by
    have hlow : f.low ≤ e := he ▸ le_max_right _ _
    exact max_le (by omega) hlow
  rcases eq_or_lt_of_le hyle with heq | hless
  · exact round_of_scale hm heq hnear
  -- a lower last place: `x` is a power of two and `y` is below it
  have hlow : f.low < e := lt_of_le_of_lt (le_max_right _ _) hless
  have hxlo : 2 ^ (e + f.prec - 1) ≤ x := by
    have := le_scale (f := f) hx (he ▸ hlow)
    rwa [he] at this
  have hylt : y < 2 ^ (e + f.prec - 1) := by
    have hlog' : Int.log 2 y < e + f.prec - 1 := by
      have := le_max_left (Int.log 2 y - (f.prec - 1)) f.low
      rw [scale] at hless
      omega
    exact_mod_cast (Int.lt_zpow_iff_log_lt (b := 2) (by decide) hy0).mpr hlog'
  have hsplit : (2 : ℚ) ^ (e + f.prec - 1) = 2 ^ (f.prec - 1) * 2 ^ e := by
    obtain ⟨p, hp⟩ := Nat.exists_eq_add_one_of_ne_zero f.pos.ne'
    rw [hp, Nat.add_sub_cancel, ← zpow_natCast, ← zpow_add₀ (by norm_num)]
    congr 1
    push_cast
    ring
  have hpower : x = 2 ^ (e + f.prec - 1) := by
    refine le_antisymm ?_ hxlo
    rw [hsplit] at hylt ⊢
    rw [hm] at habs ⊢
    have hmlt : (m : ℚ) < 2 ^ (f.prec - 1) + 1 := by nlinarith
    have hmle : m ≤ 2 ^ (f.prec - 1) := by
      have : m < 2 ^ (f.prec - 1) + 1 := by exact_mod_cast hmlt
      omega
    refine mul_le_mul_of_nonneg_right ?_ (le_of_lt hpos)
    exact_mod_cast hmle
  have hquarter := hbelow hpower
  have hhalf : (2 : ℚ) ^ e = 2 * 2 ^ (e - 1) := by
    rw [← zpow_one_add₀ (by norm_num)]
    congr 1
    omega
  have hpos' := two_zpow_pos (e - 1)
  have hscale : f.scale y = e - 1 := by
    have hylo : 2 ^ (e + f.prec - 2) ≤ y := by
      have hquart := abs_lt.mp hquarter
      have hone : (1 : ℚ) ≤ 2 ^ (f.prec - 1) := one_le_pow₀ (by norm_num)
      have hdouble : (2 : ℚ) ^ (e + f.prec - 1) = 2 * 2 ^ (e + f.prec - 2) := by
        rw [← zpow_one_add₀ (by norm_num)]
        congr 1
        omega
      rw [hsplit] at hdouble hpower
      nlinarith
    have hlog' := (Int.zpow_le_iff_le_log (b := 2) (by decide) hy0).mp (by exact_mod_cast hylo)
    refine le_antisymm (by omega) ?_
    have := le_max_left (Int.log 2 y - (f.prec - 1)) f.low
    rw [scale]
    omega
  refine round_of_scale (m := 2 * m) ?_ hscale ?_
  · rw [hm, hhalf]
    push_cast
    ring
  · rw [hhalf] at hquarter
    linarith

/-- A number of the format stays as it is. -/
theorem round_self (hf : f.Holds x) (hx : 0 < x) : f.round x = x := by
  have hpos := two_zpow_pos (f.scale x)
  refine round_near hf hx ?_ fun _ => ?_
  · rw [sub_self, abs_zero]
    positivity
  · rw [sub_self, abs_zero]
    positivity

theorem round_zero : f.round 0 = 0 := by
  have hzero : roundEven 0 = 0 := roundEven_eq (by norm_num)
  rw [round, zero_div, hzero, Int.cast_zero, zero_mul]

/-- A natural number with no more binary digits than the format has. -/
theorem holds_nat {n : ℕ} (hn : n < 2 ^ f.prec) (hlow : f.low ≤ 0) : f.Holds n :=
  ⟨n, 0, by rw [zpow_zero, mul_one], hn, hlow⟩

theorem round_nat {n : ℕ} (hn : n < 2 ^ f.prec) (hlow : f.low ≤ 0) : f.round n = n := by
  rcases Nat.eq_zero_or_pos n with rfl | hpos
  · rw [Nat.cast_zero, round_zero]
  · exact round_self (holds_nat hn hlow) (by exact_mod_cast hpos)

end Format

/-! ## Decimals -/

/-- The exponent of the last of `n` decimal digits. -/
def decimalScale (n : ℕ) (x : ℚ) : ℤ := Int.log 10 x - (n - 1)

/-- `x` in units of the last of `n` digits. -/
def decimalUnits (n : ℕ) (x : ℚ) : ℕ := (roundEven (x / 10 ^ decimalScale n x)).toNat

/-- The `n` digits as one number, and the exponent of the last of them. Rounding may bring
a digit more. -/
def toDecimal (n : ℕ) (x : ℚ) : ℕ × ℤ :=
  if decimalUnits n x = 10 ^ n then (10 ^ (n - 1), decimalScale n x + 1)
  else (decimalUnits n x, decimalScale n x)

def ofDecimal (d : ℕ × ℤ) : ℚ := d.1 * 10 ^ d.2

section
variable {n : ℕ} {x : ℚ}

theorem ten_zpow_pos (k : ℤ) : (0 : ℚ) < 10 ^ k := zpow_pos (by norm_num) k

theorem decimalScale_bounds (hx : 0 < x) :
    10 ^ (decimalScale n x + (n - 1)) ≤ x ∧ x < 10 ^ (decimalScale n x + n) := by
  have hlo := Int.zpow_log_le_self (R := ℚ) (b := 10) (by decide) hx
  have hhi := Int.lt_zpow_succ_log_self (R := ℚ) (b := 10) (by decide) x
  have hexp : decimalScale n x + (n - 1) = Int.log 10 x := by
    rw [decimalScale]
    omega
  have hexp' : decimalScale n x + n = Int.log 10 x + 1 := by
    rw [decimalScale]
    omega
  rw [hexp, hexp']
  exact ⟨by exact_mod_cast hlo, by exact_mod_cast hhi⟩

theorem decimalUnits_close (hx : 0 < x) :
    |x / 10 ^ decimalScale n x - decimalUnits n x| ≤ 1 / 2 := by
  have hpos := ten_zpow_pos (decimalScale n x)
  have hround := roundEven_nonneg (le_of_lt (div_pos hx hpos))
  have hcast : ((decimalUnits n x : ℕ) : ℚ) = roundEven (x / 10 ^ decimalScale n x) := by
    have hint : ((decimalUnits n x : ℕ) : ℤ) = roundEven (x / 10 ^ decimalScale n x) :=
      Int.toNat_of_nonneg hround
    exact_mod_cast hint
  rw [hcast]
  exact roundEven_close _

/-- There are `n` digits, the first of them not zero. -/
theorem decimalUnits_bounds (hx : 0 < x) (hn : 0 < n) :
    10 ^ (n - 1) ≤ decimalUnits n x ∧ decimalUnits n x ≤ 10 ^ n := by
  have hpos := ten_zpow_pos (decimalScale n x)
  obtain ⟨hlo, hhi⟩ := decimalScale_bounds (n := n) hx
  have hclose := abs_le.mp (decimalUnits_close (n := n) hx)
  obtain ⟨k, rfl⟩ := Nat.exists_eq_add_one_of_ne_zero hn.ne'
  have hlo' : (10 : ℚ) ^ k ≤ x / 10 ^ decimalScale (k + 1) x := by
    rw [le_div_iff₀ hpos, ← zpow_natCast, ← zpow_add₀ (by norm_num)]
    have hexp : (k : ℤ) + decimalScale (k + 1) x = decimalScale (k + 1) x + ((k + 1 : ℕ) - 1) := by
      push_cast
      omega
    rw [hexp]
    exact hlo
  have hhi' : x / 10 ^ decimalScale (k + 1) x < (10 : ℚ) ^ (k + 1) := by
    rw [div_lt_iff₀ hpos, ← zpow_natCast, ← zpow_add₀ (by norm_num), add_comm]
    exact hhi
  rw [Nat.add_sub_cancel]
  have h₁ : ((10 ^ k : ℕ) : ℚ) < decimalUnits (k + 1) x + 1 := by
    push_cast
    linarith [hclose.2]
  have h₂ : ((decimalUnits (k + 1) x : ℕ) : ℚ) < (10 ^ (k + 1) : ℕ) + 1 := by
    push_cast
    linarith [hclose.1]
  have h₁' : 10 ^ k < decimalUnits (k + 1) x + 1 := by exact_mod_cast h₁
  have h₂' : decimalUnits (k + 1) x < 10 ^ (k + 1) + 1 := by exact_mod_cast h₂
  omega

theorem toDecimal_bounds (hx : 0 < x) (hn : 0 < n) :
    10 ^ (n - 1) ≤ (toDecimal n x).1 ∧ (toDecimal n x).1 < 10 ^ n := by
  have hunits := decimalUnits_bounds hx hn
  rw [toDecimal]
  split
  · refine ⟨le_refl _, ?_⟩
    exact Nat.pow_lt_pow_right (by decide) (by omega)
  · next h => exact ⟨hunits.1, by omega⟩

theorem ofDecimal_toDecimal (hn : 0 < n) :
    ofDecimal (toDecimal n x) = decimalUnits n x * 10 ^ decimalScale n x := by
  rw [toDecimal]
  split
  · next h =>
      obtain ⟨k, rfl⟩ := Nat.exists_eq_add_one_of_ne_zero hn.ne'
      rw [ofDecimal, h, Nat.add_sub_cancel]
      push_cast
      rw [zpow_add_one₀ (by norm_num)]
      ring
  · rfl

/-- The decimal is as near as half of its last place. -/
theorem toDecimal_close (hx : 0 < x) (hn : 0 < n) :
    |ofDecimal (toDecimal n x) - x| ≤ 10 ^ decimalScale n x / 2 := by
  have hpos := ten_zpow_pos (decimalScale n x)
  have hclose := decimalUnits_close (n := n) hx
  have heq : ofDecimal (toDecimal n x) - x =
      -(x / 10 ^ decimalScale n x - decimalUnits n x) * 10 ^ decimalScale n x := by
    rw [ofDecimal_toDecimal hn]
    field_simp
    ring
  rw [heq, abs_mul, abs_neg, abs_of_pos hpos]
  have := mul_le_mul_of_nonneg_right hclose (le_of_lt hpos)
  linarith

/-- A number of the format is found again from its decimal. -/
theorem round_toDecimal {f : Format} (hf : f.Holds x) (hx : 0 < x)
    (hdigits : 2 ^ f.prec < 10 ^ (n - 1)) : f.round (ofDecimal (toDecimal n x)) = x := by
  have hn : 0 < n := by
    rcases Nat.eq_zero_or_pos n with rfl | h
    · exact absurd hdigits (not_lt.mpr (Nat.one_le_two_pow))
    · exact h
  have hpos := Format.two_zpow_pos (f.scale x)
  have hten := ten_zpow_pos (decimalScale n x)
  have hclose := toDecimal_close (n := n) hx hn
  -- the last decimal place is worth less than the last binary place
  have hplace : (2 : ℚ) ^ f.prec * 10 ^ decimalScale n x < x := by
    have hlo := (decimalScale_bounds (n := n) hx).1
    obtain ⟨k, rfl⟩ := Nat.exists_eq_add_one_of_ne_zero hn.ne'
    rw [Nat.add_sub_cancel] at hdigits
    have hexp : decimalScale (k + 1) x + ((k + 1 : ℕ) - 1) = k + decimalScale (k + 1) x := by
      push_cast
      omega
    rw [hexp, zpow_add₀ (by norm_num), zpow_natCast] at hlo
    have hlt : (2 : ℚ) ^ f.prec < 10 ^ k := by exact_mod_cast hdigits
    exact lt_of_lt_of_le (mul_lt_mul_of_pos_right hlt hten) hlo
  have hpow : (0 : ℚ) < 2 ^ f.prec := by positivity
  refine Format.round_near hf hx ?_ ?_
  · have hxlt := Format.lt_scale (f := f) x
    rw [add_comm, zpow_add₀ (by norm_num), zpow_natCast] at hxlt
    have hlt : (10 : ℚ) ^ decimalScale n x < 2 ^ f.scale x :=
      lt_of_mul_lt_mul_left (lt_trans hplace hxlt) (le_of_lt hpow)
    linarith
  · intro hpower
    have hhalf : (2 : ℚ) ^ (f.scale x + f.prec - 1) = 2 ^ f.prec * (2 ^ f.scale x / 2) := by
      rw [zpow_sub_one₀ (by norm_num), zpow_add₀ (by norm_num), zpow_natCast]
      ring
    have hless := hplace.trans_eq (hpower.trans hhalf)
    have hlt := lt_of_mul_lt_mul_left hless (le_of_lt hpow)
    linarith

end

end GeistServe.Lib
