import Mathlib.Algebra.Order.Floor.Semiring
import Mathlib.Algebra.Order.Field.Basic
import Mathlib.Data.List.GetD
import Mathlib.Data.List.Sort
import Mathlib.Tactic.Linarith

/-!
# Quantiles by interpolation

The values in order are a monotone sequence, and a quantile is the point on the line through
its neighbours (`lerp`). That line never goes down, so a quantile lies between its neighbours
and quantiles are ordered as their positions are (`lerp_mono`). Which value stands at a place
in the order is a matter of counting the smaller ones (`IsOrderStat`), not of the order the
values came in.
-/

namespace GeistServe.Lib

/-! ## Values in order -/

section Order

variable {α : Type} [LinearOrder α]

def inOrder (xs : List α) : List α := xs.insertionSort (· ≤ ·)

theorem inOrder_perm (xs : List α) : (inOrder xs).Perm xs := List.perm_insertionSort _ xs

theorem inOrder_pairwise (xs : List α) : (inOrder xs).Pairwise (· ≤ ·) :=
  List.pairwise_insertionSort _ xs

theorem inOrder_length (xs : List α) : (inOrder xs).length = xs.length :=
  List.length_insertionSort _ xs

theorem inOrder_congr {xs ys : List α} (h : xs.Perm ys) : inOrder xs = inOrder ys :=
  (((inOrder_perm xs).trans h).trans (inOrder_perm ys).symm).eq_of_pairwise'
    (inOrder_pairwise xs) (inOrder_pairwise ys)

/-- `v` is at place `k`: no more than `k` values are less, and more than `k` are no larger. -/
structure IsOrderStat (xs : List α) (k : Nat) (v : α) : Prop where
  mem : v ∈ xs
  below : xs.countP (· < v) ≤ k
  upto : k < xs.countP (· ≤ v)

/-- There is one value at a place. -/
theorem IsOrderStat.le {xs : List α} {k : Nat} {v w : α} (hv : IsOrderStat xs k v)
    (hw : IsOrderStat xs k w) : w ≤ v := by
  by_contra hlt
  rw [not_le] at hlt
  have hcount : xs.countP (· ≤ v) ≤ xs.countP (· < w) := by
    refine List.countP_mono_left fun x _ hx => ?_
    rw [decide_eq_true_eq] at hx ⊢
    exact lt_of_le_of_lt hx hlt
  have h₁ := hv.upto
  have h₂ := hw.below
  omega

theorem IsOrderStat.unique {xs : List α} {k : Nat} {v w : α} (hv : IsOrderStat xs k v)
    (hw : IsOrderStat xs k w) : v = w := le_antisymm (hw.le hv) (hv.le hw)

theorem isOrderStat_of_split {xs front behind : List α} {v : α}
    (hperm : (front ++ v :: behind).Perm xs) (hpair : (front ++ v :: behind).Pairwise (· ≤ ·)) :
    IsOrderStat xs front.length v := by
  obtain ⟨-, hbehind, hacross⟩ := List.pairwise_append.mp hpair
  refine ⟨hperm.mem_iff.mp (List.mem_append_right _ List.mem_cons_self), ?_, ?_⟩
  · have hnone : (v :: behind).countP (· < v) = 0 := by
      rw [List.countP_eq_zero]
      intro x hx
      rw [decide_eq_true_eq, not_lt]
      rcases List.mem_cons.mp hx with rfl | hx
      · exact le_rfl
      · exact (List.pairwise_cons.mp hbehind).1 x hx
    rw [← hperm.countP_eq, List.countP_append, hnone]
    exact List.countP_le_length
  · have hall : front.countP (· ≤ v) = front.length := by
      rw [List.countP_eq_length]
      intro x hx
      rw [decide_eq_true_eq]
      exact hacross x hx v List.mem_cons_self
    rw [← hperm.countP_eq, List.countP_append, hall, List.countP_cons_of_pos (by simp)]
    omega

theorem isOrderStat_inOrder {xs : List α} {k : Nat} (hk : k < (inOrder xs).length) :
    IsOrderStat xs k (inOrder xs)[k] := by
  have hsplit : inOrder xs = (inOrder xs).take k ++ (inOrder xs)[k] :: (inOrder xs).drop (k + 1) := by
    rw [← List.drop_eq_getElem_cons hk, List.take_append_drop]
  have hlen : ((inOrder xs).take k).length = k := List.length_take_of_le (Nat.le_of_lt hk)
  have hstat := @isOrderStat_of_split _ _ xs ((inOrder xs).take k) ((inOrder xs).drop (k + 1))
    (inOrder xs)[k] (hsplit ▸ inOrder_perm xs) (hsplit ▸ inOrder_pairwise xs)
  rw [hlen] at hstat
  exact hstat

end Order

section Sequence

variable {α : Type} [LinearOrder α] [Zero α]

/-- The values in order, and the last one from there on. -/
def orderSeq (xs : List α) (k : ℕ) : α := (inOrder xs).getD (min k (xs.length - 1)) 0

theorem orderSeq_stat {xs : List α} (hne : xs ≠ []) (k : ℕ) :
    IsOrderStat xs (min k (xs.length - 1)) (orderSeq xs k) := by
  have hpos := List.length_pos_iff.mpr hne
  have hk : min k (xs.length - 1) < (inOrder xs).length := by
    rw [inOrder_length]
    omega
  rw [orderSeq, List.getD_eq_getElem _ _ hk]
  exact isOrderStat_inOrder hk

theorem orderSeq_mono (xs : List α) : Monotone (orderSeq xs) := by
  intro j k hjk
  by_cases hne : xs = []
  · subst hne
    exact le_rfl
  · have hpos := List.length_pos_iff.mpr hne
    have hlen := inOrder_length xs
    unfold orderSeq
    rw [List.getD_eq_getElem _ _ (by omega), List.getD_eq_getElem _ _ (by omega)]
    rcases Nat.eq_or_lt_of_le (show min j (xs.length - 1) ≤ min k (xs.length - 1) by omega) with
      heq | hlt
    · simp only [heq, le_refl]
    · exact List.pairwise_iff_getElem.mp (inOrder_pairwise xs) _ _ _ _ hlt

theorem orderSeq_mem {xs : List α} (hne : xs ≠ []) (k : ℕ) : orderSeq xs k ∈ xs :=
  (orderSeq_stat hne k).mem

/-- The first is the least, the last the greatest. -/
theorem orderSeq_bounds {xs : List α} {v : α} (hv : v ∈ xs) :
    orderSeq xs 0 ≤ v ∧ v ≤ orderSeq xs (xs.length - 1) := by
  obtain ⟨k, hk, rfl⟩ := List.getElem_of_mem ((inOrder_perm xs).mem_iff.mpr hv)
  have hlen := inOrder_length xs
  have heq : (inOrder xs)[k] = orderSeq xs k := by
    have hmin : min k (xs.length - 1) = k := by omega
    rw [orderSeq, List.getD_eq_getElem _ _ (by omega)]
    simp only [hmin]
  rw [heq]
  exact ⟨orderSeq_mono xs (Nat.zero_le k), orderSeq_mono xs (by omega)⟩

end Sequence

/-! ## On the line between neighbours -/

section Line

variable {α : Type} [Field α] [LinearOrder α] [IsStrictOrderedRing α] [FloorSemiring α]

/-- The value at position `p` of a sequence: on the line from the value before it to the next. -/
def lerp (x : ℕ → α) (p : α) : α := x ⌊p⌋₊ + (x (⌊p⌋₊ + 1) - x ⌊p⌋₊) * (p - ⌊p⌋₊)

theorem lerp_natCast (x : ℕ → α) (k : ℕ) : lerp x (k : α) = x k := by
  rw [lerp, Nat.floor_natCast, sub_self, mul_zero, add_zero]

theorem lerp_bounds {x : ℕ → α} (hx : Monotone x) {p : α} (hp : 0 ≤ p) :
    x ⌊p⌋₊ ≤ lerp x p ∧ lerp x p ≤ x (⌊p⌋₊ + 1) := by
  have hstep : 0 ≤ x (⌊p⌋₊ + 1) - x ⌊p⌋₊ := sub_nonneg.mpr (hx (Nat.le_succ _))
  have hlow : 0 ≤ p - ⌊p⌋₊ := sub_nonneg.mpr (Nat.floor_le hp)
  have hhigh : p - ⌊p⌋₊ ≤ 1 := by
    have := Nat.lt_floor_add_one p
    linarith
  have hmul := mul_nonneg hstep hlow
  have hmul' := mul_le_mul_of_nonneg_left hhigh hstep
  rw [mul_one] at hmul'
  unfold lerp
  exact ⟨by linarith, by linarith⟩

theorem lerp_mono {x : ℕ → α} (hx : Monotone x) {p q : α} (hp : 0 ≤ p) (h : p ≤ q) :
    lerp x p ≤ lerp x q := by
  rcases Nat.eq_or_lt_of_le (Nat.floor_mono h) with heq | hlt
  · -- on one line, which does not go down
    have hstep : 0 ≤ x (⌊q⌋₊ + 1) - x ⌊q⌋₊ := sub_nonneg.mpr (hx (Nat.le_succ _))
    have hmul := mul_le_mul_of_nonneg_left (sub_le_sub_right h (⌊q⌋₊ : α)) hstep
    unfold lerp
    rw [heq]
    linarith
  · calc lerp x p ≤ x (⌊p⌋₊ + 1) := (lerp_bounds hx hp).2
      _ ≤ x ⌊q⌋₊ := hx hlt
      _ ≤ lerp x q := (lerp_bounds hx (hp.trans h)).1

end Line

/-! ## The quantiles of a list -/

section Quantile

variable {α : Type} [Field α] [LinearOrder α] [IsStrictOrderedRing α] [FloorSemiring α]

/-- The quantile `q`, at position `q (n - 1)`. -/
def quantile (xs : List α) (q : α) : α := lerp (orderSeq xs) (((xs.length - 1 : ℕ) : α) * q)

omit [IsStrictOrderedRing α] in
theorem quantile_congr {xs ys : List α} (h : xs.Perm ys) (q : α) : quantile xs q = quantile ys q := by
  have hseq : orderSeq xs = orderSeq ys := by
    funext k
    rw [orderSeq, orderSeq, inOrder_congr h, h.length_eq]
  rw [quantile, quantile, hseq, h.length_eq]

/-- Quantiles are in the order of their positions, between the least and the greatest value. -/
theorem quantile_mono (xs : List α) {q r : α} (hq : 0 ≤ q) (h : q ≤ r) :
    quantile xs q ≤ quantile xs r :=
  lerp_mono (orderSeq_mono xs) (mul_nonneg (Nat.cast_nonneg _) hq)
    (mul_le_mul_of_nonneg_left h (Nat.cast_nonneg _))

theorem quantile_zero (xs : List α) : quantile xs 0 = orderSeq xs 0 := by
  have h := lerp_natCast (orderSeq xs) 0
  rw [Nat.cast_zero] at h
  rw [quantile, mul_zero, h]

theorem quantile_one (xs : List α) : quantile xs 1 = orderSeq xs (xs.length - 1) := by
  rw [quantile, mul_one, lerp_natCast]

end Quantile

end GeistServe.Lib
