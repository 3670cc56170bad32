import Mathlib.Algebra.Group.Nat.Defs
import Mathlib.Data.List.Basic
import Mathlib.Data.List.Forall2

/-!
# The common start of two lists

`agree r xs ys` counts how far two lists agree position by position under a
test `r`. It is the loop that every diff against a resident history runs:
walk both lists while both have an element and the test holds. What a caller
needs of the count is one fact, `agree_take`: cut at it, the two lists are
related element by element. `agree_full` is the other end: a list that is
matched whole is counted whole.
-/

namespace GeistServe.Lib

variable {α β : Type}

/-- How far `xs` and `ys` agree under the test `r`. -/
def agree (r : α → β → Bool) : List α → List β → Nat
  | x :: xs, y :: ys => if r x y then agree r xs ys + 1 else 0
  | _, _ => 0

theorem agree_le_left (r : α → β → Bool) :
    ∀ (xs : List α) (ys : List β), agree r xs ys ≤ xs.length
  | [], _ => by simp [agree]
  | _ :: _, [] => by simp [agree]
  | x :: xs, y :: ys => by
      have ih := agree_le_left r xs ys
      rw [agree]
      split <;> simp [ih]

theorem agree_le_right (r : α → β → Bool) :
    ∀ (xs : List α) (ys : List β), agree r xs ys ≤ ys.length
  | [], _ => by simp [agree]
  | _ :: _, [] => by simp [agree]
  | x :: xs, y :: ys => by
      have ih := agree_le_right r xs ys
      rw [agree]
      split <;> simp [ih]

/-- Up to the count, the two lists are related element by element. -/
theorem agree_take (r : α → β → Bool) :
    ∀ (xs : List α) (ys : List β),
      List.Forall₂ (fun x y => r x y = true)
        (xs.take (agree r xs ys)) (ys.take (agree r xs ys))
  | [], _ => by simp [agree]
  | _ :: _, [] => by simp [agree]
  | x :: xs, y :: ys => by
      rw [agree]
      split
      · next hxy => simpa [hxy] using agree_take r xs ys
      · simp

/-- A list matched to its end is counted to its end, whatever follows on the
other side. -/
theorem agree_full {r : α → β → Bool} {xs : List α} {ys : List β}
    (h : List.Forall₂ (fun x y => r x y = true) xs ys) (zs : List β) :
    agree r xs (ys ++ zs) = xs.length := by
  induction h with
  | nil => simp [agree]
  | cons hxy _ ih => simp [agree, hxy, ih]

/-- For the equality test, cutting both lists at the count, or anywhere below
it, gives the same list. -/
theorem agree_beq_take [DecidableEq α] {xs ys : List α} {k : Nat}
    (hk : k ≤ agree (fun x y => decide (x = y)) xs ys) :
    xs.take k = ys.take k := by
  have h := agree_take (fun x y => decide (x = y)) xs ys
  have heq : xs.take (agree (fun x y => decide (x = y)) xs ys) =
      ys.take (agree (fun x y => decide (x = y)) xs ys) :=
    List.forall₂_eq_eq_eq ▸ (h.imp fun _ _ hxy => of_decide_eq_true hxy)
  have := congrArg (List.take k) heq
  rwa [List.take_take, List.take_take, Nat.min_eq_left hk] at this

/-- A start of `xs` is a start of `ys` just as far as the lists agree. -/
theorem take_prefix_iff [DecidableEq α] {xs ys : List α} {k : Nat} (hk : k ≤ xs.length) :
    xs.take k <+: ys ↔ k ≤ agree (fun x y => decide (x = y)) xs ys := by
  constructor
  · induction xs generalizing ys k with
    | nil =>
        intro _
        exact Nat.le_trans hk (Nat.zero_le _)
    | cons x xs ih =>
        intro h
        cases k with
        | zero => exact Nat.zero_le _
        | succ k =>
            cases ys with
            | nil => exact absurd (List.prefix_nil.mp h) (by simp)
            | cons y ys =>
                rw [List.take_succ_cons, List.cons_prefix_cons] at h
                rw [agree, if_pos (decide_eq_true h.1)]
                exact Nat.succ_le_succ (ih (Nat.le_of_succ_le_succ hk) h.2)
  · intro h
    rw [agree_beq_take h]
    exact List.take_prefix _ _

end GeistServe.Lib
