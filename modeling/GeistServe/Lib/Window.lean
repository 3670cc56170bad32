import Mathlib.Algebra.Group.Nat.Defs
import Mathlib.Data.List.Basic

/-!
# Windows on a log

A store of bounded size is a window on the log of all that was ever put into
it. Two things leave it: what the bound pushes out, which is the front of the
log (`newest`), and what a rule of its own removes, which can stand anywhere
(`Sifted`). `Sifted` is closed under what such a store does: to append, to filter
by the rule, and to push out the front.
-/

namespace GeistServe.Lib

variable {α : Type}

/-! ## The newest elements -/

/-- The last `n` elements. -/
def newest (n : Nat) (xs : List α) : List α := xs.drop (xs.length - n)

theorem newest_length_le (n : Nat) (xs : List α) : (newest n xs).length ≤ n := by
  rw [newest, List.length_drop]
  omega

theorem newest_of_le {n : Nat} {xs : List α} (h : xs.length ≤ n) : newest n xs = xs := by
  rw [newest, Nat.sub_eq_zero_of_le h, List.drop_zero]

theorem newest_suffix (n : Nat) (xs : List α) : ∃ front, xs = front ++ newest n xs :=
  ⟨xs.take (xs.length - n), (List.take_append_drop _ xs).symm⟩

theorem mem_of_newest {n : Nat} {xs : List α} {x : α} (h : x ∈ newest n xs) : x ∈ xs :=
  List.mem_of_mem_drop h

/-- A full window that takes one more loses its first. -/
theorem newest_push {n : Nat} {xs : List α} (h : xs.length = n) (hn : 0 < n) (x : α) :
    newest n (xs ++ [x]) = xs.tail ++ [x] := by
  have hone : (xs ++ [x]).length - n = 1 := by
    rw [List.length_append, List.length_singleton]
    omega
  rw [newest, hone, List.drop_append_of_le_length (by omega), List.drop_one]

/-- What was pushed out once does not come back. -/
theorem newest_append (n : Nat) (xs ys : List α) :
    newest n (newest n xs ++ ys) = newest n (xs ++ ys) := by
  by_cases h : xs.length ≤ n
  · rw [newest_of_le h]
  · have hdrop : (xs.length - n) + ((newest n xs ++ ys).length - n) = (xs ++ ys).length - n := by
      rw [newest, List.length_append, List.length_append, List.length_drop]
      omega
    calc newest n (newest n xs ++ ys)
        = (xs.drop (xs.length - n) ++ ys).drop ((newest n xs ++ ys).length - n) := rfl
      _ = ((xs ++ ys).drop (xs.length - n)).drop ((newest n xs ++ ys).length - n) := by
          rw [List.drop_append_of_le_length (Nat.sub_le _ _)]
      _ = newest n (xs ++ ys) := by
          rw [List.drop_drop, hdrop, newest]

/-- What is not in the log and is completed by what is put behind it shows in a
window that is one short of both. -/
theorem infix_newest {n : Nat} {s xs ys : List α} (hno : ¬ s <:+: xs)
    (hlen : s.length + ys.length ≤ n + 1) :
    s <:+: newest n (xs ++ ys) ↔ s <:+: xs ++ ys := by
  constructor
  · intro h
    exact h.trans (List.drop_suffix _ _).isInfix
  · rintro ⟨front, back, heq⟩
    have hback : back.length < ys.length := by
      by_contra hge
      have hpre : front ++ s <+: xs ++ ys := ⟨back, heq⟩
      have hle : (front ++ s).length ≤ xs.length := by
        have hsum := congrArg List.length heq
        simp only [List.length_append] at hsum ⊢
        omega
      have hin := List.prefix_of_prefix_length_le hpre (List.prefix_append xs ys) hle
      exact hno ((List.suffix_append front s).isInfix.trans hin.isInfix)
    have hcut : (xs ++ ys).length - n ≤ front.length := by
      have hsum := congrArg List.length heq
      simp only [List.length_append] at hsum ⊢
      omega
    refine ⟨front.drop ((xs ++ ys).length - n), back, ?_⟩
    rw [newest, List.append_assoc, ← List.drop_append_of_le_length hcut, ← List.append_assoc, heq]

/-! ## What a rule leaves -/

/-- `ys` is what is left of `xs` when some elements that meet `p` are gone. -/
inductive Sifted (p : α → Prop) : List α → List α → Prop where
  | nil : Sifted p [] []
  | keep {xs ys : List α} (x : α) (h : Sifted p xs ys) : Sifted p (x :: xs) (x :: ys)
  | gone {xs ys : List α} {x : α} (hx : p x) (h : Sifted p xs ys) : Sifted p (x :: xs) ys

namespace Sifted

variable {p q : α → Prop} {xs ys : List α}

theorem refl (xs : List α) : Sifted p xs xs := by
  induction xs with
  | nil => exact .nil
  | cons x xs ih => exact .keep x ih

theorem mono (hpq : ∀ x, p x → q x) (h : Sifted p xs ys) : Sifted q xs ys := by
  induction h with
  | nil => exact .nil
  | keep x _ ih => exact .keep x ih
  | gone hx _ ih => exact .gone (hpq _ hx) ih

theorem sublist (h : Sifted p xs ys) : ys.Sublist xs := by
  induction h with
  | nil => exact .slnil
  | keep x _ ih => exact ih.cons_cons x
  | gone _ _ ih => exact ih.cons _

theorem append {xs' ys' : List α} (h : Sifted p xs ys) (h' : Sifted p xs' ys') :
    Sifted p (xs ++ xs') (ys ++ ys') := by
  induction h with
  | nil => exact h'
  | keep x _ ih => exact .keep x ih
  | gone hx _ ih => exact .gone hx ih

/-- To remove more of what meets the rule. -/
theorem filter {f : α → Bool} (hf : ∀ x, f x = false → p x) (h : Sifted p xs ys) :
    Sifted p xs (ys.filter f) := by
  induction h with
  | nil => exact .nil
  | keep x _ ih =>
      rw [List.filter_cons]
      split
      · exact .keep x ih
      · next hx => exact .gone (hf x (Bool.eq_false_iff.mpr hx)) ih
  | gone hx _ ih => exact .gone hx ih

/-- What is left of a log splits where the log does. -/
theorem split {zs : List α} : ∀ {xs ys : List α}, Sifted p xs (ys ++ zs) →
    ∃ front back, xs = front ++ back ∧ Sifted p front ys ∧ Sifted p back zs := by
  intro xs
  induction xs with
  | nil =>
      intro ys h
      cases ys with
      | nil => exact ⟨[], [], rfl, .nil, h⟩
      | cons => cases h
  | cons x xs ih =>
      intro ys h
      cases ys with
      | nil => exact ⟨[], x :: xs, rfl, .nil, h⟩
      | cons y ys =>
          cases h with
          | keep _ h =>
              obtain ⟨front, back, rfl, hfront, hback⟩ := ih h
              exact ⟨x :: front, back, rfl, .keep x hfront, hback⟩
          | gone hx h =>
              obtain ⟨front, back, rfl, hfront, hback⟩ := ih h
              exact ⟨x :: front, back, rfl, .gone hx hfront, hback⟩

/-- To push out the front of what is left is to forget the front of the log. -/
theorem newest (h : Sifted p xs ys) (n : Nat) :
    ∃ front back, xs = front ++ back ∧ Sifted p back (Lib.newest n ys) := by
  obtain ⟨gone, heq⟩ := newest_suffix n ys
  rw [heq] at h
  obtain ⟨front, back, hxs, _, hback⟩ := split h
  exact ⟨front, back, hxs, hback⟩

end Sifted

end GeistServe.Lib
