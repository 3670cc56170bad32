import Mathlib.Data.List.Sort

/-!
# The best of a stream

A bounded buffer that is handed the elements of a list one after the other and
keeps the first `k` of them in a given order holds, at any time, the front of
the sorted list of what it was handed (`best`). One lemma per step is enough:
`best_concat` says what one more element does, and it is an insertion into the
buffer alone, not into the sorted list. What the order is called is left open;
`r a b` reads "`a` is at least as good as `b`".
-/

namespace GeistServe.Lib

variable {α : Type} (r : α → α → Prop) [DecidableRel r]

/-- The best `k` elements, best first. -/
def best (k : Nat) (xs : List α) : List α := (xs.insertionSort r).take k

theorem best_nil (k : Nat) : best r k [] = [] := by
  rw [best, List.insertionSort_nil, List.take_nil]

theorem best_length (k : Nat) (xs : List α) : (best r k xs).length = min k xs.length := by
  rw [best, List.length_take, List.length_insertionSort]

variable {r}

theorem mem_of_best {k : Nat} {xs : List α} {x : α} (h : x ∈ best r k xs) : x ∈ xs :=
  (List.mem_insertionSort r).mp (List.mem_of_mem_take h)

theorem nodup_best {k : Nat} {xs : List α} (h : xs.Nodup) : (best r k xs).Nodup :=
  ((List.perm_insertionSort r xs).nodup_iff.mpr h).sublist (List.take_sublist k _)

/-! ## Insertion -/

/-- Where an element goes: behind what it does not beat, before what it beats. -/
theorem orderedInsert_split {x : α} {front back : List α} (hfront : ∀ y ∈ front, ¬ r x y)
    (hback : ∀ y ∈ back.head?, r x y) :
    (front ++ back).orderedInsert r x = front ++ x :: back := by
  induction front with
  | nil =>
      cases back with
      | nil => rfl
      | cons y back => exact List.orderedInsert_cons_of_le r _ (hback y rfl)
  | cons y front ih =>
      rw [List.cons_append, List.orderedInsert_of_not_le r _ (hfront y List.mem_cons_self),
        ih fun z hz => hfront z (List.mem_cons_of_mem y hz)]
      rfl

/-- What the bound cuts off does not matter to what stays. -/
theorem take_orderedInsert (x : α) : ∀ (k : Nat) (xs : List α),
    ((xs.take k).orderedInsert r x).take k = (xs.orderedInsert r x).take k := by
  intro k xs
  induction xs generalizing k with
  | nil => rw [List.take_nil]
  | cons y xs ih =>
      cases k with
      | zero => rw [List.take_zero, List.take_zero]
      | succ k =>
          rw [List.take_succ_cons, List.orderedInsert_cons, List.orderedInsert_cons]
          split
          · rw [List.take_succ_cons, List.take_succ_cons]
            cases k with
            | zero => rfl
            | succ k =>
                rw [List.take_succ_cons, List.take_succ_cons, List.take_take,
                  Nat.min_eq_left (Nat.le_succ k)]
          · rw [List.take_succ_cons, List.take_succ_cons, ih]

variable [Std.Total r] [IsTrans α r]

theorem best_pairwise (k : Nat) (xs : List α) : (best r k xs).Pairwise r :=
  (List.pairwise_insertionSort r xs).sublist (List.take_sublist k _)

/-- What is kept is at least as good as what is not. -/
theorem best_ahead {k : Nat} {xs : List α} {x y : α} (hx : x ∈ best r k xs) (hy : y ∈ xs)
    (hout : y ∉ best r k xs) : r x y := by
  have hsorted := List.pairwise_insertionSort r xs
  rw [← List.take_append_drop k (xs.insertionSort r), List.pairwise_append] at hsorted
  have hmem : y ∈ (xs.insertionSort r).take k ++ (xs.insertionSort r).drop k := by
    rw [List.take_append_drop]
    exact (List.mem_insertionSort r).mpr hy
  rcases List.mem_append.mp hmem with hin | hrest
  · exact absurd hin hout
  · exact hsorted.2.2 x hx y hrest

variable [Std.Antisymm r]

/-- A sorted list does not depend on the order in which its elements came. -/
theorem insertionSort_concat (xs : List α) (x : α) :
    (xs ++ [x]).insertionSort r = (xs.insertionSort r).orderedInsert r x := by
  have hperm : (xs ++ [x]).Perm (x :: xs) := List.perm_append_singleton x xs
  refine List.Perm.eq_of_pairwise' (r := r) (List.pairwise_insertionSort r _)
    ((List.pairwise_insertionSort r xs).orderedInsert x _) ?_
  exact (List.perm_insertionSort r _).trans
    (hperm.trans (List.perm_insertionSort r (x :: xs)).symm)

/-- One more element of the stream is inserted into what was kept. -/
theorem best_concat (k : Nat) (xs : List α) (x : α) :
    best r k (xs ++ [x]) = ((best r k xs).orderedInsert r x).take k := by
  rw [best, insertionSort_concat, best, take_orderedInsert]

end GeistServe.Lib
