import Mathlib.Algebra.Group.Nat.Defs
import Mathlib.Data.List.TakeWhile

/-!
# The words of a text

What stands between separators, however many of them there are. A reader that skips the
separators in front, and then takes what is no separator, has the first word, and stands in
front of the others (`words_word`).
-/

namespace GeistServe.Lib

variable {α : Type}

def words (sep : α → Bool) (s : List α) : List (List α) := (s.splitOnP sep).filter (· ≠ [])

theorem words_nil (sep : α → Bool) : words sep [] = [] := rfl

theorem words_sep {sep : α → Bool} {c : α} (hc : sep c = true) (s : List α) :
    words sep (c :: s) = words sep s := by
  have hsplit := @List.splitOnP_append_cons_of_forall_mem _ sep [] (fun x hx => by cases hx) c hc s
  rw [List.nil_append] at hsplit
  rw [words, hsplit, List.filter_cons_of_neg (by simp)]
  rfl

theorem words_dropWhile (sep : α → Bool) (s : List α) :
    words sep (s.dropWhile sep) = words sep s := by
  induction s with
  | nil => rfl
  | cons c s ih =>
      rw [List.dropWhile_cons]
      split
      · next hc => rw [ih, words_sep hc]
      · rfl

/-- The first word, and the others. -/
theorem words_word {sep : α → Bool} {w rest : List α} (hw : w ≠ [])
    (hword : ∀ c ∈ w, sep c = false) (hrest : ∀ c ∈ rest.head?, sep c = true) :
    words sep (w ++ rest) = w :: words sep rest := by
  cases rest with
  | nil =>
      rw [List.append_nil, words, List.splitOnP_eq_singleton hword, List.filter_cons_of_pos (by simpa),
        words_nil]
      rfl
  | cons c rest =>
      have hc := hrest c rfl
      rw [words, List.splitOnP_append_cons_of_forall_mem hword c hc,
        List.filter_cons_of_pos (by simpa), words_sep hc]
      rfl

end GeistServe.Lib
