import Mathlib.Data.List.Basic
import Mathlib.Data.List.Infix
import Mathlib.Data.List.TakeWhile

/-!
# The first occurrence, and lines that two bytes end

`find` is a search from the left. What it finds does not move when more text comes
(`find_append`), so a text can be searched while it still arrives.

A line end of two different symbols cannot overlap itself. Lines without one are therefore
where the search finds them, and the blank line that closes a block of lines is found behind
its last line (`find_blank_skip`, `find_blank_here`).
-/

namespace GeistServe.Lib

/-! ## The first occurrence -/

section
variable {α : Type} {needle before : List α}

/-- Nothing starts in `before` that `needle` completes. -/
def Front (needle before : List α) : Prop :=
  ∀ m < before.length, ¬ needle <+: (before ++ needle).drop m

theorem front_nil : Front needle ([] : List α) := by
  intro m hm
  exact absurd hm (Nat.not_lt_zero m)

theorem Front.tail {c : α} (h : Front needle (c :: before)) : Front needle before := by
  intro m hm
  exact h (m + 1) (Nat.succ_lt_succ hm)

/-- What starts in `before` and is as long as `needle` does not reach behind `needle`. -/
theorem prefix_within {more : List α} {n : Nat} (hn : n < before.length)
    (h : needle <+: (before ++ needle ++ more).drop n) : needle <+: (before ++ needle).drop n := by
  have hlen : needle.length ≤ ((before ++ needle).drop n).length := by
    rw [List.length_drop, List.length_append]
    omega
  rw [List.drop_append_of_le_length (by rw [List.length_append]; omega)] at h
  exact List.prefix_of_prefix_length_le h (List.prefix_append _ _) hlen

end

section
variable {α : Type} [DecidableEq α] {needle hay before : List α} {n : Nat}

/-- The place of the first occurrence. -/
def find (needle : List α) : List α → Option Nat
  | [] => if needle = [] then some 0 else none
  | c :: hay =>
      if needle.isPrefixOf (c :: hay) then some 0 else (find needle hay).map (· + 1)

theorem find_leading (h : needle <+: hay) : find needle hay = some 0 := by
  cases hay with
  | nil => rw [find, if_pos (List.prefix_nil.mp h)]
  | cons c hay => rw [find, if_pos (List.isPrefixOf_iff_prefix.mpr h)]

theorem find_cons {c : α} (h : ¬ needle <+: c :: hay) :
    find needle (c :: hay) = (find needle hay).map (· + 1) := by
  rw [find, if_neg (fun hp => h (List.isPrefixOf_iff_prefix.mp hp))]

theorem find_front (h : Front needle before) (rest : List α) :
    find needle (before ++ needle ++ rest) = some before.length := by
  induction before with
  | nil =>
      rw [List.nil_append]
      exact find_leading (List.prefix_append _ _)
  | cons c before ih =>
      have hnot : ¬ needle <+: c :: (before ++ needle ++ rest) := fun hp =>
        h 0 (Nat.succ_pos _) (prefix_within (Nat.succ_pos _) hp)
      rw [List.cons_append, List.cons_append, find_cons hnot, ih h.tail]
      rfl

theorem find_some (h : find needle hay = some n) :
    ∃ before behind, hay = before ++ needle ++ behind ∧ before.length = n ∧
      Front needle before := by
  induction hay generalizing n with
  | nil =>
      rw [find] at h
      split at h
      · next hnil =>
          cases h
          exact ⟨[], [], by rw [hnil]; rfl, rfl, front_nil⟩
      · cases h
  | cons c hay ih =>
      by_cases hp : needle <+: c :: hay
      · rw [find_leading hp] at h
        cases h
        obtain ⟨behind, hbehind⟩ := hp
        exact ⟨[], behind, hbehind.symm, rfl, front_nil⟩
      · rw [find_cons hp] at h
        obtain ⟨k, hk, rfl⟩ := Option.map_eq_some_iff.mp h
        obtain ⟨before, behind, rfl, rfl, hfront⟩ := ih hk
        refine ⟨c :: before, behind, rfl, rfl, ?_⟩
        intro m hm hat
        cases m with
        | zero => exact hp (hat.trans (List.prefix_append (c :: before ++ needle) behind))
        | succ m => exact hfront m (Nat.lt_of_succ_lt_succ hm) hat

theorem find_inside (h : needle <:+: hay) : ∃ n, find needle hay = some n := by
  induction hay with
  | nil =>
      obtain rfl := List.infix_nil.mp h
      exact ⟨0, rfl⟩
  | cons c hay ih =>
      by_cases hp : needle <+: c :: hay
      · exact ⟨0, find_leading hp⟩
      · obtain ⟨n, hn⟩ := ih ((List.infix_cons_iff.mp h).resolve_left hp)
        exact ⟨n + 1, by rw [find_cons hp, hn]; rfl⟩

theorem find_append (h : find needle hay = some n) (more : List α) :
    find needle (hay ++ more) = some n := by
  obtain ⟨before, behind, rfl, rfl, hfront⟩ := find_some h
  rw [List.append_assoc]
  exact find_front hfront _

end

/-! ## Lines -/

section
variable {α : Type} {a b : α} {line rest : List α}

/-- The line end is not in the line. -/
abbrev Unbroken (a b : α) (line : List α) : Prop := ¬ [a, b] <:+: line

/-- Each line with its end. -/
def joined (a b : α) : List (List α) → List α
  | [] => []
  | l :: ls => l ++ [a, b] ++ joined a b ls

theorem unbroken_tail {c : α} (h : Unbroken a b (c :: line)) : Unbroken a b line :=
  fun hin => h (hin.trans (List.suffix_cons c line).isInfix)

theorem unbroken_front (hab : a ≠ b) (h : Unbroken a b line) : Front [a, b] line := by
  intro m hm hat
  rw [List.drop_append_of_le_length hm.le] at hat
  cases htail : line.drop m with
  | nil =>
      have hlen := congrArg List.length htail
      rw [List.length_drop, List.length_nil] at hlen
      omega
  | cons x xs =>
      rw [htail, List.cons_append, List.cons_prefix_cons] at hat
      obtain ⟨rfl, hat⟩ := hat
      cases xs with
      | nil =>
          rw [List.nil_append, List.cons_prefix_cons] at hat
          exact hab hat.1.symm
      | cons y ys =>
          rw [List.cons_append, List.cons_prefix_cons] at hat
          obtain ⟨rfl, -⟩ := hat
          have hin : [a, b] <:+: line.drop m := ⟨[], ys, by rw [htail]; rfl⟩
          exact h (hin.trans (List.drop_suffix m line).isInfix)

theorem front_unbroken (h : Front [a, b] line) : Unbroken a b line := by
  rintro ⟨s, t, rfl⟩
  refine h s.length ?_ ?_
  · rw [List.length_append, List.length_append]
    simp only [List.length_cons]
    omega
  · rw [List.append_assoc, List.append_assoc, List.drop_left]
    exact List.prefix_append _ _

/-- A line that starts something has no line end at its start. -/
theorem not_end_prefix (hab : a ≠ b) (h : Unbroken a b line) (hne : line ≠ []) (rest : List α) :
    ¬ [a, b] <+: line ++ [a, b] ++ rest := fun hp =>
  have hpos := List.length_pos_iff.mpr hne
  unbroken_front hab h 0 hpos (prefix_within hpos hp)

theorem blank_not_before (hab : a ≠ b) (h : Unbroken a b line) {m : Nat} (hm : m < line.length) :
    ¬ [a, b, a, b] <+: (line ++ [a, b] ++ rest).drop m := fun hat =>
  unbroken_front hab h m hm
    (prefix_within hm (List.IsPrefix.trans ⟨[a, b], rfl⟩ hat))

end

section
variable {α : Type} [DecidableEq α] {a b : α} {line rest : List α}

/-- A line ends where its end is first found. -/
theorem find_line (hab : a ≠ b) (h : Unbroken a b line) (rest : List α) :
    find [a, b] (line ++ [a, b] ++ rest) = some line.length :=
  find_front (unbroken_front hab h) rest

/-- The blank line, right behind a line. -/
theorem find_blank_here (hab : a ≠ b) (h : Unbroken a b line) (rest : List α) :
    find [a, b, a, b] (line ++ [a, b] ++ [a, b] ++ rest) = some line.length := by
  have hfront : Front [a, b, a, b] line := by
    intro m hm hat
    have hsplit : line ++ [a, b, a, b] = line ++ [a, b] ++ [a, b] := by
      rw [List.append_assoc]
      rfl
    rw [hsplit] at hat
    exact blank_not_before hab h hm hat
  rw [show line ++ [a, b] ++ [a, b] ++ rest = line ++ [a, b, a, b] ++ rest by
    simp only [List.append_assoc, List.cons_append, List.nil_append]]
  exact find_front hfront rest

/-- The blank line, behind a line that another one follows. -/
theorem find_blank_skip (hab : a ≠ b) (h : Unbroken a b line) (hrest : ¬ [a, b] <+: rest) :
    find [a, b, a, b] (line ++ [a, b] ++ rest) =
      (find [a, b, a, b] rest).map (· + (line.length + 2)) := by
  induction line with
  | nil =>
      have hfirst : ¬ [a, b, a, b] <+: a :: b :: rest := by
        rw [List.cons_prefix_cons, List.cons_prefix_cons]
        exact fun hp => hrest hp.2.2
      have hsecond : ¬ [a, b, a, b] <+: b :: rest := by
        rw [List.cons_prefix_cons]
        exact fun hp => hab hp.1
      show find _ (a :: b :: rest) = _
      rw [find_cons hfirst, find_cons hsecond, Option.map_map]
      rfl
  | cons c line ih =>
      have hnot : ¬ [a, b, a, b] <+: c :: (line ++ [a, b] ++ rest) := fun hp =>
        blank_not_before hab h (Nat.succ_pos _) hp
      rw [List.cons_append, List.cons_append, find_cons hnot, ih (unbroken_tail h),
        Option.map_map]
      rfl

/-- The blank line is behind the last line of a block. -/
theorem find_blank (hab : a ≠ b) {lines : List (List α)} (hfirst : Unbroken a b line)
    (hlines : ∀ l ∈ lines, Unbroken a b l ∧ l ≠ []) (rest : List α) :
    find [a, b, a, b] (line ++ [a, b] ++ joined a b lines ++ [a, b] ++ rest) =
      some (line.length + (joined a b lines).length) := by
  induction lines generalizing line with
  | nil =>
      rw [joined, List.append_nil, find_blank_here hab hfirst]
      rfl
  | cons l lines ih =>
      obtain ⟨hl, hne⟩ := hlines l List.mem_cons_self
      have hrest := not_end_prefix hab hl hne (joined a b lines ++ [a, b] ++ rest)
      have hassoc : line ++ [a, b] ++ joined a b (l :: lines) ++ [a, b] ++ rest =
          line ++ [a, b] ++ (l ++ [a, b] ++ (joined a b lines ++ [a, b] ++ rest)) := by
        rw [joined]
        simp only [List.append_assoc]
      rw [hassoc, find_blank_skip hab hfirst hrest]
      have hnext := ih hl (fun x hx => hlines x (List.mem_cons_of_mem l hx))
      simp only [List.append_assoc] at hnext ⊢
      rw [hnext, joined, Option.map_some]
      simp only [List.length_append, List.length_cons, List.length_nil]
      congr 1
      omega

/-- What stands in front of the first blank line is a line and others that are not blank. -/
theorem find_blank_lines (hab : a ≠ b) {hay : List α} {n : Nat}
    (h : find [a, b, a, b] hay = some n) :
    ∃ line lines rest, hay = line ++ [a, b] ++ joined a b lines ++ [a, b] ++ rest ∧
      Unbroken a b line ∧ ∀ l ∈ lines, Unbroken a b l ∧ l ≠ [] := by
  induction hlen : hay.length using Nat.strong_induction_on generalizing hay n with
  | _ len ih =>
      cases hline : find [a, b] hay with
      | none =>
          obtain ⟨before, behind, rfl, -, -⟩ := find_some h
          obtain ⟨k, hk⟩ : ∃ k, find [a, b] (before ++ [a, b, a, b] ++ behind) = some k :=
            find_inside ⟨before, [a, b] ++ behind, by
              simp only [List.append_assoc, List.cons_append, List.nil_append]⟩
          rw [hk] at hline
          cases hline
      | some k =>
          obtain ⟨line, rest, rfl, rfl, hfront⟩ := find_some hline
          have hun := front_unbroken hfront
          by_cases hblank : [a, b] <+: rest
          · obtain ⟨rest, rfl⟩ := hblank
            exact ⟨line, [], rest, by rw [joined]; simp only [List.append_assoc, List.nil_append],
              hun, fun l hl => absurd hl List.not_mem_nil⟩
          · rw [find_blank_skip hab hun hblank] at h
            obtain ⟨k, hk, -⟩ := Option.map_eq_some_iff.mp h
            have hless : rest.length < len := by
              rw [← hlen]
              simp only [List.length_append, List.length_cons, List.length_nil]
              omega
            obtain ⟨second, lines, behind, rfl, hsecond, hlines⟩ := ih rest.length hless hk rfl
            refine ⟨line, second :: lines, behind, ?_, hun, ?_⟩
            · simp only [joined, List.append_assoc]
            · intro l hl
              rcases List.mem_cons.mp hl with rfl | hl
              · refine ⟨hsecond, ?_⟩
                rintro rfl
                exact hblank ⟨joined a b lines ++ [a, b] ++ behind, by
                  simp only [List.append_assoc, List.nil_append]⟩
              · exact hlines l hl

end

end GeistServe.Lib
