import GeistServe.Json.Tree

/-!
# White space

The writers of the client and of the daemon put no white space between the tokens
of a text, other writers do. `Spaced s s'` says that `s` is `s'` with white space
put in between; strings and primitives are left as they are. The tokens of both
texts say the same (`Proofs/Spaced.lean`), so what is shown of a printed tree
holds for every text of it.
-/

namespace GeistServe.Json

open GeistServe.Lib

abbrev isBlank (c : UInt8) : Prop := c = 9 ∨ c = 13 ∨ c = 10 ∨ c = 32

/-- A character that is a token of its own: a bracket, a colon or a comma. -/
abbrev isMark (c : UInt8) : Prop :=
  c = 123 ∨ c = 125 ∨ c = 91 ∨ c = 93 ∨ c = 58 ∨ c = 44

inductive Spaced : Bytes → Bytes → Prop where
  | nil : Spaced [] []
  | space {c : UInt8} {s s' : Bytes} (hc : isBlank c) (h : Spaced s s') : Spaced (c :: s) s'
  | mark {c : UInt8} {s s' : Bytes} (hc : isMark c) (h : Spaced s s') : Spaced (c :: s) (c :: s')
  | str {raw s s' : Bytes} (hraw : Quotable raw) (h : Spaced s s') :
      Spaced (34 :: (raw ++ 34 :: s)) (34 :: (raw ++ 34 :: s'))
  | prim {raw s s' : Bytes} (hraw : IsPrim raw) (hend : Ended s') (h : Spaced s s') :
      Spaced (raw ++ s) (raw ++ s')

/-- A text of an object: its members, with white space between the tokens. -/
def ObjectText (src : Bytes) (ms : List (Bytes × Tree)) : Prop :=
  ValidMembers ms ∧ Spaced src (Tree.obj ms).print

/-! ## A printed tree is a text of itself -/

mutual

theorem Tree.spaced {s s' : Bytes} (h : Spaced s s') :
    ∀ v : Tree, v.Valid → (v.isPrim = true → Ended s') → Spaced (v.print ++ s) (v.print ++ s')
  | .str raw, hv, _ => by
      rw [Tree.print, List.cons_append, List.cons_append, List.append_assoc, List.append_assoc]
      exact .str hv h
  | .prim raw, hv, hend => .prim hv (hend rfl) h
  | .arr xs, hv, _ => by
      rw [Tree.print, List.cons_append, List.cons_append, List.append_assoc, List.append_assoc]
      exact .mark (by decide) (items_spaced (.mark (by decide) h) ⟨93, s', rfl, .inr (.inl rfl)⟩
        (.inl rfl) xs hv)
  | .obj ms, hv, _ => by
      rw [Tree.print, List.cons_append, List.cons_append, List.append_assoc, List.append_assoc]
      exact .mark (by decide) (members_spaced (.mark (by decide) h) ⟨125, s', rfl, .inr (.inr rfl)⟩
        (.inl rfl) ms hv)

theorem items_spaced {s s' sep : Bytes} (h : Spaced s s') (hend : Ended s')
    (hsep : sep = [] ∨ sep = [44]) : ∀ xs : List Tree, ValidItems xs →
      Spaced (printItems sep xs ++ s) (printItems sep xs ++ s')
  | [], _ => h
  | x :: xs, hv => by
      have hrest := items_spaced h hend (.inr rfl) xs hv.2
      have hfollow : Ended (printItems [44] xs ++ s') := by
        cases xs with
        | nil => exact hend
        | cons x xs => exact ⟨44, _, rfl, .inl rfl⟩
      have hx := x.spaced hrest hv.1 fun _ => hfollow
      rw [printItems, List.append_assoc, List.append_assoc, List.append_assoc, List.append_assoc]
      rcases hsep with rfl | rfl
      · exact hx
      · exact .mark (by decide) hx

theorem members_spaced {s s' sep : Bytes} (h : Spaced s s') (hend : Ended s')
    (hsep : sep = [] ∨ sep = [44]) : ∀ ms : List (Bytes × Tree), ValidMembers ms →
      Spaced (printMembers sep ms ++ s) (printMembers sep ms ++ s')
  | [], _ => h
  | (key, v) :: ms, hv => by
      have hrest := members_spaced h hend (.inr rfl) ms hv.2.2
      have hfollow : Ended (printMembers [44] ms ++ s') := by
        cases ms with
        | nil => exact hend
        | cons m ms => exact ⟨44, _, rfl, .inl rfl⟩
      have hv' := v.spaced hrest hv.2.1 fun _ => hfollow
      have hmember := Spaced.str hv.1 (Spaced.mark (c := 58) (by decide) hv')
      rw [printMembers]
      simp only [List.append_assoc, List.cons_append] at hmember ⊢
      rcases hsep with rfl | rfl
      · exact hmember
      · exact .mark (by decide) hmember

end

theorem ObjectText.print {ms : List (Bytes × Tree)} (h : ValidMembers ms) :
    ObjectText (Tree.obj ms).print ms := by
  have hs := (Tree.obj ms).spaced .nil h fun h => by cases h
  rw [List.append_nil] at hs
  exact ⟨h, hs⟩

end GeistServe.Json
