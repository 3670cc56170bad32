import GeistServe.Perf.Journal

/-!
# The plainest records

Records that are numbers, written as so many `A`s and filled up with `B`s to a
line of a fixed width. The codec is lawful, so the assumptions of `Store.lean`
have a model, and with it a run of the journal can be computed.
-/

namespace GeistServe.Perf

open GeistServe.Lib

/-- The text of a line. -/
def unaryText (width n : Nat) : Bytes := List.replicate n 65 ++ List.replicate (width - n) 66

/-- Every record is valid, and its time is the start of time. -/
def unary (width : Nat) : Codec where
  Rec := Fin (width + 1)
  decEq := inferInstance
  id n := List.replicate n 65
  timestamp _ := 0
  line n := unaryText width n ++ [newline]
  decode l :=
    let n := (l.takeWhile (· = 65)).length
    if h : n < width + 1 then
      if l = unaryText width n ++ [newline] then some ⟨n, h⟩ else none
    else none
  valid _ _ := true

theorem unaryText_length {width n : Nat} (h : n ≤ width) :
    (unaryText width n).length = width := by
  rw [unaryText, List.length_append, List.length_replicate, List.length_replicate]
  omega

/-- The `A`s of a line are its number. -/
theorem unaryText_count (width n : Nat) :
    ((unaryText width n ++ [newline]).takeWhile (· = 65)).length = n := by
  have hhead : (List.replicate (width - n) (66 : UInt8) ++ [newline]).takeWhile (· = 65) = [] := by
    cases width - n with
    | zero => rfl
    | succ k => rfl
  have hall : ∀ b ∈ List.replicate n (65 : UInt8), decide (b = 65) = true := by
    intro b hb
    exact decide_eq_true (List.eq_of_mem_replicate hb)
  rw [unaryText, List.append_assoc, List.takeWhile_append_of_pos hall, hhead, List.append_nil,
    List.length_replicate]

theorem unary_is_line (width : Nat) (n : Fin (width + 1)) : IsLine ((unary width).line n) := by
  have hbytes : ∀ b ∈ unaryText width n, b = 65 ∨ b = 66 := by
    intro b hb
    rcases List.mem_append.mp hb with hb | hb
    · exact .inl (List.eq_of_mem_replicate hb)
    · exact .inr (List.eq_of_mem_replicate hb)
  refine ⟨unaryText width n, rfl, fun h => ?_, fun h => ?_⟩
  · rcases hbytes _ h with h | h <;> exact absurd h (by decide)
  · rcases hbytes _ h with h | h <;> exact absurd h (by decide)

theorem unary_length (width : Nat) (n : Fin (width + 1)) :
    ((unary width).line n).length = width + 1 := by
  have hlen := unaryText_length (Nat.lt_succ_iff.mp n.isLt)
  exact (List.length_append ..).trans (congrArg (· + 1) hlen)

instance (width : Nat) : LawfulCodec (unary width) where
  is_line := unary_is_line width
  decode_line := fun (n : Fin (width + 1)) => by
    have hcount := unaryText_count width n
    simp only [unary, hcount, n.isLt, dite_true, if_true]
  decode_torn := fun (n : Fin (width + 1)) p q h hq => by
    have hlen := congrArg List.length h
    rw [unary_length] at hlen
    simp only [List.length_append, List.length_singleton] at hlen
    have hpos := List.length_pos_iff.mpr hq
    simp only [unary]
    split
    · next hlt =>
        rw [if_neg]
        intro heq
        have := congrArg List.length heq
        rw [List.length_append, List.length_append,
          unaryText_length (Nat.lt_succ_iff.mp hlt)] at this
        omega
    · rfl
  valid_later _ _ _ _ _ := rfl

end GeistServe.Perf
