import Mathlib.Algebra.Group.Nat.Defs
import Mathlib.Data.Option.Basic

/-!
# A result kept under its key

A memo holds the last result with the key that it was made for, and makes it again
when it is asked under another key. It answers with what would be made now as long
as it is coherent: the result under the present key, if that is the one it holds,
is the present one. A key that comes back for something else breaks this.
-/

namespace GeistServe.Lib

structure Memo (κ β : Type) where
  entry : Option (κ × β)

namespace Memo

variable {κ β : Type} [DecidableEq κ]

/-- The result under the key `k`, with `v` the one that is made if there is none. -/
def get (m : Memo κ β) (k : κ) (v : β) : Memo κ β × β :=
  match m.entry with
  | some (k', b) => if k' = k then (m, b) else (⟨some (k, v)⟩, v)
  | none => (⟨some (k, v)⟩, v)

omit [DecidableEq κ] in
/-- What is held under the key is `v`. -/
def Coherent (m : Memo κ β) (k : κ) (v : β) : Prop := ∀ b, m.entry = some (k, b) → b = v

theorem get_snd {m : Memo κ β} {k : κ} {v : β} (h : m.Coherent k v) : (m.get k v).2 = v := by
  unfold get
  split
  · next k' b hentry =>
      split
      · next hk =>
          rw [hk] at hentry
          exact h b hentry
      · rfl
  · rfl

theorem get_coherent {m : Memo κ β} {k : κ} {v : β} (h : m.Coherent k v) :
    (m.get k v).1.Coherent k v := by
  intro b hb
  unfold get at hb
  split at hb
  · next k' b' hentry =>
      split at hb
      · exact h b hb
      · cases hb
        rfl
  · cases hb
    rfl

omit [DecidableEq κ] in
/-- A key under which nothing is held is coherent with everything. -/
theorem coherent_fresh {m : Memo κ β} {k : κ} (h : ∀ b, m.entry ≠ some (k, b)) (v : β) :
    m.Coherent k v :=
  fun b hb => absurd hb (h b)

end Memo

end GeistServe.Lib
