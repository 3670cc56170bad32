import Mathlib.Order.CompletePartialOrder
import Mathlib.Algebra.Group.Nat.Defs
import Mathlib.Data.List.Basic
import Mathlib.Order.Interval.Set.Disjoint

/-!
# Giving out storage from the front

An allocator that only moves its mark forward: a block starts at the next multiple of its
alignment, and the mark goes to its end. Blocks that were given out one after the other lie
one behind the other (`Granted`), so no two of them have a place in common.
-/

namespace GeistServe.Lib

/-! ## Multiples -/

/-- The first multiple of `al` from `n` on. -/
def roundUp (n al : Nat) : Nat := (n + (al - 1)) / al * al

theorem dvd_roundUp (n al : Nat) : al ∣ roundUp n al := Nat.dvd_mul_left al _

theorem le_roundUp {al : Nat} (h : 0 < al) (n : Nat) : n ≤ roundUp n al := by
  have hdiv := Nat.div_add_mod (n + (al - 1)) al
  have hmod := Nat.mod_lt (n + (al - 1)) h
  have hcomm := Nat.mul_comm al ((n + (al - 1)) / al)
  show n ≤ (n + (al - 1)) / al * al
  omega

theorem roundUp_le (n al : Nat) : roundUp n al ≤ n + (al - 1) := Nat.div_mul_le_self _ _

/-- No multiple of the alignment lies between. -/
theorem roundUp_of_le {n al top : Nat} (hal : 0 < al) (hdvd : al ∣ top)
    (h : top ≤ n + (al - 1)) : top ≤ roundUp n al := by
  obtain ⟨k, rfl⟩ := hdvd
  have hk : k ≤ (n + (al - 1)) / al := by
    rw [Nat.le_div_iff_mul_le hal, Nat.mul_comm]
    exact h
  show al * k ≤ (n + (al - 1)) / al * al
  rw [Nat.mul_comm]
  exact Nat.mul_le_mul_right al hk

/-! ## Blocks -/

structure Block where
  start : Nat
  size : Nat
  deriving DecidableEq, Repr

def Block.stop (b : Block) : Nat := b.start + b.size

/-- The places of a block. -/
def Block.places (b : Block) : Set Nat := Set.Ico b.start b.stop

/-- The next block, if it fits. -/
def bump (cap used al n : Nat) : Option Block :=
  if roundUp used al + n ≤ cap then some ⟨roundUp used al, n⟩ else none

/-- The blocks were given out in this order while the mark went from `used` to `used'`. -/
inductive Granted (cap : Nat) : Nat → List Block → Nat → Prop where
  | none (used : Nat) : Granted cap used [] used
  | next {used used' : Nat} {b : Block} {bs : List Block} (hstart : used ≤ b.start)
      (hstop : b.stop ≤ cap) (hrest : Granted cap b.stop bs used') : Granted cap used (b :: bs) used'

theorem bump_some {cap used al n : Nat} {b : Block} (h : bump cap used al n = some b)
    (hal : 0 < al) :
    b.size = n ∧ al ∣ b.start ∧ used ≤ b.start ∧ b.stop ≤ cap := by
  unfold bump at h
  split at h
  · next hfits =>
      cases h
      exact ⟨rfl, dvd_roundUp _ _, le_roundUp hal _, hfits⟩
  · exact absurd h (by simp)

theorem Granted.mark_le {cap used used' : Nat} {bs : List Block} (h : Granted cap used bs used') :
    used ≤ used' := by
  induction h with
  | none => exact Nat.le_refl _
  | @next used used' b bs hstart _ _ ih =>
      have hstop : b.start ≤ b.stop := Nat.le_add_right _ _
      omega

theorem Granted.bounds {cap used used' : Nat} {bs : List Block} (h : Granted cap used bs used') :
    ∀ b ∈ bs, used ≤ b.start ∧ b.stop ≤ used' ∧ b.stop ≤ cap := by
  induction h with
  | none => exact fun b hb => absurd hb List.not_mem_nil
  | @next used used' b bs hstart hstop hrest ih =>
      intro c hc
      rcases List.mem_cons.mp hc with rfl | hc
      · exact ⟨hstart, hrest.mark_le, hstop⟩
      · obtain ⟨h₁, h₂, h₃⟩ := ih c hc
        have hb : b.start ≤ b.stop := Nat.le_add_right _ _
        exact ⟨by omega, h₂, h₃⟩

/-- No two of the blocks have a place in common. -/
theorem Granted.disjoint {cap used used' : Nat} {bs : List Block} (h : Granted cap used bs used') :
    bs.Pairwise fun b c => Disjoint b.places c.places := by
  induction h with
  | none => exact .nil
  | @next used used' b bs hstart hstop hrest ih =>
      refine .cons (fun c hc => ?_) ih
      have hbehind := (hrest.bounds c hc).1
      rw [Block.places, Block.places, Set.Ico_disjoint_Ico]
      exact (Nat.min_le_left _ _).trans (hbehind.trans (Nat.le_max_right _ _))

theorem Granted.append {cap u v w : Nat} {bs cs : List Block} (h : Granted cap u bs v)
    (h' : Granted cap v cs w) : Granted cap u (bs ++ cs) w := by
  induction h with
  | none => exact h'
  | next hstart hstop _ ih => exact .next hstart hstop (ih h')

end GeistServe.Lib
