import Mathlib.Algebra.Group.Nat.Defs
import Mathlib.Order.Defs.LinearOrder

/-!
# Logits helpers

`peek` and `step` answer with the best of the pending logits. `topk` collects
them in two arrays of `TOPK_MAX` entries, the ids and the values, that it keeps
sorted; here the two are one list, as long as `m` says they are filled. A read
or a write that would be outside of an array makes the answer `none`: C leaves
it undefined.

The values are anything with a `<` and a `<=`; floats are compared by both, and
with NaN among them neither is an order. The numbers that are printed, `vals[i] - z`
with the normaliser `z`, are floating point and not part of this file.
-/

namespace GeistServe.Geistd

/-- The most candidates a reply can carry, and the size of both arrays. -/
def TOPK_MAX : Nat := 256

/-- The cast `(int32_t) i` of an index. -/
def castId (i : Nat) : Int := (i : Int).bmod (2 ^ 32)

theorem castId_of_lt {i : Nat} (h : i < 2 ^ 31) : castId i = i := by
  have hlow : -((2 ^ 32 : Nat) / 2 : Int) ≤ (i : Int) := by omega
  have hhigh : (i : Int) < (((2 ^ 32 : Nat) : Int) + 1) / 2 := by omega
  exact Int.bmod_eq_of_le hlow hhigh

variable {α : Type} [LT α] [LE α] [DecidableLT α] [DecidableLE α]

/-- The filled part of `ids` and `vals`. -/
abbrev Tops (α : Type) := List (Int × α)

/-- The inner loop: from `j` down to the entry in front of which `v` goes. -/
def shiftTo (v : α) (buf : Tops α) : Nat → Option Nat
  | 0 => some 0
  | j + 1 =>
      match buf[j]? with
      | none => none
      | some e => if e.2 < v then shiftTo v buf j else some (j + 1)

/-- The test that skips a value: the buffer is full and its last entry is no
smaller. -/
def skips (k : Nat) (buf : Tops α) (v : α) : Option Bool :=
  if buf.length = k then buf.getLast?.map fun e => decide (v ≤ e.2) else some false

/-- The end of a turn: the value is put into the buffer, from whose end it
pushes out the last entry when there is no free one. -/
def topkPut (k : Nat) (buf : Tops α) (i : Nat) (v : α) : Option (Tops α) :=
  let last := if buf.length < k then buf.length else k - 1
  if last < TOPK_MAX then
    (shiftTo v buf last).map fun j =>
      buf.take j ++ (castId i, v) :: (buf.take last).drop j
  else none

/-- One turn of the loop of `topk`, for the value `v` at `i`. -/
def topkStep (k : Nat) (buf : Tops α) (i : Nat) (v : α) : Option (Tops α) :=
  match skips k buf v with
  | none => none
  | some true => some buf
  | some false => topkPut k buf i v

/-- The loop of `topk`, from the value at `i` on. -/
def topkFrom (k : Nat) : Nat → Tops α → List α → Option (Tops α)
  | _, buf, [] => some buf
  | i, buf, v :: rest => (topkStep k buf i v).bind fun buf => topkFrom k (i + 1) buf rest

/-- Top-k by logit. -/
def topk (k : Nat) (x : List α) : Option (Tops α) := topkFrom k 0 [] x

/-- The candidates of `sb_topk`. -/
def sbTopk (k : Nat) (x : List α) : Option (Tops α) := topk (min k TOPK_MAX) x

end GeistServe.Geistd
