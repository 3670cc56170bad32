import Mathlib.Logic.Function.Basic
import Mathlib.Data.Nat.ModEq

/-!
# Sequence locks

Words that one writer at a time changes between two increments of a sequence
word, and a reader that takes the sequence, the words and the sequence again. The
sequence wraps: it is even just outside of a write, and it tells two moments apart
as long as fewer than `half` writes begin between them (`Reading.same`). Then what
the reader took stands in the words together.
-/

namespace GeistServe.Lib

/-- A sequence word and its words. `begun` counts the writes, for the proofs. -/
structure Lock (ι : Type) where
  seq : Nat := 0
  words : ι → Nat := fun _ => 0
  begun : Nat := 0

variable {ι : Type} {half : Nat}

/-- The first increment of a write. -/
def Lock.enter (half : Nat) (l : Lock ι) : Lock ι :=
  { l with seq := (l.seq + 1) % (2 * half), begun := l.begun + 1 }

/-- The second one. -/
def Lock.leave (half : Nat) (l : Lock ι) : Lock ι :=
  { l with seq := (l.seq + 1) % (2 * half) }

def Lock.store [DecidableEq ι] (l : Lock ι) (i : ι) (v : Nat) : Lock ι :=
  { l with words := Function.update l.words i v }

/-- The sequence counts the increments; `busy` says whether a write is under way. -/
structure Lock.Counts (half : Nat) (l : Lock ι) (busy : Bool) : Prop where
  seq : l.seq = (2 * l.begun - busy.toNat) % (2 * half)
  pos : busy.toNat ≤ l.begun

theorem Lock.Counts.new : ({} : Lock ι).Counts half false :=
  ⟨(Nat.zero_mod _).symm, Nat.zero_le _⟩

theorem Lock.Counts.enter {l : Lock ι} (h : l.Counts half false) :
    (l.enter half).Counts half true := by
  refine ⟨?_, Nat.succ_le_succ (Nat.zero_le _)⟩
  show (l.seq + 1) % (2 * half) = (2 * (l.begun + 1) - 1) % (2 * half)
  rw [h.seq, Nat.mod_add_mod]
  rfl

theorem Lock.Counts.leave {l : Lock ι} (h : l.Counts half true) :
    (l.leave half).Counts half false := by
  have hpos : 1 ≤ l.begun := h.pos
  refine ⟨?_, Nat.zero_le _⟩
  show (l.seq + 1) % (2 * half) = (2 * l.begun - 0) % (2 * half)
  rw [h.seq, Nat.mod_add_mod]
  congr 1
  show 2 * l.begun - 1 + 1 = 2 * l.begun - 0
  omega

theorem Lock.Counts.store [DecidableEq ι] {l : Lock ι} {busy : Bool} (h : l.Counts half busy)
    (i : ι) (v : Nat) : (l.store i v).Counts half busy := ⟨h.seq, h.pos⟩

/-- An even sequence is read outside of a write. -/
theorem Lock.Counts.even {l : Lock ι} {busy : Bool} (h : l.Counts half busy)
    (heven : l.seq % 2 = 0) : busy = false := by
  cases busy with
  | false => rfl
  | true =>
      have hpos : 1 ≤ l.begun := h.pos
      rw [h.seq, Nat.mod_mul_right_mod] at heven
      have : (2 * l.begun - 1) % 2 = 0 := heven
      omega

/-! ## Readers -/

/-- A reader between its two looks at the sequence: the words that it has still
to take and those that it took. `since` is the number of writes that had begun at
its first look, for the proofs. -/
structure Reading (ι : Type) where
  seq : Nat
  todo : List ι
  got : ι → Nat
  since : Nat

/-- The first look. -/
def Lock.look (l : Lock ι) (todo : List ι) : Reading ι := ⟨l.seq, todo, fun _ => 0, l.begun⟩

/-- The reader takes a word. -/
def Reading.take [DecidableEq ι] (r : Reading ι) (l : Lock ι) (i : ι) (todo : List ι) : Reading ι :=
  { r with todo := todo, got := Function.update r.got i (l.words i) }

/-- As long as no write has begun since its first look, what a reader took is what
stands there. -/
structure Reading.Fits (half : Nat) (r : Reading ι) (l : Lock ι) (busy : Bool) : Prop where
  seq : r.seq = 2 * r.since % (2 * half)
  since : r.since ≤ l.begun
  current : l.begun = r.since → busy = false ∧ ∀ i, i ∉ r.todo → r.got i = l.words i

theorem Lock.Counts.look {l : Lock ι} {busy : Bool} (h : l.Counts half busy) {todo : List ι}
    (hall : ∀ i, i ∈ todo) (heven : l.seq % 2 = 0) : (l.look todo).Fits half l busy := by
  have hbusy := h.even heven
  subst hbusy
  exact ⟨h.seq, Nat.le_refl _, fun _ => ⟨rfl, fun i hi => absurd (hall i) hi⟩⟩

theorem Reading.Fits.enter {r : Reading ι} {l : Lock ι} {busy : Bool} (h : r.Fits half l busy) :
    r.Fits half (l.enter half) true := by
  have hle := h.since
  refine ⟨h.seq, Nat.le_succ_of_le hle, fun heq => ?_⟩
  have heq : l.begun + 1 = r.since := heq
  omega

theorem Reading.Fits.store [DecidableEq ι] {r : Reading ι} {l : Lock ι} (h : r.Fits half l true)
    (i : ι) (v : Nat) : r.Fits half (l.store i v) true :=
  ⟨h.seq, h.since, fun heq => absurd (h.current heq).1 (by decide)⟩

theorem Reading.Fits.leave {r : Reading ι} {l : Lock ι} (h : r.Fits half l true) :
    r.Fits half (l.leave half) false :=
  ⟨h.seq, h.since, fun heq => absurd (h.current heq).1 (by decide)⟩

theorem Reading.Fits.take [DecidableEq ι] {r : Reading ι} {l : Lock ι} {busy : Bool} {i : ι}
    {todo : List ι} (h : r.Fits half l busy) (htodo : r.todo = i :: todo) :
    (r.take l i todo).Fits half l busy := by
  refine ⟨h.seq, h.since, fun heq => ?_⟩
  obtain ⟨hbusy, hgot⟩ := h.current heq
  refine ⟨hbusy, fun j hj => ?_⟩
  by_cases hji : j = i
  · subst hji
    exact Function.update_self ..
  · have hj : j ∉ r.todo := by
      rw [htodo, List.mem_cons, not_or]
      exact ⟨hji, hj⟩
    exact (Function.update_of_ne hji ..).trans (hgot j hj)

/-- A sequence that is the same twice was not passed by a write, unless half of
all its values went by. -/
theorem Reading.Fits.same {r : Reading ι} {l : Lock ι} {busy : Bool} (h : r.Fits half l busy)
    (hl : l.Counts half busy) (hseq : r.seq = l.seq) (hfew : l.begun < r.since + half)
    (htodo : r.todo = []) : busy = false ∧ l.begun = r.since ∧ r.got = l.words := by
  have heven : l.seq % 2 = 0 := by
    rw [← hseq, h.seq, Nat.mod_mul_right_mod, Nat.mul_mod_right]
  have hbusy := hl.even heven
  subst hbusy
  have hmod : 2 * r.since % (2 * half) = 2 * l.begun % (2 * half) := by
    rw [← h.seq, hseq, hl.seq]
    rfl
  rw [Nat.mul_mod_mul_left, Nat.mul_mod_mul_left] at hmod
  have hle := h.since
  have hdvd : half ∣ l.begun - r.since :=
    (Nat.modEq_iff_dvd' hle).mp (by show r.since % half = l.begun % half; omega)
  have hzero : l.begun - r.since = 0 := Nat.eq_zero_of_dvd_of_lt hdvd (by omega)
  have heq : l.begun = r.since := by omega
  refine ⟨rfl, heq, funext fun i => (h.current heq).2 i ?_⟩
  rw [htodo]
  exact List.not_mem_nil

end GeistServe.Lib
