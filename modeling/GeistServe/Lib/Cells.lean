import Mathlib.Algebra.Group.Nat.Defs
import Mathlib.Data.List.Basic
import Mathlib.Data.List.TakeWhile

/-!
# Writing into cells

A piece of storage is the list of its cells, and writing outside of it has no
result. A `Pen` goes through the cells from the front, the way a loop does that
writes `out[o++]`: whether it stays in its cells is a matter of how much it writes,
and what it leaves is what it wrote, in front of what was there.
-/

namespace GeistServe.Lib

variable {α : Type}

/-- The cells after `xs` has been written from place `i` on. -/
def store (m : List α) (i : Nat) (xs : List α) : Option (List α) :=
  if i + xs.length ≤ m.length then some (m.take i ++ xs ++ m.drop (i + xs.length)) else none

theorem store_fits {m xs : List α} {i : Nat} (h : i + xs.length ≤ m.length) :
    store m i xs = some (m.take i ++ xs ++ m.drop (i + xs.length)) := if_pos h

theorem store_some {m m' xs : List α} {i : Nat} (h : store m i xs = some m') :
    i + xs.length ≤ m.length ∧ m' = m.take i ++ xs ++ m.drop (i + xs.length) := by
  unfold store at h
  split at h
  · next hfits => exact ⟨hfits, (Option.some.inj h).symm⟩
  · exact absurd h (by simp)

theorem store_length {m m' xs : List α} {i : Nat} (h : store m i xs = some m') :
    m'.length = m.length := by
  obtain ⟨hfits, rfl⟩ := store_some h
  simp only [List.length_append, List.length_take, List.length_drop]
  omega

/-- Up to the end of what was written. -/
theorem store_written {m m' xs : List α} {i : Nat} (h : store m i xs = some m') :
    m'.take (i + xs.length) = m.take i ++ xs := by
  obtain ⟨hfits, rfl⟩ := store_some h
  have hlen : (m.take i ++ xs).length = i + xs.length := by
    rw [List.length_append, List.length_take]
    omega
  rw [← hlen, List.take_left]

theorem store_read {m m' xs : List α} {i : Nat} (h : store m i xs = some m') :
    (m'.drop i).take xs.length = xs := by
  have hfits := (store_some h).1
  have hlen : (m.take i).length = i := by
    rw [List.length_take]
    omega
  have hdrop := @List.drop_left _ (m.take i) xs
  rw [hlen] at hdrop
  rw [List.take_drop, store_written h, hdrop]

theorem store_before {m m' xs : List α} {i : Nat} (h : store m i xs = some m') :
    m'.take i = m.take i := by
  have hfits := (store_some h).1
  have hlen : (m.take i).length = i := by
    rw [List.length_take]
    omega
  have htake := congrArg (List.take i) (store_written h)
  rw [List.take_take, Nat.min_eq_left (by omega), List.take_append_of_le_length (by omega),
    List.take_take, Nat.min_self] at htake
  exact htake

theorem store_behind {m m' xs : List α} {i : Nat} (h : store m i xs = some m') :
    m'.drop (i + xs.length) = m.drop (i + xs.length) := by
  obtain ⟨hfits, rfl⟩ := store_some h
  have hlen : (m.take i ++ xs).length = i + xs.length := by
    rw [List.length_append, List.length_take]
    omega
  have hdrop := @List.drop_left _ (m.take i ++ xs) (m.drop (i + xs.length))
  rw [hlen] at hdrop
  exact hdrop

/-- Every cell outside of what was written is as before. -/
theorem store_outside {m m' xs : List α} {i j : Nat} (h : store m i xs = some m')
    (hj : j < i ∨ i + xs.length ≤ j) : m'[j]? = m[j]? := by
  rcases hj with hj | hj
  · rw [← List.getElem?_take_of_lt hj, store_before h, List.getElem?_take_of_lt hj]
  · have hcell : ∀ l : List α, l[j]? = (l.drop (i + xs.length))[j - (i + xs.length)]? := by
      intro l
      rw [List.getElem?_drop, Nat.add_sub_cancel' hj]
    rw [hcell m', store_behind h, ← hcell m]

/-! ## A pen -/

/-- Cells that are filled from the front, and the place of the next. -/
structure Pen (α : Type) where
  cells : List α
  pos : Nat

/-- `out[o++] = x`. -/
def Pen.put (p : Pen α) (x : α) : Option (Pen α) :=
  (store p.cells p.pos [x]).map (⟨·, p.pos + 1⟩)

/-- One after the other. -/
def Pen.puts (p : Pen α) (xs : List α) : Option (Pen α) := xs.foldlM Pen.put p

/-- The pen goes on from `p` over `xs`. -/
structure Pen.Wrote (p : Pen α) (xs : List α) (p' : Pen α) : Prop where
  pos : p'.pos = p.pos + xs.length
  length : p'.cells.length = p.cells.length
  room : p'.pos ≤ p'.cells.length
  written : p'.cells.take p'.pos = p.cells.take p.pos ++ xs

theorem Pen.puts_nil (p : Pen α) : p.puts [] = some p := rfl

theorem Pen.puts_cons (p : Pen α) (x : α) (xs : List α) :
    p.puts (x :: xs) = (p.put x).bind (·.puts xs) := rfl

theorem Pen.puts_append (p : Pen α) (xs ys : List α) :
    p.puts (xs ++ ys) = (p.puts xs).bind (·.puts ys) := by
  unfold puts
  rw [List.foldlM_append]
  rfl

theorem Pen.put_wrote {p : Pen α} (x : α) (h : p.pos < p.cells.length) :
    ∃ p', p.put x = some p' ∧ p.Wrote [x] p' := by
  have hfits : p.pos + [x].length ≤ p.cells.length := h
  have hstore := store_fits hfits
  refine ⟨⟨_, p.pos + 1⟩, by rw [put, hstore, Option.map_some], rfl, store_length hstore, ?_,
    store_written hstore⟩
  show p.pos + 1 ≤ _
  rw [store_length hstore]
  exact h

theorem Pen.Wrote.trans {p q r : Pen α} {xs ys : List α} (h : p.Wrote xs q) (h' : q.Wrote ys r) :
    p.Wrote (xs ++ ys) r where
  pos := by rw [h'.pos, h.pos, List.length_append, Nat.add_assoc]
  length := h'.length.trans h.length
  room := h'.room
  written := by rw [h'.written, h.written, List.append_assoc]

/-- What has room is written. -/
theorem Pen.puts_wrote (xs : List α) : ∀ {p : Pen α}, p.pos + xs.length ≤ p.cells.length →
    ∃ p', p.puts xs = some p' ∧ p.Wrote xs p' := by
  induction xs with
  | nil =>
      intro p hroom
      exact ⟨p, rfl, rfl, rfl, hroom, (List.append_nil _).symm⟩
  | cons x xs ih =>
      intro p hroom
      rw [List.length_cons] at hroom
      obtain ⟨q, hput, hq⟩ := p.put_wrote x (by omega)
      have hpos : q.pos = p.pos + 1 := hq.pos
      obtain ⟨r, hputs, hr⟩ := ih (p := q) (by rw [hq.length]; omega)
      refine ⟨r, ?_, hq.trans hr⟩
      rw [puts_cons, hput]
      exact hputs

/-- `o += sprintf(out + o, …)`: the text, and a terminator that the next write goes over. -/
def Pen.print (p : Pen α) (xs : List α) (terminator : α) : Option (Pen α) :=
  (store p.cells p.pos (xs ++ [terminator])).map (⟨·, p.pos + xs.length⟩)

theorem Pen.print_wrote {p : Pen α} (xs : List α) (terminator : α)
    (h : p.pos + xs.length < p.cells.length) :
    ∃ p', p.print xs terminator = some p' ∧ p.Wrote xs p' ∧
      p'.cells.take (p'.pos + 1) = p.cells.take p.pos ++ xs ++ [terminator] := by
  have hlen : (xs ++ [terminator]).length = xs.length + 1 := List.length_append
  obtain ⟨m, hstore⟩ : ∃ m, store p.cells p.pos (xs ++ [terminator]) = some m :=
    ⟨_, store_fits (by rw [hlen]; omega)⟩
  have hwritten := store_written hstore
  have hcells := store_length hstore
  rw [hlen, ← Nat.add_assoc, ← List.append_assoc] at hwritten
  refine ⟨_, by rw [print, hstore, Option.map_some], ⟨rfl, hcells, ?_, ?_⟩, hwritten⟩
  · show p.pos + xs.length ≤ _
    rw [hcells]
    omega
  · have hbefore := congrArg (List.take (p.pos + xs.length)) hwritten
    have hall : (p.cells.take p.pos ++ xs).length = p.pos + xs.length := by
      rw [List.length_append, List.length_take, Nat.min_eq_left (by omega)]
    rw [List.take_take, Nat.min_eq_left (Nat.le_succ _),
      List.take_append_of_le_length (Nat.le_of_eq hall.symm),
      List.take_of_length_le (Nat.le_of_eq hall)] at hbefore
    exact hbefore

/-! ## Loops that never run ahead

A loop that reads `s` and writes with a pen: in one turn it writes `xs`, and goes on with
`rest`. As long as it writes no more than it reads, cells as many as `s` are enough for all
of its turns. -/

structure Pen.Turn {β : Type} (loop : List α → Pen α → Option β) (s xs rest : List α) : Prop where
  bound : xs.length + rest.length ≤ s.length
  shorter : rest.length < s.length
  eq : ∀ p, loop s p = (p.puts xs).bind (loop rest)

/-- `R s t` says what the loop makes of `s`: nothing, or a text. -/
theorem Pen.loop_wrote {β : Type} {loop : List α → Pen α → Option β} {done : Pen α → β}
    {refused : β} {R : List α → Option (List α) → Prop} (hnil : ∀ p, loop [] p = some (done p))
    (hnil' : R [] (some []))
    (hturn : ∀ s, s ≠ [] → ((∀ p, loop s p = some refused) ∧ R s none) ∨
      ∃ xs rest, Pen.Turn loop s xs rest ∧ ∀ t, R rest t → R s (t.map (xs ++ ·)))
    (s : List α) (p : Pen α) (hroom : p.pos + s.length ≤ p.cells.length) :
    (loop s p = some refused ∧ R s none) ∨
      ∃ xs r, loop s p = some (done r) ∧ R s (some xs) ∧ p.Wrote xs r ∧ xs.length ≤ s.length := by
  by_cases hs : s = []
  · subst hs
    exact .inr ⟨[], p, hnil p, hnil', ⟨rfl, rfl, hroom, (List.append_nil _).symm⟩, Nat.le_refl _⟩
  · rcases hturn s hs with ⟨hloop, hR⟩ | ⟨xs, rest, ht, hR⟩
    · exact .inl ⟨hloop p, hR⟩
    · have hbound := ht.bound
      have hshorter := ht.shorter
      obtain ⟨q, hput, hq⟩ := Pen.puts_wrote xs (p := p) (by omega)
      have heq : loop s p = loop rest q := by
        rw [ht.eq, hput]
        rfl
      have hroom' : q.pos + rest.length ≤ q.cells.length := by
        rw [hq.pos, hq.length]
        omega
      rw [heq]
      rcases Pen.loop_wrote hnil hnil' hturn rest q hroom' with ⟨hloop, hno⟩ |
        ⟨ys, r, hloop, hyes, hr, hlen⟩
      · exact .inl ⟨hloop, hR none hno⟩
      · refine .inr ⟨xs ++ ys, r, hloop, hR _ hyes, hq.trans hr, ?_⟩
        rw [List.length_append]
        omega
termination_by s.length

end GeistServe.Lib
