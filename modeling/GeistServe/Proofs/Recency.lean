import GeistServe.Geistd.Session

/-!
# Recency by count and by clock

A full table gives up the entry that was used least recently, by a clock that
counts seconds. Beside the clock this file counts the uses: `Uses` has for each
slot which use of its entry was the last. `Dated` ties the two: a later use has
no earlier time. Uses within one second are told apart by the count and not by
the clock, so the first of the table that the clock cannot tell from the least
recently used one goes instead. `Fair` is what an eviction should be, and
`Unmistaken` when it is (`fair_of_unmistaken`, `unmistaken_of_fair`).
-/

namespace GeistServe.Proofs

open GeistServe.Lib GeistServe.Geistd

/-! ## The least recently used slot -/

section Table

variable {α : Type} {used : α → Nat}

/-- `all` are the numbers by their position. -/
theorem leastFrom_spec (all : Nat → Nat) : ∀ {us : List Nat} {best pos i : Nat},
    all pos = best → pos < i → (∀ j < i, best ≤ all j) → (∀ k u, us[k]? = some u → all (i + k) = u) →
      leastFrom best pos i us < i + us.length ∧
        ∀ j < i + us.length, all (leastFrom best pos i us) ≤ all j := by
  intro us
  induction us with
  | nil =>
      intro best pos i hpos hlt hle _
      rw [leastFrom, hpos]
      exact ⟨hlt, hle⟩
  | cons u rest ih =>
      intro best pos i hpos hlt hle hall
      have hi : all i = u := hall 0 u rfl
      have hrest : ∀ k v, rest[k]? = some v → all (i + 1 + k) = v := by
        intro k v hv
        rw [Nat.add_right_comm]
        exact hall (k + 1) v hv
      have hlen : i + (u :: rest).length = i + 1 + rest.length := by
        rw [List.length_cons]
        omega
      rw [leastFrom, hlen]
      split
      · next hu =>
          refine ih hi (Nat.lt_succ_self i) (fun j hj => ?_) hrest
          rcases Nat.lt_succ_iff_lt_or_eq.mp hj with hj | rfl
          · exact (Nat.le_of_lt hu).trans (hle j hj)
          · exact Nat.le_of_eq hi.symm
      · next hu =>
          refine ih hpos (Nat.lt_succ_of_lt hlt) (fun j hj => ?_) hrest
          rcases Nat.lt_succ_iff_lt_or_eq.mp hj with hj | rfl
          · exact hle j hj
          · rw [hi]
            exact Nat.le_of_not_lt hu

theorem slot_getElem {slots : List (Option α)} {i : Nat} (h : i < slots.length) :
    slot slots i = slots[i] := by
  rw [slot, List.getElem?_eq_getElem h]
  rfl

/-- The time of use that a search for the least one sees at a slot. -/
def timeAt (used : α → Nat) (slots : List (Option α)) (i : Nat) : Nat :=
  ((slot slots i).map used).getD 0

theorem lruSlot_spec {slots : List (Option α)} (h : 0 < slots.length) :
    lruSlot used slots < slots.length ∧
      ∀ j < slots.length, timeAt used slots (lruSlot used slots) ≤ timeAt used slots j := by
  cases slots with
  | nil => exact absurd h (Nat.lt_irrefl 0)
  | cons o rest =>
      have hlen : (o :: rest).length = 1 + (rest.map fun x => (x.map used).getD 0).length := by
        rw [List.length_cons, List.length_map, Nat.add_comm]
      rw [lruSlot, List.map_cons, hlen]
      refine leastFrom_spec (timeAt used (o :: rest)) ?_ Nat.one_pos (fun j hj => ?_)
        fun k u hu => ?_
      · rfl
      · rw [Nat.lt_one_iff.mp hj]
        exact Nat.le_refl _
      · rw [List.getElem?_map] at hu
        obtain ⟨x, hx, rfl⟩ := Option.map_eq_some_iff.mp hu
        rw [timeAt, slot, Nat.add_comm, List.getElem?_cons_succ, hx]
        rfl

/-- A new entry gets a free slot, or the table is full and it gets the slot of an
entry that the clock has as the least recently used one. -/
theorem slotFor_spec (used : α → Nat) (slots : List (Option α)) :
    slot slots (slotFor used slots) = none ∨
      (∀ j < slots.length, slot slots j ≠ none) ∧ ∀ j x y,
        slot slots (slotFor used slots) = some x → slot slots j = some y → used x ≤ used y := by
  cases hfree : slots.findIdx? Option.isNone with
  | some i =>
      obtain ⟨hlt, hnone, _⟩ := List.findIdx?_eq_some_iff_getElem.mp hfree
      have hslot : slotFor used slots = i := by
        rw [slotFor, hfree]
        rfl
      rw [hslot, slot_getElem hlt]
      exact .inl (Option.isNone_iff_eq_none.mp hnone)
  | none =>
      have hslot : slotFor used slots = lruSlot used slots := by
        rw [slotFor, hfree]
        rfl
      rw [hslot]
      refine .inr ⟨fun j hj hnone => ?_, fun j x y hx hy => ?_⟩
      · rw [slot_getElem hj] at hnone
        have := List.findIdx?_eq_none_iff.mp hfree slots[j] (List.getElem_mem hj)
        rw [hnone] at this
        cases this
      · have hj := slot_lt hy
        have hle : timeAt used _ (lruSlot used _) ≤ timeAt used _ j :=
          (lruSlot_spec (Nat.zero_lt_of_lt hj)).2 j hj
        rw [timeAt, timeAt, hx, hy] at hle
        exact hle

/-! ## Uses -/

/-- One use of an entry: which one it was, and at what time. -/
structure Use where
  nth : Nat
  time : Nat
  deriving DecidableEq

/-- How many uses there were, and the last one of each slot's entry. -/
structure Uses where
  count : Nat := 0
  last : Nat → Use := fun _ => ⟨0, 0⟩

/-- The entry of a slot, if one is named or made, is used. -/
def Uses.note (u : Uses) (now : Nat) : Option Nat → Uses
  | none => u
  | some i => ⟨u.count + 1, Function.update u.last i ⟨u.count, now⟩⟩

/-- The entries' own times of use are those of their last uses, and later uses
are not earlier in time. -/
structure Dated (used : α → Nat) (slots : List (Option α)) (u : Uses) (clock : Nat) : Prop where
  time : ∀ {i x}, slot slots i = some x → used x = (u.last i).time
  count : ∀ {i x}, slot slots i = some x → (u.last i).nth < u.count
  clock : ∀ {i x}, slot slots i = some x → (u.last i).time ≤ clock
  order : ∀ {i j x y}, slot slots i = some x → slot slots j = some y →
    (u.last i).nth ≤ (u.last j).nth → (u.last i).time ≤ (u.last j).time
  distinct : ∀ {i j x y}, slot slots i = some x → slot slots j = some y →
    (u.last i).nth = (u.last j).nth → i = j

/-- The entries of the one table are among those of the other, with the same
times of use. -/
def Aged (used : α → Nat) (slots slots' : List (Option α)) : Prop :=
  ∀ i x', slot slots' i = some x' → ∃ x, slot slots i = some x ∧ used x' = used x

theorem Aged.refl (slots : List (Option α)) : Aged used slots slots :=
  fun _ x h => ⟨x, h, rfl⟩

theorem Aged.trans {a b c : List (Option α)} (h : Aged used a b) (h' : Aged used b c) :
    Aged used a c := by
  intro i x hx
  obtain ⟨y, hy, hxy⟩ := h' i x hx
  obtain ⟨z, hz, hyz⟩ := h i y hy
  exact ⟨z, hz, hxy.trans hyz⟩

theorem Dated.aged {slots slots' : List (Option α)} {u : Uses} {clock : Nat}
    (h : Dated used slots u clock) (ha : Aged used slots slots') : Dated used slots' u clock := by
  refine ⟨fun hx => ?_, fun hx => ?_, fun hx => ?_, fun hx hy hle => ?_, fun hx hy heq => ?_⟩
  · obtain ⟨y, hy, hxy⟩ := ha _ _ hx
    exact hxy.trans (h.time hy)
  · obtain ⟨y, hy, _⟩ := ha _ _ hx
    exact h.count hy
  · obtain ⟨y, hy, _⟩ := ha _ _ hx
    exact h.clock hy
  · obtain ⟨x', hx', _⟩ := ha _ _ hx
    obtain ⟨y', hy', _⟩ := ha _ _ hy
    exact h.order hx' hy' hle
  · obtain ⟨x', hx', _⟩ := ha _ _ hx
    obtain ⟨y', hy', _⟩ := ha _ _ hy
    exact h.distinct hx' hy' heq

theorem Dated.later {slots : List (Option α)} {u : Uses} {clock now : Nat}
    (h : Dated used slots u clock) (hle : clock ≤ now) : Dated used slots u now :=
  ⟨h.time, h.count, fun hx => (h.clock hx).trans hle, h.order, h.distinct⟩

/-- The entry of one slot is used, or made, now. -/
theorem Dated.use {slots slots' : List (Option α)} {u : Uses} {now k : Nat}
    (h : Dated used slots u now)
    (hother : ∀ i x', i ≠ k → slot slots' i = some x' →
      ∃ x, slot slots i = some x ∧ used x' = used x)
    (hk : ∀ x', slot slots' k = some x' → used x' = now) :
    Dated used slots' (u.note now (some k)) now := by
  have hlast : ∀ i, i ≠ k → (u.note now (some k)).last i = u.last i := by
    intro i hi
    exact Function.update_of_ne hi ..
  have hself : (u.note now (some k)).last k = ⟨u.count, now⟩ := Function.update_self ..
  have hcount : ∀ {i x'}, i ≠ k → slot slots' i = some x' → (u.last i).nth < u.count := by
    intro i x' hi hx
    obtain ⟨x, hx, _⟩ := hother i x' hi hx
    exact h.count hx
  have hclock : ∀ {i x'}, i ≠ k → slot slots' i = some x' → (u.last i).time ≤ now := by
    intro i x' hi hx
    obtain ⟨x, hx, _⟩ := hother i x' hi hx
    exact h.clock hx
  refine ⟨fun {i x'} hx => ?_, fun {i x'} hx => ?_, fun {i x'} hx => ?_,
    fun {i j x' y'} hx hy hle => ?_, fun {i j x' y'} hx hy heq => ?_⟩
  · by_cases hi : i = k
    · subst hi
      rw [hself]
      exact hk x' hx
    · obtain ⟨x, hx', hxx⟩ := hother i x' hi hx
      rw [hlast i hi]
      exact hxx.trans (h.time hx')
  · by_cases hi : i = k
    · subst hi
      rw [hself]
      exact Nat.lt_succ_self _
    · rw [hlast i hi]
      exact Nat.lt_succ_of_lt (hcount hi hx)
  · by_cases hi : i = k
    · subst hi
      rw [hself]
    · rw [hlast i hi]
      exact hclock hi hx
  · by_cases hj : j = k
    · subst hj
      rw [hself]
      by_cases hi : i = j
      · rw [hi, hself]
      · rw [hlast i hi]
        exact hclock hi hx
    · rw [hlast j hj] at hle ⊢
      by_cases hi : i = k
      · subst hi
        rw [hself] at hle
        exact absurd hle (Nat.not_le_of_lt (hcount hj hy))
      · rw [hlast i hi] at hle ⊢
        obtain ⟨x, hx', _⟩ := hother i x' hi hx
        obtain ⟨y, hy', _⟩ := hother j y' hj hy
        exact h.order hx' hy' hle
  · by_cases hi : i = k
    · by_cases hj : j = k
      · rw [hi, hj]
      · subst hi
        rw [hself, hlast j hj] at heq
        exact absurd heq (Nat.ne_of_gt (hcount hj hy))
    · by_cases hj : j = k
      · subst hj
        rw [hself, hlast i hi] at heq
        exact absurd heq (Nat.ne_of_lt (hcount hi hx))
      · rw [hlast i hi, hlast j hj] at heq
        obtain ⟨x, hx', _⟩ := hother i x' hi hx
        obtain ⟨y, hy', _⟩ := hother j y' hj hy
        exact h.distinct hx' hy' heq

/-! ## Evictions -/

/-- The entry of slot `i` is not there any more, or not as it was. -/
def Destroyed (slots slots' : List (Option α)) (i : Nat) : Prop :=
  ∃ x, slot slots i = some x ∧ slot slots' i ≠ some x

/-- What an op that makes an entry may destroy: entries that were idle, and, if
it succeeds in a full table, the one whose last use was the first. -/
structure Fair (slots slots' : List (Option α)) (u : Uses) (idle : Nat → Prop) (ok : Prop) :
    Prop where
  each : ∀ i, Destroyed slots slots' i → idle i ∨
    (∀ j < slots.length, slot slots j ≠ none) ∧
      ∀ j y, slot slots j = some y → (u.last i).nth ≤ (u.last j).nth
  one : ∀ i j, Destroyed slots slots' i → Destroyed slots slots' j → ¬ idle i → ¬ idle j → i = j
  ok : (∃ i, Destroyed slots slots' i ∧ ¬ idle i) → ok

/-- The table without the entries that are not kept. -/
def swept (keep : α → Bool) (slots : List (Option α)) : List (Option α) :=
  slots.map fun x => x.filter keep

theorem swept_slot (keep : α → Bool) (slots : List (Option α)) (i : Nat) :
    slot (swept keep slots) i = (slot slots i).filter keep :=
  slot_map _ _ _ rfl

theorem swept_some {keep : α → Bool} {slots : List (Option α)} {i : Nat} {x : α} :
    slot (swept keep slots) i = some x ↔ slot slots i = some x ∧ keep x = true := by
  rw [swept_slot, Option.filter_eq_some_iff]

/-- The slot that the new entry gets is free, or the op succeeds and no entry
with the same time of use was used before the one that goes. -/
def Unmistaken (used : α → Nat) (keep : α → Bool) (slots : List (Option α)) (u : Uses)
    (ok : Prop) : Prop :=
  let v := slotFor used (swept keep slots)
  slot (swept keep slots) v = none ∨
    ok ∧ ∀ j x y, slot slots v = some x → slot slots j = some y → used y = used x →
      (u.last v).nth ≤ (u.last j).nth

theorem fair_of_unmistaken {slots : List (Option α)} {u : Uses} {clock : Nat} {keep : α → Bool}
    {idle : Nat → Prop} {ok : Prop} (new : Option α) (h : Dated used slots u clock)
    (hidle : ∀ i x, slot slots i = some x → (idle i ↔ keep x = false))
    (hcond : Unmistaken used keep slots u ok) :
    Fair slots ((swept keep slots).set (slotFor used (swept keep slots)) new) u idle ok := by
  have hspec := slotFor_spec used (swept keep slots)
  unfold Unmistaken at hcond
  simp only at hcond
  generalize slotFor used (swept keep slots) = v at hspec hcond
  -- An entry that goes and was not idle is the one of slot `v`.
  have hvictim : ∀ i, Destroyed slots ((swept keep slots).set v new) i → ¬ idle i →
      i = v ∧ ∃ x, slot (swept keep slots) v = some x := by
    rintro i ⟨x, hx, hgone⟩ hnot
    have hkeep : keep x = true := by
      rw [hidle i x hx, Bool.not_eq_false] at hnot
      exact hnot
    have hs := swept_some.mpr ⟨hx, hkeep⟩
    by_cases hi : i = v
    · subst hi
      exact ⟨rfl, x, hs⟩
    · rw [slot_set, if_neg (Ne.symm hi)] at hgone
      exact absurd hs hgone
  refine ⟨fun i hd => ?_, fun i j hi hj hni hnj => ?_, fun ⟨i, hd, hni⟩ => ?_⟩
  · by_cases hni : idle i
    · exact .inl hni
    obtain ⟨rfl, x, hx⟩ := hvictim i hd hni
    obtain ⟨hx₀, _⟩ := swept_some.mp hx
    rcases hspec with hnone | ⟨hfull, hleast⟩
    · rw [hx] at hnone
      cases hnone
    · have hall : ∀ j < slots.length, ∃ y, slot slots j = some y ∧ keep y = true := by
        intro j hj
        obtain ⟨y, hy⟩ := Option.ne_none_iff_exists'.mp
          (hfull j (by rw [swept, List.length_map]; exact hj))
        exact ⟨y, swept_some.mp hy⟩
      refine .inr ⟨fun j hj => ?_, fun j y hy => ?_⟩
      · obtain ⟨y, hy, _⟩ := hall j hj
        rw [hy]
        exact Option.some_ne_none y
      · obtain ⟨y', hy', hkeep⟩ := hall j (slot_lt hy)
        rw [hy] at hy'
        cases hy'
        have hle := hleast j x y hx (swept_some.mpr ⟨hy, hkeep⟩)
        rcases hcond with hnone | ⟨_, htie⟩
        · rw [hx] at hnone
          cases hnone
        · rcases Nat.eq_or_lt_of_le hle with heq | hlt
          · exact htie j x y hx₀ hy heq.symm
          · -- An earlier time of use is an earlier use.
            by_contra hnth
            have := h.order hy hx₀ (Nat.le_of_lt (Nat.lt_of_not_le hnth))
            rw [← h.time hy, ← h.time hx₀] at this
            omega
  · exact (hvictim i hi hni).1.trans (hvictim j hj hnj).1.symm
  · obtain ⟨rfl, x, hx⟩ := hvictim i hd hni
    rcases hcond with hnone | ⟨hok, _⟩
    · rw [hx] at hnone
      cases hnone
    · exact hok

theorem unmistaken_of_fair {slots : List (Option α)} {u : Uses} {keep : α → Bool}
    {idle : Nat → Prop} {ok : Prop} {new : Option α}
    (hidle : ∀ i x, slot slots i = some x → (idle i ↔ keep x = false))
    (hnew : ∀ i x, slot slots i = some x → new ≠ some x)
    (hfair : Fair slots ((swept keep slots).set (slotFor used (swept keep slots)) new) u idle ok) :
    Unmistaken used keep slots u ok := by
  unfold Unmistaken
  simp only
  cases hv : slot (swept keep slots) (slotFor used (swept keep slots)) with
  | none => exact .inl rfl
  | some x =>
      obtain ⟨hx, hkeep⟩ := swept_some.mp hv
      have hd : Destroyed slots ((swept keep slots).set (slotFor used (swept keep slots)) new)
          (slotFor used (swept keep slots)) := by
        refine ⟨x, hx, ?_⟩
        rw [slot_set, if_pos rfl, if_pos (slot_lt hv)]
        exact hnew _ x hx
      have hnot : ¬ idle (slotFor used (swept keep slots)) := by
        rw [hidle _ x hx, hkeep]
        exact fun h => by cases h
      refine .inr ⟨hfair.ok ⟨_, hd, hnot⟩, fun j _ y _ hy _ => ?_⟩
      rcases hfair.each _ hd with hidle' | ⟨_, hleast⟩
      · exact absurd hidle' hnot
      · exact hleast j y hy

end Table

end GeistServe.Proofs
