import Mathlib.Order.Basic
import GeistServe.Lib.Best
import GeistServe.Geistd.Logits

/-!
# The candidates of a reply

`topk` is an online insertion into a bounded sorted buffer. Its order is the
value, larger first, and of equal values the lower id (`Ahead`); the buffer is
the best of what the loop has seen so far in that order. The inner loop and the
fast rejection test compare values only. That is enough because a value never
meets one of a higher id: the ids grow along the loop.
-/

namespace GeistServe.Proofs

open GeistServe.Geistd GeistServe.Lib

variable {α : Type} [LinearOrder α]

/-- The order of the candidates, a value with its position. -/
def Ahead (a b : α × Nat) : Prop := b.1 < a.1 ∨ (a.1 = b.1 ∧ a.2 ≤ b.2)

instance : DecidableRel (Ahead (α := α)) := fun a b =>
  inferInstanceAs (Decidable (b.1 < a.1 ∨ (a.1 = b.1 ∧ a.2 ≤ b.2)))

theorem Ahead.value {a b : α × Nat} (h : Ahead a b) : b.1 ≤ a.1 := by
  rcases h with hlt | ⟨heq, _⟩
  · exact le_of_lt hlt
  · exact le_of_eq heq.symm

instance : Std.Total (Ahead (α := α)) where
  total a b := by
    rcases lt_trichotomy a.1 b.1 with hlt | heq | hlt
    · exact .inr (.inl hlt)
    · rcases Nat.le_total a.2 b.2 with hle | hle
      · exact .inl (.inr ⟨heq, hle⟩)
      · exact .inr (.inr ⟨heq.symm, hle⟩)
    · exact .inl (.inl hlt)

instance : IsTrans (α × Nat) Ahead where
  trans a b c hab hbc := by
    rcases hab with hab | ⟨hab, hi⟩
    · exact .inl (lt_of_le_of_lt hbc.value hab)
    · rcases hbc with hbc | ⟨hbc, hj⟩
      · exact .inl (hab ▸ hbc)
      · exact .inr ⟨hab.trans hbc, hi.trans hj⟩

instance : Std.Antisymm (Ahead (α := α)) where
  antisymm a b hab hba := by
    rcases hab with hlt | ⟨heq, hi⟩
    · exact absurd hba.value (not_le_of_gt hlt)
    · rcases hba with hlt | ⟨_, hj⟩
      · exact absurd heq.symm (ne_of_gt hlt)
      · exact Prod.ext heq (Nat.le_antisymm hi hj)

/-- A value does not beat one that is no smaller and came before it. -/
theorem not_ahead {v w : α} {i j : Nat} (hle : v ≤ w) (hlt : j < i) :
    ¬ Ahead (v, i) (w, j) := by
  rintro (h | ⟨_, h⟩)
  · exact absurd hle (not_le_of_gt h)
  · exact absurd hlt (Nat.not_lt.mpr h)

/-- What the two arrays hold of a candidate. -/
def entry (e : α × Nat) : Int × α := (castId e.2, e.1)

/-! ## One turn of the loop -/

/-- The inner loop stops between what is no smaller than the value and what is. -/
theorem shiftTo_spec (v : α) {b : List (α × Nat)} (hb : b.Pairwise Ahead) :
    ∀ {last : Nat}, last ≤ b.length → ∃ j, shiftTo v (b.map entry) last = some j ∧ j ≤ last ∧
      (∀ e ∈ b.take j, v ≤ e.1) ∧ ∀ e ∈ (b.take last).drop j, e.1 < v := by
  intro last
  induction last with
  | zero =>
      intro _
      refine ⟨0, rfl, Nat.le_refl 0, fun e he => ?_, fun e he => ?_⟩
      · rw [List.take_zero] at he
        cases he
      · rw [List.take_zero, List.drop_zero] at he
        cases he
  | succ last ih =>
      intro hle
      have hlt : last < b.length := by omega
      have htake := List.take_succ_eq_append_getElem hlt
      have hread : (b.map entry)[last]? = some (entry b[last]) := by
        rw [List.getElem?_map, List.getElem?_eq_getElem hlt]
        rfl
      rw [shiftTo, hread]
      simp only
      split
      · next hsmall =>
          obtain ⟨j, hj, hjle, hfront, hback⟩ := ih (by omega)
          refine ⟨j, hj, by omega, hfront, fun e he => ?_⟩
          rw [htake, List.drop_append_of_le_length
            (by rw [List.length_take]; omega)] at he
          rcases List.mem_append.mp he with he | he
          · exact hback e he
          · rw [List.mem_singleton.mp he]
            exact hsmall
      · next hlarge =>
          refine ⟨last + 1, rfl, Nat.le_refl _, fun e he => ?_, fun e he => ?_⟩
          · rw [htake] at he
            have hsorted := hb.sublist (List.take_sublist (last + 1) b)
            rw [htake, List.pairwise_append] at hsorted
            rcases List.mem_append.mp he with he | he
            · exact (not_lt.mp hlarge).trans (hsorted.2.2 e he _ List.mem_cons_self).value
            · rw [List.mem_singleton.mp he]
              exact not_lt.mp hlarge
          · rw [List.drop_eq_nil_of_le (List.length_take_le _ _)] at he
            cases he

/-- Where the inner loop stops is where the order puts the value. -/
theorem insert_at {v : α} {i j : Nat} {b : List (α × Nat)} (hids : ∀ e ∈ b, e.2 < i)
    (hfront : ∀ e ∈ b.take j, v ≤ e.1) (hback : ∀ e ∈ b.drop j, e.1 < v) :
    b.orderedInsert Ahead (v, i) = b.take j ++ (v, i) :: b.drop j := by
  have hsplit : (b.take j ++ b.drop j).orderedInsert Ahead (v, i) =
      b.take j ++ (v, i) :: b.drop j :=
    orderedInsert_split
      (fun e he => not_ahead (hfront e he) (hids e (List.mem_of_mem_take he)))
      (fun e he => .inl (hback e (List.mem_of_mem_head? he)))
  rwa [List.take_append_drop] at hsplit

/-- A value that beats what it may push out is put where the order wants it. -/
theorem topkPut_best {k i : Nat} {v : α} {b : List (α × Nat)} (hpos : 1 ≤ k)
    (hcap : k ≤ TOPK_MAX) (hb : b.Pairwise Ahead) (hids : ∀ e ∈ b, e.2 < i)
    (hlen : b.length ≤ k)
    (hout : ∀ e ∈ b.drop (if b.length < k then b.length else k - 1), e.1 < v) :
    topkPut k (b.map entry) i v =
      some (((b.orderedInsert Ahead (v, i)).take k).map entry) := by
  rw [topkPut, List.length_map]
  have hlast : (if b.length < k then b.length else k - 1) ≤ b.length := by
    split <;> omega
  have hroom : (if b.length < k then b.length else k - 1) + 1 = min k (b.length + 1) := by
    split <;> omega
  generalize (if b.length < k then b.length else k - 1) = last at hout hlast hroom ⊢
  obtain ⟨j, hj, hjle, hfront, hback⟩ := shiftTo_spec v hb hlast
  have hdrop : b.drop j = (b.take last).drop j ++ b.drop last := by
    calc b.drop j = (b.take last ++ b.drop last).drop j := by rw [List.take_append_drop]
      _ = (b.take last).drop j ++ b.drop last :=
          List.drop_append_of_le_length (by rw [List.length_take]; omega)
  have hrest : ∀ e ∈ b.drop j, e.1 < v := by
    intro e he
    rw [hdrop] at he
    rcases List.mem_append.mp he with he | he
    · exact hback e he
    · exact hout e he
  have hsize : (b.take j ++ (v, i) :: (b.take last).drop j).length = last + 1 := by
    rw [List.length_append, List.length_cons, List.length_drop, List.length_take,
      List.length_take]
    omega
  have hkept : (b.orderedInsert Ahead (v, i)).take k =
      b.take j ++ (v, i) :: (b.take last).drop j := by
    rw [insert_at hids hfront hrest, hdrop, ← List.cons_append, ← List.append_assoc]
    by_cases hk : k ≤ b.length + 1
    · rw [List.take_append_of_le_length (by omega), List.take_of_length_le (by omega)]
    · have hnil : b.drop last = [] := List.drop_eq_nil_of_le (by omega)
      rw [hnil, List.append_nil, List.take_of_length_le (by omega)]
  rw [if_pos (by omega), hj, hkept, Option.map_some, List.map_append, List.map_cons,
    ← List.map_take, ← List.map_take, ← List.map_drop]
  rfl

/-- A full buffer whose last entry is no smaller than the value stays as it is. -/
theorem full_best {k i : Nat} {v : α} {b : List (α × Nat)} {e : α × Nat}
    (hb : b.Pairwise Ahead) (hids : ∀ e ∈ b, e.2 < i) (hk : b.length = k)
    (he : b.getLast? = some e) (hle : v ≤ e.1) :
    (b.orderedInsert Ahead (v, i)).take k = b := by
  have hall : ∀ y ∈ b, v ≤ y.1 := by
    obtain ⟨front, rfl⟩ := List.getLast?_eq_some_iff.mp he
    intro y hy
    rcases List.mem_append.mp hy with hy | hy
    · exact hle.trans ((List.pairwise_append.mp hb).2.2 y hy e List.mem_cons_self).value
    · rw [List.mem_singleton.mp hy]
      exact hle
  have hinsert := insert_at (j := b.length) hids
    (fun e he => hall e (List.mem_of_mem_take he))
    (by rw [List.drop_length]; exact fun _ h => by cases h)
  rw [hinsert, List.take_length, List.take_append_of_le_length (by omega),
    List.take_of_length_le (by omega)]

/-- A turn of the loop keeps the buffer the best of what was seen. -/
theorem topkStep_best {k i : Nat} {v : α} {seen : List (α × Nat)} (hpos : 1 ≤ k)
    (hcap : k ≤ TOPK_MAX) (hids : ∀ e ∈ seen, e.2 < i) :
    topkStep k ((best Ahead k seen).map entry) i v =
      some ((best Ahead k (seen ++ [(v, i)])).map entry) := by
  have hb := best_pairwise (r := Ahead) k seen
  have hlen : (best Ahead k seen).length ≤ k := by
    rw [best_length]
    exact Nat.min_le_left k _
  have hbids : ∀ e ∈ best Ahead k seen, e.2 < i := fun e he => hids e (mem_of_best he)
  rw [best_concat]
  generalize best Ahead k seen = b at hb hlen hbids ⊢
  have hskips : skips k (b.map entry) v =
      if b.length = k then b.getLast?.map fun e => decide (v ≤ e.1) else some false := by
    rw [skips, List.length_map, List.getLast?_map, Option.map_map]
    rfl
  rw [topkStep, hskips]
  by_cases hk : b.length = k
  · cases he : b.getLast? with
    | none =>
        rw [List.getLast?_eq_none_iff.mp he, List.length_nil] at hk
        omega
    | some e =>
        rw [if_pos hk, Option.map_some]
        by_cases hle : v ≤ e.1
        · rw [full_best hb hbids hk he hle]
          rw [decide_eq_true hle]
        · have hout : ∀ y ∈ b.drop (if b.length < k then b.length else k - 1), y.1 < v := by
            obtain ⟨front, rfl⟩ := List.getLast?_eq_some_iff.mp he
            rw [List.length_append, List.length_singleton] at hk
            rw [if_neg (by rw [List.length_append, List.length_singleton]; omega), ← hk,
              Nat.add_sub_cancel, List.drop_left]
            intro y hy
            rw [List.mem_singleton.mp hy]
            exact not_le.mp hle
          rw [decide_eq_false hle]
          exact topkPut_best hpos hcap hb hbids hlen hout
  · rw [if_neg hk]
    refine topkPut_best hpos hcap hb hbids hlen fun y hy => ?_
    rw [if_pos (by omega), List.drop_length] at hy
    cases hy

/-! ## The whole vector -/

theorem topkFrom_best {k : Nat} (hpos : 1 ≤ k) (hcap : k ≤ TOPK_MAX) :
    ∀ (x : List α) {i : Nat} {seen : List (α × Nat)}, (∀ e ∈ seen, e.2 < i) →
      topkFrom k i ((best Ahead k seen).map entry) x =
        some ((best Ahead k (seen ++ x.zipIdx i)).map entry) := by
  intro x
  induction x with
  | nil =>
      intro i seen _
      rw [topkFrom, List.zipIdx_nil, List.append_nil]
  | cons v x ih =>
      intro i seen hids
      have hseen : ∀ e ∈ seen ++ [(v, i)], e.2 < i + 1 := by
        intro e he
        rcases List.mem_append.mp he with he | he
        · exact Nat.lt_succ_of_lt (hids e he)
        · rw [List.mem_singleton.mp he]
          exact Nat.lt_succ_self i
      rw [topkFrom, topkStep_best hpos hcap hids, Option.bind_some, ih hseen,
        List.zipIdx_cons, List.append_assoc, List.singleton_append]

theorem topk_best {k : Nat} (hpos : 1 ≤ k) (hcap : k ≤ TOPK_MAX) (x : List α) :
    topk k x = some ((best Ahead k x.zipIdx).map entry) := by
  have hnone : ∀ e ∈ ([] : List (α × Nat)), e.2 < 0 := fun _ he => by cases he
  have h := topkFrom_best hpos hcap x hnone
  rw [best_nil, List.nil_append] at h
  exact h

/-- The values alone are the front of the sorted logits. -/
theorem best_values (k : Nat) (x : List α) :
    (best Ahead k x.zipIdx).map Prod.fst = (x.insertionSort (· ≥ ·)).take k := by
  have hsort : (x.zipIdx.insertionSort Ahead).map Prod.fst = x.insertionSort (· ≥ ·) := by
    refine List.Perm.eq_of_pairwise' (r := (· ≥ ·)) ?_ (List.pairwise_insertionSort _ x) ?_
    · rw [List.pairwise_map]
      exact (List.pairwise_insertionSort Ahead x.zipIdx).imp Ahead.value
    · have hperm := (List.perm_insertionSort Ahead x.zipIdx).map Prod.fst
      rw [List.zipIdx_map_fst] at hperm
      exact hperm.trans (List.perm_insertionSort _ x).symm
  rw [best, List.map_take, hsort]

/-- For any logits and any `k` that `sb_topk` can pass, `topk` stays inside of its
arrays and answers with the `min k n` first candidates in the order of `Ahead`:
distinct positions with their values, larger ones first and of equal ones the
lowest position, also at the cut-off. As `int32_t` ids the positions are
themselves as long as there are no more of them than token ids. -/
theorem topk_answers_the_largest (x : List α) {k : Nat} (hpos : 1 ≤ k) (hcap : k ≤ 256) :
    ∃ top : List (α × Nat),
      topk k x = some (top.map fun e => (castId e.2, e.1)) ∧
      top.length = min k x.length ∧
      (top.map Prod.snd).Nodup ∧
      (∀ e ∈ top, x[e.2]? = some e.1) ∧
      top.Pairwise (fun a b => b.1 < a.1 ∨ (a.1 = b.1 ∧ a.2 < b.2)) ∧
      top.map Prod.fst = (x.insertionSort (· ≥ ·)).take k ∧
      (∀ v i, x[i]? = some v → i ∉ top.map Prod.snd →
        ∀ e ∈ top, v < e.1 ∨ (e.1 = v ∧ e.2 < i)) ∧
      (x.length ≤ 2 ^ 31 → ∀ e ∈ top, castId e.2 = e.2) := by
  have hmem : ∀ e ∈ best Ahead k x.zipIdx, x[e.2]? = some e.1 := fun e he =>
    List.mem_zipIdx_iff_getElem?.mp (mem_of_best he)
  have hids : ((best Ahead k x.zipIdx).map Prod.snd).Nodup := by
    have hperm := (List.perm_insertionSort Ahead x.zipIdx).map Prod.snd
    rw [List.zipIdx_map_snd] at hperm
    refine (hperm.nodup_iff.mpr List.nodup_range').sublist ?_
    exact (List.take_sublist k _).map Prod.snd
  -- of two candidates with one value and different ids the order is strict
  have hstrict : ∀ {a b : α × Nat}, Ahead a b → a.2 ≠ b.2 →
      b.1 < a.1 ∨ (a.1 = b.1 ∧ a.2 < b.2) := by
    rintro a b (hlt | ⟨heq, hle⟩) hne
    · exact .inl hlt
    · exact .inr ⟨heq, lt_of_le_of_ne hle hne⟩
  refine ⟨best Ahead k x.zipIdx, topk_best hpos hcap x, ?_, hids, hmem, ?_, best_values k x,
    fun v i hv hi e he => ?_, fun hx e he => ?_⟩
  · rw [best_length, List.length_zipIdx]
  · exact ((best_pairwise (r := Ahead) k x.zipIdx).and (List.pairwise_map.mp hids)).imp
      fun h => hstrict h.1 h.2
  · refine hstrict (best_ahead he (y := (v, i)) (List.mem_zipIdx_iff_getElem?.mpr hv) ?_) ?_
    · exact fun hin => hi (List.mem_map_of_mem hin)
    · rintro rfl
      exact hi (List.mem_map_of_mem he)
  · have hlt := (List.getElem?_eq_some_iff.mp (hmem e he)).1
    exact castId_of_lt (by omega)

/-- The two largest of four, where the smaller of the two is there twice. -/
theorem topk_answers_the_largest_tie :
    ∃ top : List (Int × Nat), topk 2 [3, 7, 3, 1] = some (top.map fun e => (castId e.2, e.1)) ∧
      top.map Prod.fst = [7, 3] := by
  obtain ⟨top, htop, _, _, _, _, hvalues, _⟩ :=
    topk_answers_the_largest ([3, 7, 3, 1] : List Int) (k := 2) (by decide) (by decide)
  exact ⟨top, htop, hvalues⟩

end GeistServe.Proofs
