import GeistServe.Lib.Lines

/-!
# File operations that can stop anywhere

A directory is a map from names to contents. A program's file work is a list of
operations, one for each byte that a write stores, so that a crash, a failed
call and a short write are the same thing: the list is cut. `perform` does a
list up to its cut, or up to an operation that cannot be done.

`perform_replace` is what the pattern of writing a temporary file and renaming
it gives: wherever it is cut, the file has its old contents or the new ones.
-/

namespace GeistServe.Lib

variable {N : Type} [DecidableEq N]

abbrev Dir (N : Type) := N → Option Bytes

inductive FileOp (N : Type) where
  | create (n : N)
  | createNew (n : N)
  | put (n : N) (b : UInt8)
  | sync (n : N)
  | rename (a b : N)
  | syncDir
  | unlink (n : N)

/-- One operation; `none` when it cannot be done. -/
def FileOp.step (d : Dir N) : FileOp N → Option (Dir N)
  | .create n => some (Function.update d n (some ((d n).getD [])))
  | .createNew n => if d n = none then some (Function.update d n (some [])) else none
  | .put n b => (d n).map fun bs => Function.update d n (some (bs ++ [b]))
  | .sync n => (d n).map fun _ => d
  | .rename a b => (d a).map fun bs => Function.update (Function.update d b (some bs)) a none
  | .syncDir => some d
  | .unlink n => (d n).map fun _ => Function.update d n none

/-- The operations up to the cut, and whether all were done. -/
def perform : Option Nat → List (FileOp N) → Dir N → Dir N × Bool
  | _, [], d => (d, true)
  | some 0, _ :: _, d => (d, false)
  | some (k + 1), op :: ops, d =>
      match op.step d with
      | some d' => perform (some k) ops d'
      | none => (d, false)
  | none, op :: ops, d =>
      match op.step d with
      | some d' => perform none ops d'
      | none => (d, false)

/-- What is left of a cut behind `n` operations. -/
def later (cut : Option Nat) (n : Nat) : Option Nat := cut.map (· - n)

theorem perform_zero (op : FileOp N) (ops : List (FileOp N)) (d : Dir N) :
    perform (some 0) (op :: ops) d = (d, false) := rfl

theorem perform_cons {cut : Option Nat} {op : FileOp N} {ops : List (FileOp N)} {d d' : Dir N}
    (hcut : cut ≠ some 0) (h : op.step d = some d') :
    perform cut (op :: ops) d = perform (later cut 1) ops d' := by
  cases cut with
  | none =>
      rw [perform, h]
      rfl
  | some k =>
      cases k with
      | zero => exact absurd rfl hcut
      | succ k =>
          rw [perform, h]
          rfl

theorem perform_fails {cut : Option Nat} {op : FileOp N} {ops : List (FileOp N)} {d : Dir N}
    (h : op.step d = none) : perform cut (op :: ops) d = (d, false) := by
  match cut with
  | none => rw [perform, h]
  | some 0 => rfl
  | some (k + 1) => rw [perform, h]

/-- Either way of doing the first operation. -/
theorem perform_cons_cases (cut : Option Nat) (op : FileOp N) (ops : List (FileOp N))
    (d : Dir N) :
    perform cut (op :: ops) d = (d, false) ∨
      ∃ d', op.step d = some d' ∧ perform cut (op :: ops) d = perform (later cut 1) ops d' := by
  by_cases hcut : cut = some 0
  · exact .inl (hcut ▸ rfl)
  · cases h : op.step d with
    | none => exact .inl (perform_fails h)
    | some d' => exact .inr ⟨d', rfl, perform_cons hcut h⟩

theorem later_later (cut : Option Nat) (m n : Nat) :
    later (later cut m) n = later cut (m + n) := by
  cases cut with
  | none => rfl
  | some k => exact congrArg some (Nat.sub_sub k m n)

theorem later_zero {cut : Option Nat} {n : Nat} :
    later cut n = some 0 ↔ ∃ k, cut = some k ∧ k ≤ n := by
  cases cut with
  | none => exact ⟨fun h => (by cases h), fun ⟨_, h, _⟩ => by cases h⟩
  | some m =>
      have hlater : later (some m) n = some (m - n) := rfl
      rw [hlater, Option.some.injEq, Nat.sub_eq_zero_iff_le]
      exact ⟨fun h => ⟨m, rfl, h⟩, fun ⟨_, h, hle⟩ => Option.some.inj h ▸ hle⟩

/-! ## Writing -/

/-- A file that is written to gets a start of what is written, all of it if the
write is not cut. -/
theorem perform_puts {n : N} : ∀ (bs : Bytes) (cut : Option Nat) (ops : List (FileOp N))
    {d : Dir N} {old : Bytes}, d n = some old →
      (∃ p q, p ++ q = bs ∧ q ≠ [] ∧ (∃ k, cut = some k ∧ k < bs.length ∧ p.length = k) ∧
        perform cut (bs.map (FileOp.put n) ++ ops) d =
          (Function.update d n (some (old ++ p)), false)) ∨
      ((∀ k, cut = some k → bs.length ≤ k) ∧
        perform cut (bs.map (FileOp.put n) ++ ops) d =
          perform (later cut bs.length) ops (Function.update d n (some (old ++ bs)))) := by
  intro bs
  induction bs with
  | nil =>
      intro cut ops d old hold
      refine .inr ⟨fun _ _ => Nat.zero_le _, ?_⟩
      have hsame : Function.update d n (some (old ++ [])) = d := by
        rw [List.append_nil, ← hold, Function.update_eq_self]
      have hcut : later cut ([] : Bytes).length = cut := by cases cut <;> rfl
      rw [hsame, hcut]
      rfl
  | cons b bs ih =>
      intro cut ops d old hold
      by_cases hcut : cut = some 0
      · refine .inl ⟨[], b :: bs, rfl, List.cons_ne_nil _ _, ⟨0, hcut, Nat.succ_pos _, rfl⟩, ?_⟩
        rw [hcut, List.append_nil, ← hold, Function.update_eq_self]
        rfl
      · have hstep : (FileOp.put n b).step d =
            some (Function.update d n (some (old ++ [b]))) := by
          rw [FileOp.step]
          rw [hold]
          rfl
        have hnew : Function.update d n (some (old ++ [b])) n = some (old ++ [b]) :=
          Function.update_self ..
        rw [List.map_cons, List.cons_append, perform_cons hcut hstep]
        rcases ih (later cut 1) ops hnew with
          ⟨p, q, rfl, hq, ⟨k, hk, hlt, hp⟩, hperf⟩ | ⟨hall, hperf⟩
        · refine .inl ⟨b :: p, q, rfl, hq, ⟨k + 1, ?_, ?_, ?_⟩, ?_⟩
          · cases cut with
            | none => cases hk
            | some m =>
                have hm : m - 1 = k := Option.some.inj hk
                have : m ≠ 0 := fun h => hcut (congrArg some h)
                exact congrArg some (by omega)
          · rw [List.length_cons]
            omega
          · rw [List.length_cons, hp]
          · rw [hperf, Function.update_idem, List.append_assoc]
            rfl
        · refine .inr ⟨fun m hm => ?_, ?_⟩
          · have hle := hall (m - 1) (by rw [hm]; rfl)
            have : m ≠ 0 := fun h => hcut (hm.trans (congrArg some h))
            rw [List.length_cons]
            omega
          · rw [hperf, later_later, Function.update_idem, List.append_assoc, List.length_cons,
              Nat.add_comm 1]
            rfl

/-! ## Replacing a file -/

/-- Write a new temporary file and rename it. -/
def replaceOps (tmp name : N) (bs : Bytes) : List (FileOp N) :=
  .createNew tmp :: (bs.map (FileOp.put tmp) ++ [.sync tmp, .rename tmp name, .syncDir])

/-- The operations before the name has the new contents. -/
def replaceAt (bs : Bytes) : Nat := bs.length + 3

/-- The directory once the file is replaced. -/
def replaced (d : Dir N) (tmp name : N) (bs : Bytes) : Dir N :=
  Function.update (Function.update d name (some bs)) tmp none

omit [DecidableEq N] in
theorem length_replaceOps (tmp name : N) (bs : Bytes) :
    (replaceOps tmp name bs).length = replaceAt bs + 1 := by
  simp [replaceOps, replaceAt]

/-- Before the rename nothing but the temporary file has changed; behind it the
file is replaced. -/
theorem perform_replace (tmp name : N) (bs : Bytes) (cut : Option Nat)
    (ops : List (FileOp N)) (d : Dir N) :
    ((d tmp ≠ none ∨ ∃ k, cut = some k ∧ k < replaceAt bs) ∧
        (perform cut (replaceOps tmp name bs ++ ops) d).2 = false ∧
        ∀ n, n ≠ tmp → (perform cut (replaceOps tmp name bs ++ ops) d).1 n = d n) ∨
      d tmp = none ∧ (∀ k, cut = some k → replaceAt bs ≤ k) ∧
        ((cut = some (replaceAt bs) ∧
            perform cut (replaceOps tmp name bs ++ ops) d = (replaced d tmp name bs, false)) ∨
          cut ≠ some (replaceAt bs) ∧
            perform cut (replaceOps tmp name bs ++ ops) d =
              perform (later cut (replaceAt bs + 1)) ops (replaced d tmp name bs)) := by
  by_cases htmp : d tmp = none
  · have hcreate : (FileOp.createNew tmp).step d = some (Function.update d tmp (some [])) := by
      rw [FileOp.step]
      rw [if_pos htmp]
    by_cases h0 : cut = some 0
    · refine .inl ⟨.inr ⟨0, h0, Nat.succ_pos _⟩, ?_⟩
      rw [h0]
      exact ⟨rfl, fun _ _ => rfl⟩
    · have hnew : Function.update d tmp (some []) tmp = some [] := Function.update_self ..
      unfold replaceOps
      rw [List.cons_append, perform_cons h0 hcreate, List.append_assoc]
      rcases perform_puts bs (later cut 1) ([.sync tmp, .rename tmp name, .syncDir] ++ ops)
          hnew with
        ⟨p, q, rfl, hq, ⟨k, hk, hlt, hp⟩, hperf⟩ | ⟨hall, hperf⟩
      · refine .inl ⟨.inr ?_, ?_⟩
        · cases cut with
          | none => cases hk
          | some m =>
              have hm : m - 1 = k := Option.some.inj hk
              exact ⟨m, rfl, by unfold replaceAt; omega⟩
        · rw [hperf]
          exact ⟨rfl, fun n hn => by simp [Function.update_of_ne hn]⟩
      · rw [hperf, later_later, Function.update_idem, List.nil_append]
        have hwritten : Function.update d tmp (some bs) tmp = some bs := Function.update_self ..
        have hsync : (FileOp.sync tmp).step (Function.update d tmp (some bs)) =
            some (Function.update d tmp (some bs)) := by
          rw [FileOp.step]
          rw [hwritten]
          rfl
        have hrename : (FileOp.rename tmp name).step (Function.update d tmp (some bs)) =
            some (replaced d tmp name bs) := by
          rw [FileOp.step]
          rw [hwritten]
          refine congrArg some ?_
          change Function.update (Function.update (Function.update d tmp (some bs)) name
            (some bs)) tmp none = Function.update (Function.update d name (some bs)) tmp none
          funext n
          by_cases hn : n = tmp
          · rw [hn, Function.update_self, Function.update_self]
          · rw [Function.update_of_ne hn, Function.update_of_ne hn]
            by_cases hname : n = name
            · rw [hname, Function.update_self, Function.update_self]
            · rw [Function.update_of_ne hname, Function.update_of_ne hn,
                Function.update_of_ne hname]
        have hleft : ∀ n, n ≠ tmp → Function.update d tmp (some bs) n = d n :=
          fun n hn => Function.update_of_ne hn ..
        by_cases h1 : later cut (1 + bs.length) = some 0
        · obtain ⟨k, hk, hle⟩ := later_zero.mp h1
          refine .inl ⟨.inr ⟨k, hk, by unfold replaceAt; omega⟩, ?_⟩
          rw [h1]
          exact ⟨rfl, hleft⟩
        · rw [List.cons_append, perform_cons h1 hsync, later_later]
          by_cases h2 : later cut (1 + bs.length + 1) = some 0
          · obtain ⟨k, hk, hle⟩ := later_zero.mp h2
            refine .inl ⟨.inr ⟨k, hk, by unfold replaceAt; omega⟩, ?_⟩
            rw [h2]
            exact ⟨rfl, hleft⟩
          · rw [List.cons_append, perform_cons h2 hrename, later_later]
            have hlate : ∀ k, cut = some k → replaceAt bs ≤ k := by
              intro k hk
              by_contra hlt
              exact h2 (later_zero.mpr ⟨k, hk, by unfold replaceAt at hlt; omega⟩)
            refine .inr ⟨htmp, hlate, ?_⟩
            by_cases h3 : later cut (1 + bs.length + 1 + 1) = some 0
            · obtain ⟨k, hk, hle⟩ := later_zero.mp h3
              have hat : k = replaceAt bs := by
                have := hlate k hk
                unfold replaceAt at this ⊢
                omega
              refine .inl ⟨hat ▸ hk, ?_⟩
              rw [h3]
              rfl
            · have hcut : cut ≠ some (replaceAt bs) := fun h =>
                h3 (later_zero.mpr ⟨_, h, by unfold replaceAt; omega⟩)
              refine .inr ⟨hcut, ?_⟩
              have hcount : 1 + bs.length + 1 + 1 + 1 = replaceAt bs + 1 := by
                unfold replaceAt
                omega
              rw [List.cons_append, perform_cons h3 rfl, later_later, hcount, List.nil_append]
  · refine .inl ⟨.inl htmp, ?_⟩
    have hstep : (FileOp.createNew tmp).step d = none := by
      rw [FileOp.step]
      rw [if_neg htmp]
    unfold replaceOps
    rw [List.cons_append, perform_fails hstep]
    exact ⟨rfl, fun _ _ => rfl⟩

/-- Without a cut, and with the temporary name free, the file is replaced. -/
theorem perform_replace_all {tmp name : N} {bs : Bytes} {d : Dir N} (htmp : d tmp = none)
    (ops : List (FileOp N)) :
    perform none (replaceOps tmp name bs ++ ops) d = perform none ops (replaced d tmp name bs) := by
  rcases perform_replace tmp name bs none ops d with
    ⟨hstop | ⟨k, hk, _⟩, _⟩ | ⟨_, _, ⟨hcut, _⟩ | ⟨_, hperf⟩⟩
  · exact absurd htmp hstop
  · cases hk
  · cases hcut
  · exact hperf

end GeistServe.Lib
