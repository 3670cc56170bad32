import Mathlib.Algebra.Group.Nat.Defs
import Mathlib.Data.List.Basic

/-!
# Machines and their runs

A `Machine` is a set of start states and a partial step function. Every
result about a whole run in this development goes through the two facts of
this file: a property that holds at the start and survives every step holds
in every state reached, and a list of actions that replays ends in a state
that is reached.

`Reach` carries a side condition on the steps. With `free` it is plain
reachability; with a condition on the state before the step it is
reachability along the runs whose steps all meet the condition. `Passes` is for
what must have been so at some moment of a run.
-/

namespace GeistServe.Lib

/-- Start states and a step; `step s a = none` says that the action `a` is
not possible in the state `s`. -/
structure Machine (σ α : Type) where
  init : σ → Prop
  step : σ → α → Option σ

namespace Machine

variable {σ α : Type} {M : Machine σ α}

/-- The side condition that every step meets. -/
def free (_ : σ) (_ : α) : Prop := True

/-- The states of the runs whose steps all meet `ok`. -/
inductive Reach (M : Machine σ α) (ok : σ → α → Prop) : σ → Prop where
  | init {s : σ} (h : M.init s) : Reach M ok s
  | step {s s' : σ} {a : α} (hr : Reach M ok s) (hok : ok s a)
      (h : M.step s a = some s') : Reach M ok s'

/-- A stronger side condition reaches less. -/
theorem Reach.mono {ok ok' : σ → α → Prop} (hle : ∀ s a, ok s a → ok' s a)
    {s : σ} (h : Reach M ok s) : Reach M ok' s := by
  induction h with
  | init h => exact .init h
  | step _ hok h ih => exact .step ih (hle _ _ hok) h

/-- The invariant rule: what holds at the start and survives every step taken
from a reached state holds in every state reached. -/
theorem Reach.invariant {ok : σ → α → Prop} {I : σ → Prop}
    (hinit : ∀ s, M.init s → I s)
    (hstep : ∀ s a s', Reach M ok s → ok s a → M.step s a = some s' → I s → I s')
    {s : σ} (h : Reach M ok s) : I s := by
  induction h with
  | init h => exact hinit _ h
  | step hr hok h ih => exact hstep _ _ _ hr hok h ih

/-- The actions of a list, taken in order. -/
def run (M : Machine σ α) : σ → List α → Option σ
  | s, [] => some s
  | s, a :: rest => (M.step s a).bind fun s' => run M s' rest

theorem run_reach {ok : σ → α → Prop} (hok : ∀ s a, ok s a) :
    ∀ {as : List α} {s s' : σ}, Reach M ok s → M.run s as = some s' →
      Reach M ok s' := by
  intro as
  induction as with
  | nil =>
      intro s s' hr h
      rw [run] at h
      injection h with h
      exact h ▸ hr
  | cons a rest ih =>
      intro s s' hr h
      rw [run] at h
      obtain ⟨t, ht, h⟩ := Option.bind_eq_some_iff.mp h
      exact ih (.step hr (hok s a) ht) h

/-- If every step keeps `I` and takes one from the measure where the action counts, then a run
has no more actions that count than the measure has at its start. -/
theorem run_bounded {I : σ → Prop} {μ : σ → Nat} {p : α → Bool}
    (hstep : ∀ s a s', I s → M.step s a = some s' → I s' ∧ μ s' + (p a).toNat ≤ μ s) :
    ∀ {as : List α} {s s' : σ}, I s → M.run s as = some s' → I s' ∧ as.countP p + μ s' ≤ μ s := by
  intro as
  induction as with
  | nil =>
      intro s s' hs h
      rw [run] at h
      injection h with h
      rw [← h, List.countP_nil, Nat.zero_add]
      exact ⟨hs, Nat.le_refl _⟩
  | cons a rest ih =>
      intro s s' hs h
      rw [run] at h
      obtain ⟨t, ht, h⟩ := Option.bind_eq_some_iff.mp h
      obtain ⟨hit, hle⟩ := hstep s a t hs ht
      obtain ⟨his', hrest⟩ := ih hit h
      refine ⟨his', ?_⟩
      rw [List.countP_cons]
      cases hp : p a with
      | true | false =>
          rw [hp] at hle
          simp only [Bool.toNat_true, Bool.toNat_false] at hle
          simp only [if_true, Bool.false_eq_true, if_false]
          omega

/-- A run that ends in a state with a property reaches a state with it. -/
theorem run_any {ok : σ → α → Prop} (hok : ∀ s a, ok s a) {s : σ} (hr : Reach M ok s)
    (as : List α) (p : σ → Bool) (h : (M.run s as).any p = true) :
    ∃ s', Reach M ok s' ∧ p s' = true := by
  cases hrun : M.run s as with
  | none =>
      rw [hrun] at h
      cases h
  | some s' =>
      rw [hrun] at h
      exact ⟨s', run_reach hok hr hrun, h⟩

/-- Whether the actions of a list can be taken in order, each with a check of the
state before it. -/
def checks (M : Machine σ α) (p : σ → α → Bool) : σ → List α → Bool
  | _, [] => true
  | s, a :: rest => p s a && (M.step s a).any fun s' => checks M p s' rest

/-- A run whose steps all pass the check meets the side condition that it stands
for. -/
theorem checks_reach {ok : σ → α → Prop} {p : σ → α → Bool} (hp : ∀ s a, p s a = true → ok s a) :
    ∀ (as : List α) {s : σ}, Reach M ok s → M.checks p s as = true →
      ∃ s', M.run s as = some s' ∧ Reach M ok s' := by
  intro as
  induction as with
  | nil => exact fun hr _ => ⟨_, rfl, hr⟩
  | cons a rest ih =>
      intro s hr h
      rw [checks, Bool.and_eq_true] at h
      obtain ⟨t, ht, hrest⟩ := (Option.any_eq_true _ _).mp h.2
      obtain ⟨s', hrun, hreach⟩ := ih (.step hr (hp s a h.1) ht) hrest
      refine ⟨s', ?_, hreach⟩
      rw [run, ht]
      exact hrun

/-- A state with a property stands at the start of a run, between two of its
actions or at its end. -/
def Passes (M : Machine σ α) (p : σ → Prop) (s : σ) (as : List α) : Prop :=
  ∃ bs s', bs <+: as ∧ M.run s bs = some s' ∧ p s'

theorem passes_nil {p : σ → Prop} {s : σ} : M.Passes p s [] ↔ p s := by
  refine ⟨fun ⟨bs, s', hbs, hrun, hp⟩ => ?_, fun hp => ⟨[], s, List.prefix_refl [], rfl, hp⟩⟩
  rw [List.prefix_nil.mp hbs, run] at hrun
  injection hrun with hrun
  exact hrun ▸ hp

theorem passes_cons {p : σ → Prop} {s s' : σ} {a : α} {as : List α}
    (h : M.step s a = some s') : M.Passes p s (a :: as) ↔ p s ∨ M.Passes p s' as := by
  have hrun (bs : List α) : M.run s (a :: bs) = M.run s' bs := by
    rw [run, h]
    rfl
  constructor
  · rintro ⟨bs, t, hbs, hbsrun, hp⟩
    cases bs with
    | nil =>
        rw [run] at hbsrun
        injection hbsrun with hbsrun
        exact .inl (hbsrun ▸ hp)
    | cons b bs =>
        obtain ⟨heq, hrest⟩ := List.cons_prefix_cons.mp hbs
        rw [heq, hrun] at hbsrun
        exact .inr ⟨bs, t, hrest, hbsrun, hp⟩
  · rintro (hp | ⟨bs, t, hbs, hbsrun, hp⟩)
    · exact ⟨[], s, List.nil_prefix, rfl, hp⟩
    · exact ⟨a :: bs, t, List.cons_prefix_cons.mpr ⟨rfl, hbs⟩, (hrun bs).trans hbsrun, hp⟩

end Machine

end GeistServe.Lib
