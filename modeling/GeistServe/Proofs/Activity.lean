import GeistServe.App.Activity

/-!
# The activity log over any sequence of calls

What the phases are is said by `Trace`, along the list: every phase but the last is
closed, and it ends where the next one starts. A call that is accepted closes the
last phase at its own time or leaves the phases alone, and a closed trace telescopes
to the time between its start and its end.
-/

namespace GeistServe.Proofs

open GeistServe.Geistd GeistServe.Perf GeistServe.App

/-! ## The phases -/

/-- A row of phases from `s` to the start `t` of the last one: each ends where the
next one starts. -/
inductive Trace : Rat → Rat → List ActivityPhase → Prop
  | last (p : ActivityPhase) : Trace p.start p.start [p]
  | cons (p : ActivityPhase) {s t : Rat} {ps : List ActivityPhase} (hle : p.start ≤ s)
      (hclosed : p.duration = s - p.start) (hrest : Trace s t ps) : Trace p.start t (p :: ps)

theorem closePhase_last (now : Rat) (p : ActivityPhase) :
    closePhase now [p] = [{ p with duration := now - p.start }] := rfl

theorem closePhase_cons (now : Rat) (p : ActivityPhase) {ps : List ActivityPhase} (h : ps ≠ []) :
    closePhase now (p :: ps) = p :: closePhase now ps := by
  obtain ⟨q, qs, rfl⟩ := List.exists_cons_of_ne_nil h
  rfl

theorem closePhase_length (now : Rat) (ps : List ActivityPhase) :
    (closePhase now ps).length = ps.length := List.length_modify ..

/-- Closing the last phase changes none of the others. -/
theorem closePhase_dropLast (now : Rat) (ps : List ActivityPhase) :
    (closePhase now ps).dropLast = ps.dropLast := by
  induction ps with
  | nil => rfl
  | cons p ps ih =>
      by_cases h : ps = []
      · subst h
        rfl
      · have hclosed : closePhase now ps ≠ [] := by
          intro hnil
          have hlen := closePhase_length now ps
          rw [hnil] at hlen
          exact h (List.eq_nil_of_length_eq_zero hlen.symm)
        rw [closePhase_cons now p h, List.dropLast_cons_of_ne_nil hclosed,
          List.dropLast_cons_of_ne_nil h, ih]

/-- What stays of a phase when it is closed. -/
def ActivityPhase.mark (p : ActivityPhase) : ActivityStage × Rat := (p.stage, p.start)

theorem closePhase_marks (now : Rat) (ps : List ActivityPhase) :
    (closePhase now ps).map ActivityPhase.mark = ps.map ActivityPhase.mark := by
  induction ps with
  | nil => rfl
  | cons p ps ih =>
      by_cases h : ps = []
      · subst h
        rfl
      · rw [closePhase_cons now p h, List.map_cons, List.map_cons, ih]

namespace Trace

variable {s t now : Rat} {ps : List ActivityPhase}

theorem ne_nil (h : Trace s t ps) : ps ≠ [] := by
  cases h <;> exact List.cons_ne_nil _ _

theorem le (h : Trace s t ps) : s ≤ t := by
  induction h with
  | last p => exact le_refl _
  | cons p hle _ _ ih => exact le_trans hle ih

theorem closePhase (h : Trace s t ps) (now : Rat) : Trace s t (closePhase now ps) := by
  induction h with
  | last p => exact .last { p with duration := now - p.start }
  | cons p hle hclosed hrest ih =>
      rw [closePhase_cons now p hrest.ne_nil]
      exact .cons p hle hclosed ih

/-- Closed at `now`, the durations are the time from the start to `now`. -/
theorem durations (h : Trace s t ps) (now : Rat) :
    ((App.closePhase now ps).map ActivityPhase.duration).sum = now - s := by
  induction h with
  | last p => simp [closePhase_last]
  | cons p hle hclosed hrest ih =>
      rw [closePhase_cons now p hrest.ne_nil, List.map_cons, List.sum_cons, ih, hclosed]
      ring

/-- A phase that starts at `now` goes behind a trace that is closed there. -/
theorem push (h : Trace s t ps) (hle : t ≤ now) (stage : ActivityStage) :
    Trace s now (App.closePhase now ps ++ [{ stage := stage, start := now }]) := by
  induction h with
  | last p =>
      rw [closePhase_last]
      exact .cons { p with duration := now - p.start } hle rfl (.last ⟨stage, now, 0⟩)
  | cons p hle' hclosed hrest ih =>
      rw [closePhase_cons now p hrest.ne_nil, List.cons_append]
      exact .cons p hle' hclosed (ih hle)

/-- The starts never go back. -/
theorem sorted (h : Trace s t ps) :
    (ps.map ActivityPhase.start).Pairwise (· ≤ ·) ∧
      ∀ x ∈ ps.map ActivityPhase.start, s ≤ x := by
  induction h with
  | last p =>
      refine ⟨List.pairwise_singleton _ _, fun x hx => ?_⟩
      rw [List.map_singleton, List.mem_singleton] at hx
      exact hx ▸ le_refl _
  | cons p hle _ _ ih =>
      rw [List.map_cons, List.pairwise_cons]
      refine ⟨⟨fun x hx => le_trans hle (ih.2 x hx), ih.1⟩, fun x hx => ?_⟩
      rcases List.mem_cons.mp hx with rfl | hx
      · exact le_refl _
      · exact le_trans hle (ih.2 x hx)

end Trace

/-! ## What a call does -/

/-- The activity is open for an event at `now`. -/
structure Accepting (a : Activity) (now : Rat) : Prop where
  begun : a.id ≠ 0
  running : a.outcome = []
  late : a.eventAt ≤ now

/-- The calls that are accepted, and the state behind each. -/
inductive Called (a : Activity) : ActivityCall → Activity → Prop
  | step (stage : ActivityStage) (now : Rat) (hopen : Accepting a now)
      (hroom : a.phases.length < ACTIVITY_PHASES) :
      Called a (.step a.id a.generation stage now)
        { a with
            phases := closePhase now a.phases ++ [{ stage := stage, start := now }]
            stage := stage
            eventAt := now
            sequence := a.sequence + 1 }
  | progress (progress : UInt64) (now : Rat) (hopen : Accepting a now) :
      Called a (.progress progress now)
        { a with progress := progress, eventAt := now, sequence := a.sequence + 1 }
  | «end» (outcome : CStr) (error : Int) (now : Rat) (hopen : Accepting a now) :
      Called a (.end outcome error now)
        { a with
            ended := now
            eventAt := now
            error := error
            sequence := a.sequence + 1
            phases := closePhase now a.phases
            outcome := fit 16 outcome }

theorem call_cases (a : Activity) (c : ActivityCall) :
    a.call c = (a, false) ∨ ∃ a', a.call c = (a', true) ∧ Called a c a' := by
  cases c with
  | step id generation stage now =>
      simp only [Activity.call, activityStep]
      split
      · exact .inl rfl
      · next hchecks =>
          split
          · exact .inl rfl
          · next hroom =>
              simp only [not_or, ne_eq, not_not, not_lt] at hchecks
              obtain ⟨hid, rfl, rfl, hrunning, _, _, htime⟩ := hchecks
              exact .inr ⟨_, rfl, .step stage now ⟨hid, hrunning, htime⟩ (Nat.lt_of_not_le hroom)⟩
  | progress progress now =>
      simp only [Activity.call, activityProgress]
      split
      · exact .inl rfl
      · next hchecks =>
          simp only [not_or, ne_eq, not_not, not_lt] at hchecks
          obtain ⟨hid, hrunning, _, htime⟩ := hchecks
          exact .inr ⟨_, rfl, .progress progress now ⟨hid, hrunning, htime⟩⟩
  | «end» outcome error now =>
      simp only [Activity.call, activityEnd]
      split
      · exact .inl rfl
      · next hchecks =>
          simp only [not_or, ne_eq, not_not, not_lt] at hchecks
          obtain ⟨hid, hrunning, htime⟩ := hchecks
          exact .inr ⟨_, rfl, .end outcome error now ⟨hid, hrunning, htime⟩⟩

theorem Called.accepting {a a' : Activity} {c : ActivityCall} (h : Called a c a') : Accepting a c.time := by
  cases h with
  | step _ _ hopen => exact hopen
  | progress _ _ hopen => exact hopen
  | «end» _ _ _ hopen => exact hopen

theorem Called.names {a a' : Activity} {c : ActivityCall} (h : Called a c a') : c.names a := by
  cases h with
  | step => exact ⟨rfl, rfl⟩
  | progress | «end» => trivial

theorem Called.sequence {a a' : Activity} {c : ActivityCall} (h : Called a c a') :
    a'.sequence = a.sequence + 1 := by
  cases h <;> rfl

/-! ## Every sequence of calls -/

/-- What holds of an activity between two calls. -/
structure Traced (a : Activity) : Prop where
  room : a.phases.length ≤ ACTIVITY_PHASES
  trace : ∃ t ≤ a.eventAt, Trace a.started t a.phases

theorem begin_traced (id generation : UInt64) (stage : ActivityStage) (now : Rat) :
    Traced (activityBegin id generation stage now) := by
  refine ⟨?_, now, le_refl now, .last ⟨stage, now, 0⟩⟩
  show 1 ≤ 16
  omega

theorem Called.traced {a a' : Activity} {c : ActivityCall} (h : Called a c a') (ha : Traced a) :
    Traced a' := by
  obtain ⟨hroom, t, hle, htrace⟩ := ha
  cases h with
  | step stage now hopen hfree =>
      refine ⟨?_, now, le_refl now, htrace.push (le_trans hle hopen.late) stage⟩
      simp only [List.length_append, List.length_singleton, closePhase_length]
      omega
  | progress progress now hopen => exact ⟨hroom, t, le_trans hle hopen.late, htrace⟩
  | «end» outcome error now hopen =>
      refine ⟨?_, t, le_trans hle hopen.late, htrace.closePhase now⟩
      simp only [closePhase_length]
      exact hroom

theorem calls_cons (a : Activity) (c : ActivityCall) (cs : List ActivityCall) :
    a.calls (c :: cs) = (a.call c).1.calls cs := rfl

theorem calls_traced {a : Activity} (ha : Traced a) (cs : List ActivityCall) :
    Traced (a.calls cs) := by
  induction cs generalizing a with
  | nil => exact ha
  | cons c cs ih =>
      rw [calls_cons]
      rcases call_cases a c with hsame | ⟨a', hcall, hcalled⟩
      · rw [hsame]
        exact ih ha
      · rw [hcall]
        exact ih (hcalled.traced ha)

/-- The phases that were there are there still, at their places: the closed ones as
they are, and of the last one its stage and its start. -/
structure PhasesKept (ps ps' : List ActivityPhase) : Prop where
  closed : ps.dropLast <+: ps'.dropLast
  marks : ps.map ActivityPhase.mark <+: ps'.map ActivityPhase.mark

theorem PhasesKept.refl (ps : List ActivityPhase) : PhasesKept ps ps :=
  ⟨List.prefix_refl _, List.prefix_refl _⟩

theorem PhasesKept.trans {ps qs rs : List ActivityPhase} (h : PhasesKept ps qs)
    (h' : PhasesKept qs rs) : PhasesKept ps rs :=
  ⟨h.closed.trans h'.closed, h.marks.trans h'.marks⟩

theorem phasesKept_close (now : Rat) (ps : List ActivityPhase) :
    PhasesKept ps (closePhase now ps) := by
  constructor
  · simp only [closePhase_dropLast, List.prefix_refl]
  · simp only [closePhase_marks, List.prefix_refl]

theorem phasesKept_push (now : Rat) (ps : List ActivityPhase) (p : ActivityPhase) :
    PhasesKept ps (closePhase now ps ++ [p]) := by
  constructor
  · rw [List.dropLast_concat, ← closePhase_dropLast now ps]
    exact List.dropLast_prefix _
  · rw [List.map_append, closePhase_marks]
    exact List.prefix_append _ _

theorem Called.phases {a a' : Activity} {c : ActivityCall} (h : Called a c a') :
    PhasesKept a.phases a'.phases := by
  cases h with
  | step stage now => exact phasesKept_push now a.phases ⟨stage, now, 0⟩
  | progress => exact .refl _
  | «end» outcome error now => exact phasesKept_close now a.phases

theorem calls_phases (a : Activity) (cs : List ActivityCall) :
    PhasesKept a.phases (a.calls cs).phases := by
  induction cs generalizing a with
  | nil => exact .refl _
  | cons c cs ih =>
      rw [calls_cons]
      rcases call_cases a c with hsame | ⟨a', hcall, hcalled⟩
      · rw [hsame]
        exact ih a
      · rw [hcall]
        exact hcalled.phases.trans (ih a')

/-- An outcome is final. -/
theorem calls_frozen {a : Activity} (h : a.outcome ≠ []) (cs : List ActivityCall) :
    a.calls cs = a := by
  induction cs with
  | nil => rfl
  | cons c cs ih =>
      rw [calls_cons]
      rcases call_cases a c with hsame | ⟨a', _, hcalled⟩
      · rw [hsame]
        exact ih
      · exact absurd hcalled.accepting.running h

theorem fit_ne_nil {cap : Nat} {s : CStr} (hcap : 1 < cap) (h : s ≠ []) : fit cap s ≠ [] := by
  intro hnil
  rcases List.take_eq_nil_iff.mp hnil with hzero | hempty
  · omega
  · exact h hempty

/-- The answer to a request, with a stale step and a late end. -/
example :
    let a := (activityBegin 1 8 .connect 100).calls
      [.step 1 8 .open 120, .step 1 7 .answer 125, .progress 1 140, .end (lit "cancelled") 499 300,
        .end (lit "completed") 0 400]
    a.outcome = lit "cancelled" ∧ a.sequence = 4 ∧
      a.phases = [⟨.connect, 100, 20⟩, ⟨.open, 120, 180⟩] := by
  decide +kernel

end GeistServe.Proofs
