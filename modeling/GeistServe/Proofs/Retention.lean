import GeistServe.Lib.Window
import GeistServe.Perf.Plain
import GeistServe.Perf.Service

/-!
# What the performance store keeps

The store is a window on the log of the records that were put into it since the
last clear. `retain` is the only function that adds to it: it filters by the
retention and puts the record behind what is left, and the cap pushes out the
front (`retain_window`). A load is a row of them, so it does the same with all
records that it puts in (`load_window`). What holds over a run is `Window`: the
store is what a filter leaves of the end of the log.
-/

namespace GeistServe.Proofs

open GeistServe.Lib GeistServe.Perf

variable {C : Codec}

/-- At some time up to now, and by a retention that can be set, the record was
too old. -/
def Outdated (C : Codec) (now : Int) (r : C.Rec) : Prop :=
  ∃ t ≤ now, ∃ days, Retention days ∧ fresh C t days r = false

theorem Outdated.later {now now' : Int} (hle : now ≤ now') {r : C.Rec} (h : Outdated C now r) :
    Outdated C now' r := by
  obtain ⟨t, ht, hold⟩ := h
  exact ⟨t, Int.le_trans ht hle, hold⟩

theorem known_iff {recs : List C.Rec} {id : Bytes} :
    known recs id = true ↔ id ∈ recs.map C.id := by
  simp [known, List.any_eq_true]

theorem not_known_iff {recs : List C.Rec} {id : Bytes} :
    (!known recs id) = true ↔ id ∉ recs.map C.id := by
  rw [Bool.not_eq_true', ← not_iff_not, Bool.not_eq_false, not_not]
  exact known_iff

/-! ## One record -/

/-- `retain` puts what it takes behind what is not too old, and the cap pushes
out the first. -/
theorem retain_window {now : Int} {days : Nat} {st : Store C} {r : C.Rec}
    (hcap : st.recs.length ≤ PERF_RECORDS) :
    (retain now days st r).recs =
      newest PERF_RECORDS (st.recs.filter (fresh C now days) ++ inserted now days st r) := by
  have hkept : (st.recs.filter (fresh C now days)).length ≤ PERF_RECORDS :=
    Nat.le_trans (List.length_filter_le _ _) hcap
  simp only [retain, inserted]
  split
  · next hold =>
      simp only [hold, Bool.false_and, Bool.false_eq_true, if_false, List.append_nil,
        newest_of_le hkept]
  · next hnew =>
      rw [Bool.not_eq_false] at hnew
      split
      · next hknown =>
          simp only [hnew, hknown, Bool.not_true, Bool.and_false, Bool.false_eq_true, if_false,
            List.append_nil, newest_of_le hkept]
      · next hknown =>
          rw [Bool.not_eq_true] at hknown
          simp only [hnew, hknown, Bool.not_false, Bool.and_true, if_true]
          split
          · next hfull => exact (newest_push hfull (by decide) r).symm
          · next hroom =>
              have hlen : (st.recs.filter (fresh C now days) ++ [r]).length ≤ PERF_RECORDS := by
                rw [List.length_append, List.length_singleton]
                omega
              exact (newest_of_le hlen).symm

/-- A record that is put in is not too old, and its name is new. -/
theorem inserted_spec {now : Int} {days : Nat} {st : Store C} {r x : C.Rec}
    (h : x ∈ inserted now days st r) :
    x = r ∧ fresh C now days x = true ∧
      C.id x ∉ (st.recs.filter (fresh C now days)).map C.id := by
  unfold inserted at h
  split at h
  · next hin =>
      rw [Bool.and_eq_true] at hin
      rw [List.mem_singleton] at h
      subst h
      exact ⟨rfl, hin.1, not_known_iff.mp hin.2⟩
  · cases h

/-- The names stay unique when records are put in. -/
theorem retain_names {now : Int} {days : Nat} {st : Store C} {r : C.Rec}
    (hcap : st.recs.length ≤ PERF_RECORDS) (h : (st.recs.map C.id).Nodup) :
    ((retain now days st r).recs.map C.id).Nodup := by
  have hkept : ((st.recs.filter (fresh C now days)).map C.id).Nodup :=
    h.sublist (List.filter_sublist.map _)
  have hboth : ((st.recs.filter (fresh C now days) ++ inserted now days st r).map C.id).Nodup := by
    unfold inserted
    split
    · next hin =>
        rw [Bool.and_eq_true] at hin
        rw [List.map_append, List.map_singleton]
        refine List.nodup_append.mpr ⟨hkept, List.nodup_cons.mpr ⟨List.not_mem_nil, .nil⟩, ?_⟩
        intro id hid id' hid' heq
        rw [List.mem_singleton] at hid'
        subst hid'
        subst heq
        exact not_known_iff.mp hin.2 hid
    · rw [List.append_nil]
      exact hkept
  rw [retain_window hcap]
  exact hboth.sublist ((List.drop_sublist _ _).map _)

/-! ## One operation -/

/-- The records of `st'` are those of `st`, or what is not too old of them and
the new ones behind it, as far as the cap goes. -/
def Pushed (now : Int) (days : Nat) (recs recs' new : List C.Rec) : Prop :=
  (∀ x ∈ new, fresh C now days x = true) ∧
    (recs' = recs ∧ new = [] ∨
      recs' = newest PERF_RECORDS (recs.filter (fresh C now days) ++ new))

theorem Pushed.refl {now : Int} {days : Nat} (recs : List C.Rec) : Pushed now days recs recs [] :=
  ⟨fun _ hx => absurd hx List.not_mem_nil, .inl ⟨rfl, rfl⟩⟩

theorem Pushed.length {now : Int} {days : Nat} {recs recs' new : List C.Rec}
    (h : Pushed now days recs recs' new) (hcap : recs.length ≤ PERF_RECORDS) :
    recs'.length ≤ PERF_RECORDS := by
  rcases h.2 with ⟨hsame, _⟩ | hpushed
  · rw [hsame]
    exact hcap
  · rw [hpushed]
    exact newest_length_le PERF_RECORDS _

theorem retain_pushed {now : Int} {days : Nat} {st : Store C} {r : C.Rec}
    (hcap : st.recs.length ≤ PERF_RECORDS) :
    Pushed now days st.recs (retain now days st r).recs (inserted now days st r) :=
  ⟨fun _ hx => (inserted_spec hx).2.1, .inr (retain_window hcap)⟩

/-- Two moves at one time are one. -/
theorem Pushed.trans {now : Int} {days : Nat} {a b c new new' : List C.Rec}
    (h : Pushed now days a b new) (h' : Pushed now days b c new') : Pushed now days a c (new ++ new') := by
  have hfresh : ∀ x ∈ new ++ new', fresh C now days x = true := by
    intro x hx
    rcases List.mem_append.mp hx with hx | hx
    · exact h.1 x hx
    · exact h'.1 x hx
  refine ⟨hfresh, ?_⟩
  rcases h.2 with ⟨rfl, rfl⟩ | hb
  · rw [List.nil_append]
    exact h'.2
  · right
    rcases h'.2 with ⟨rfl, rfl⟩ | hc
    · rw [List.append_nil]
      exact hb
    · -- nothing of the first move is too old for the second
      have hsame : b.filter (fresh C now days) = b := by
        rw [List.filter_eq_self, hb]
        intro x hx
        rcases List.mem_append.mp (mem_of_newest hx) with hx | hx
        · exact (List.mem_filter.mp hx).2
        · exact h.1 x hx
      rw [hc, hsame, hb, newest_append, List.append_assoc]

theorem Service.load_cons {now : Int} {p : Service C} {r : C.Rec} {rs : List C.Rec} :
    Service.load p now (r :: rs) =
      Service.load (if known p.st.recs (C.id r) then p
        else { p with st := retain now p.days p.st r, persisted := p.persisted + 1 }) now rs :=
  rfl

/-- A load is a row of `retain`. -/
theorem load_pushed {now : Int} {rs : List C.Rec} :
    ∀ {p : Service C}, p.st.recs.length ≤ PERF_RECORDS → (p.st.recs.map C.id).Nodup →
      Pushed now p.days p.st.recs (p.load now rs).st.recs (insertedAll now p.days p.st rs) ∧
        ((p.load now rs).st.recs.map C.id).Nodup ∧ (p.load now rs).days = p.days := by
  induction rs with
  | nil => exact fun _ hnames => ⟨.refl _, hnames, rfl⟩
  | cons r rs ih =>
      intro p hcap hnames
      rw [Service.load_cons, insertedAll]
      split
      · exact ih hcap hnames
      · have hfirst := @retain_pushed C now p.days p.st r hcap
        obtain ⟨hrest, hnames', hdays⟩ :=
          @ih { p with st := retain now p.days p.st r, persisted := p.persisted + 1 }
            (hfirst.length hcap) (retain_names hcap hnames)
        exact ⟨hfirst.trans hrest, hnames', hdays⟩

theorem submit_pushed {now : Int} {p : Service C} {e : Entry C}
    (hcap : p.st.recs.length ≤ PERF_RECORDS) (hnames : (p.st.recs.map C.id).Nodup) :
    Pushed now p.days p.st.recs (p.submit now e).st.recs
        (if p.accepts now e then inserted now p.days p.st e.record else []) ∧
      ((p.submit now e).st.recs.map C.id).Nodup ∧ (p.submit now e).days = p.days := by
  by_cases hacc : p.accepts now e = true
  · have hst : (p.submit now e).st = retain now p.days p.st e.record ∧
        (p.submit now e).days = p.days := by
      simp only [Service.submit, if_pos hacc]
      split <;> exact ⟨rfl, rfl⟩
    rw [if_pos hacc, hst.1, hst.2]
    exact ⟨retain_pushed hcap, retain_names hcap hnames, rfl⟩
  · have hst : p.submit now e = p := by
      unfold Service.submit
      rw [if_neg hacc]
    rw [if_neg hacc, hst]
    exact ⟨.refl _, hnames, rfl⟩

theorem settings_pushed {p : Service C} {enabled : Bool} {days : Nat} {stored : Bool} :
    (p.settings enabled days stored).st = p.st := by
  unfold Service.settings
  split <;> rfl

theorem export_pushed {now : Int} {p : Service C} (hcap : p.st.recs.length ≤ PERF_RECORDS) :
    Pushed now p.days p.st.recs (p.export now).2 [] := by
  refine ⟨fun _ hx => absurd hx List.not_mem_nil, .inr ?_⟩
  rw [List.append_nil, newest_of_le (Nat.le_trans (List.length_filter_le _ _) hcap)]
  rfl

/-! ## Every run -/

/-- What holds of the store between two operations: the store is what is left of
the end of its log. -/
structure Windowed (s : Kept C) : Prop where
  cap : s.p.st.recs.length ≤ PERF_RECORDS
  names : (s.p.st.recs.map C.id).Nodup
  retention : Retention s.p.days
  window : ∃ front rest, s.log = front ++ rest ∧ Sifted (Outdated C s.now) rest s.p.st.recs

/-- The step took what is too old out of the store, put these records behind the
rest, and let the cap push out the front. -/
def Took (s s' : Kept C) (new : List C.Rec) : Prop :=
  s'.log = s.log ++ new ∧ Pushed s.now s.p.days s.p.st.recs s'.p.st.recs new

theorem Windowed.took {s s' : Kept C} {new : List C.Rec} (h : Windowed s) (ht : Took s s' new)
    (hnow : s.now ≤ s'.now) (hdays : Retention s'.p.days)
    (hnames : (s'.p.st.recs.map C.id).Nodup) : Windowed s' := by
  obtain ⟨hlog, hpush⟩ := ht
  obtain ⟨front, rest, hsplit, hsift⟩ := h.window
  refine ⟨hpush.length h.cap, hnames, hdays, ?_⟩
  rcases hpush.2 with ⟨hrecs, hnew⟩ | hrecs
  · rw [hlog, hnew, List.append_nil, hrecs]
    exact ⟨front, rest, hsplit, hsift.mono fun x hx => hx.later hnow⟩
  · have hkept : Sifted (Outdated C s.now) rest (s.p.st.recs.filter (fresh C s.now s.p.days)) :=
      hsift.filter fun x hx => ⟨s.now, Int.le_refl _, s.p.days, h.retention, hx⟩
    obtain ⟨front', rest', hsplit', hsift'⟩ := (hkept.append (.refl new)).newest PERF_RECORDS
    rw [hlog, hrecs, hsplit, List.append_assoc, hsplit', ← List.append_assoc]
    exact ⟨front ++ front', rest', rfl, hsift'.mono fun x hx => hx.later hnow⟩

/-- What each operation does to a store that is a window on its log. -/
theorem step_took {s s' : Kept C} {op : Op C} (h : Windowed s) (hstep : s.step op = some s') :
    Windowed s' ∧ s.now ≤ s'.now ∧
      (op = .clear ∧ s'.p.st.recs = [] ∧ s'.log = [] ∨ ∃ new, Took s s' new) := by
  cases op with
  | tick n =>
      cases hstep
      have ht : Took s { s with now := s.now + n } [] := ⟨(List.append_nil _).symm, .refl _⟩
      have hnow : s.now ≤ s.now + (n : Int) := by omega
      exact ⟨h.took ht hnow h.retention h.names, hnow, .inr ⟨[], ht⟩⟩
  | load rs =>
      cases hstep
      obtain ⟨hpush, hnames, hdays⟩ := load_pushed h.cap h.names
      refine ⟨h.took ⟨rfl, hpush⟩ (Int.le_refl _) ?_ hnames, Int.le_refl _, .inr ⟨_, rfl, hpush⟩⟩
      show Retention (s.p.load s.now rs).days
      rw [hdays]
      exact h.retention
  | submit e =>
      cases hstep
      obtain ⟨hpush, hnames, hdays⟩ := submit_pushed (e := e) h.cap h.names
      refine ⟨h.took ⟨rfl, hpush⟩ (Int.le_refl _) ?_ hnames, Int.le_refl _, .inr ⟨_, rfl, hpush⟩⟩
      show Retention (s.p.submit s.now e).days
      rw [hdays]
      exact h.retention
  | settings enabled days stored =>
      simp only [Kept.step] at hstep
      split at hstep
      · next hvalid =>
          cases hstep
          have hst := @settings_pushed C s.p enabled days stored
          have ht : Took s { s with p := s.p.settings enabled days stored } [] := by
            refine ⟨(List.append_nil _).symm, ?_⟩
            show Pushed s.now s.p.days s.p.st.recs (s.p.settings enabled days stored).st.recs []
            rw [hst]
            exact .refl _
          refine ⟨h.took ht (Int.le_refl _) ?_ ?_, Int.le_refl _, .inr ⟨[], ht⟩⟩
          · show Retention (s.p.settings enabled days stored).days
            unfold Service.settings
            split
            · exact hvalid
            · exact h.retention
          · show ((s.p.settings enabled days stored).st.recs.map C.id).Nodup
            rw [hst]
            exact h.names
      · cases hstep
  | «export» =>
      cases hstep
      have hpush := @export_pushed C s.now s.p h.cap
      refine ⟨h.took ⟨(List.append_nil _).symm, hpush⟩ (Int.le_refl _) h.retention ?_,
        Int.le_refl _, .inr ⟨[], (List.append_nil _).symm, hpush⟩⟩
      exact h.names.sublist (List.filter_sublist.map _)
  | clear =>
      cases hstep
      exact ⟨⟨Nat.zero_le _, .nil, h.retention, [], [], rfl, .nil⟩, Int.le_refl _,
        .inl ⟨rfl, rfl, rfl⟩⟩

theorem reach_windowed {s : Kept C} (h : (keptMachine C).Reach Machine.free s) : Windowed s := by
  refine Machine.Reach.invariant ?_ ?_ h
  · intro s ⟨hrecs, hlog, _, hdays⟩
    refine ⟨?_, ?_, hdays, [], [], hlog, ?_⟩
    · rw [hrecs]
      exact Nat.zero_le _
    · rw [hrecs]
      exact .nil
    · rw [hrecs]
      exact .nil
  · intro s op s' _ _ hstep h
    exact (step_took h hstep).1

/-- The store holds at most `PERF_RECORDS` records under different names. It is
what is left of the end of its log, in that order, and what is gone from that end
was too old. Every operation but a clear takes out what is too old, puts records
that are not behind the rest, and has the cap push out the front. An export is
what is left of the log, none of it too old, and what is too old is not
submitted. -/
theorem store_keeps_newest {s : Kept C} (h : (keptMachine C).Reach Machine.free s) :
    s.p.st.recs.length ≤ PERF_RECORDS ∧ (s.p.st.recs.map C.id).Nodup ∧
      (∃ front rest, s.log = front ++ rest ∧ Sifted (Outdated C s.now) rest s.p.st.recs) ∧
      ∀ op s', s.step op = some s' →
        (op = .clear ∧ s'.p.st.recs = [] ∧ s'.log = [] ∨ ∃ new, Took s s' new) ∧
        (op = .export → s'.exported.Sublist s'.log ∧
          ∀ r ∈ s'.exported, fresh C s'.now s'.p.days r = true) ∧
        ∀ e, op = .submit e → fresh C s.now s.p.days e.record = false → s' = s := by
  have hw := reach_windowed h
  refine ⟨hw.cap, hw.names, hw.window, fun op s' hstep => ?_⟩
  obtain ⟨hw', _, htook⟩ := step_took hw hstep
  refine ⟨htook, ?_, ?_⟩
  · rintro rfl
    obtain ⟨front, rest, hlog, hsift⟩ := hw'.window
    cases hstep
    refine ⟨?_, fun r hr => (List.mem_filter.mp hr).2⟩
    show (s.p.export s.now).2.Sublist s.log
    rw [show s.log = front ++ rest from hlog]
    exact hsift.sublist.trans (List.sublist_append_right _ _)
  · rintro e rfl hold
    cases hstep
    have hacc : s.p.accepts s.now e = false := by
      simp [Service.accepts, hold]
    have hsame : s.p.submit s.now e = s.p := by
      rw [Service.submit, hacc, if_neg Bool.false_ne_true]
    rw [hacc, hsame, if_neg Bool.false_ne_true, List.append_nil]

/-- Records that are submitted twice are exported once, in the order in which
they came, and when the retention is over none of them is. -/
theorem store_keeps_newest_once :
    ∃ s t : Kept (unary 4), (keptMachine (unary 4)).Reach Machine.free t ∧
      s.exported = [(2 : Fin 5), (1 : Fin 5)] ∧ s.step (.tick (90 * 86400 + 1)) = some t ∧
      t.p.st.recs = s.exported ∧ (t.p.export t.now).2 = [] ∧
      ∀ op t', t.step op = some t' → op = .export → ∀ r ∈ t'.exported,
        fresh (unary 4) t'.now t'.p.days r = true := by
  have hinit : (keptMachine (unary 4)).Reach Machine.free (⟨{}, 0, [], []⟩ : Kept (unary 4)) :=
    .init ⟨rfl, rfl, rfl, by decide⟩
  have hrun : (keptMachine (unary 4)).run ⟨{}, 0, [], []⟩
      [.submit ⟨(2 : Fin 5), true, 1⟩, .submit ⟨(1 : Fin 5), true, 1⟩,
        .submit ⟨(2 : Fin 5), true, 1⟩, .export] =
      some ⟨{ st := { recs := [(2 : Fin 5), (1 : Fin 5)] }, queue := [(2 : Fin 5), (1 : Fin 5)] },
        0, [(2 : Fin 5), (1 : Fin 5)], [(2 : Fin 5), (1 : Fin 5)]⟩ := by
    rfl
  have hs := Machine.run_reach (fun _ _ => trivial) hinit hrun
  have ht := Machine.Reach.step (a := .tick (90 * 86400 + 1)) hs trivial rfl
  exact ⟨_, _, ht, rfl, rfl, rfl, by decide, fun op t' hstep hop =>
    (((store_keeps_newest ht).2.2.2 op t' hstep).2.1 hop).2⟩

end GeistServe.Proofs
