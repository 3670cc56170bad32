import GeistServe.Supervisor.Steps

/-!
# The branches of a section

`Section` says which functions the threads call; the types of this file say how
each of them can end, with the checks that it has made on the way. A function
that goes on behind a `stop_child` is left as it is: `stopChild_rule` and
`wakes_rule` say what that does.
-/

namespace GeistServe.Supervisor

/-! ## Requests -/

/-- The checks of the requests that want the app at rest. -/
structure Quiet (s : AppState) : Prop where
  compare : s.compare.running = false
  generating : s.generating = false
  job : s.job.running = false

/-- How a request can end that calls no `stop_child`. -/
inductive Plain (s : AppState) (t : Thread) (w : World) : AppState × Pc → Prop where
  | nothing : Plain s t w (s, .idle)
  | admitted (hclosing : s.closing = false) (hready : s.child.ready = true)
      (hcompare : s.compare.running = false) (hgen : s.generating = false)
      (hjob : s.job.running = true → s.job.activate = false) :
      Plain s t w ({ s with generating := true }.observationBegin t w, .admitted .request)
  | compare {thread : Bool} (hready : s.child.ready = true) (hq : Quiet s) :
      Plain s t w ({ s with
        compare := { s.compare with running := thread, ops := [] }
        compareCancelled := .clear
        begun := (s.preference, s.mode) }, .idle)
  | prefer {preference : Nat → Option Mode} {mode : Mode} (hready : s.child.ready = true)
      (hq : Quiet s) :
      Plain s t w ({ s with preference := preference, mode := mode }, .idle)
  | catalog {models : List Model} {revision : Nat} {selected : Option Nat} (hq : Quiet s)
      (hload : s.child.pid.isSome → s.child.ready = true) :
      Plain s t w
        ({ s with models := models, revision := revision, selected := selected }, .idle)
  | cancelRequest (hgen : s.generating = true) (hid : 0 < s.request.id)
      (hopen : s.request.outcome = none) :
      Plain s t w ({ s with
        requestCancelled := .set (some s.request.id)
        compareCancelled := if s.compare.running then .set (some s.request.id)
          else s.compareCancelled }, .idle)
  | cancelLoad (hgen : s.generating = false) (hid : 0 < s.load.id) (hopen : s.load.outcome = none)
      (hbusy : s.job.running = true ∨ s.child.pid.isSome ∧ s.child.ready = false) :
      Plain s t w ({ s with
        loadCancelled := .set (some s.load.id)
        cancelled := if s.job.activate then .set (some s.load.id) else s.cancelled }, .idle)
  | cancel : Plain s t w ({ s with cancelled := .set none }, .idle)
  | performanceCancel : Plain s t w ({ s with compareCancelled := .set none }, .idle)
  | quit : Plain s t w ({ s with closing := true }, .idle)
  | removed {m : Model} {unlinks : Bool} (hstopping : s.child.stopping = false) (hq : Quiet s) :
      Plain s t w (s.removed m unlinks w.saves, .idle)
  | background {m : Model} {thread : Bool} (hstopping : s.child.stopping = false)
      (hcompare : s.compare.running = false) (hjob : s.job.running = false) :
      Plain s t w (beginJob s m true false thread, .idle)
  | switch {m : Model} {thread : Bool} (hstopping : s.child.stopping = false) (hq : Quiet s)
      (hpid : s.child.pid.isSome) :
      Plain s t w (beginJob s m false true thread, .idle)
  | select {m : Model} {download thread : Bool} (hstopping : s.child.stopping = false)
      (hq : Quiet s) (hpid : s.child.pid = none) :
      Plain s t w (beginJob (s.saveSelection (some m.id)) m download true thread, .idle)

/-- How `handle` can end. -/
inductive Handled (s : AppState) (t : Thread) (w : World) : AppState × Pc → Prop where
  | plain {r : AppState × Pc} (h : Plain s t w r) : Handled s t w r
  | execution {mode : Mode} (hready : s.child.ready = true) (hq : Quiet s) :
      Handled s t w
        (startChildMode s s.chosen s.activeId mode none (.execution s.chosen s.activeId) w)
  | stop (hstopping : s.child.stopping = false) (hq : Quiet s) :
      Handled s t w (stopChild s none .stopRoute w)
  | remove {m : Model} {unlinks : Bool} (hstopping : s.child.stopping = false) (hq : Quiet s) :
      Handled s t w (stopChild s none (.removeRoute m unlinks w.saves) w)

theorem choose_handled (s : AppState) (t : Thread) (c : Choice) (id : Option Nat) (f : Facts)
    (w : World) : Handled s t w (choose s c id f w) := by
  unfold choose
  split
  · exact .plain .nothing
  · next m _ =>
      simp only
      split
      · exact .plain .nothing
      · next hbusy =>
          simp only [not_or, not_and, Bool.not_eq_true, Bool.not_eq_false] at hbusy
          obtain ⟨_, hstopping, hcompare, hjob, hgen, _⟩ := hbusy
          split
          · exact .plain .nothing
          · next hpreview =>
              have hjob := hjob hpreview
              -- Only a download beside a running model may start during a generation.
              have hquiet (h : c ≠ .download ∨ s.child.pid = none) : Quiet s := by
                refine ⟨hcompare, ?_, hjob⟩
                by_contra hne
                have hback := hgen (eq_true_of_ne_false hne) hpreview
                simp only [Bool.and_eq_true, decide_eq_true_eq] at hback
                rcases h with h | h
                · exact h hback.1.1
                · rw [h] at hback
                  exact Bool.false_ne_true hback.1.2
              split
              · next hremove =>
                  have hq := hquiet (.inl (by rw [hremove]; decide))
                  split
                  · exact .plain .nothing
                  · split
                    · exact .remove hstopping hq
                    · exact .plain (.removed hstopping hq)
              · split
                · exact .plain .nothing
                · split
                  · exact .plain .nothing
                  · generalize hd : (if c = .setup then !f.installed else decide (c = .download)) =
                      download
                    split
                    · exact .plain .nothing
                    · split
                      · next hback =>
                          cases hpid : s.child.pid with
                          | none =>
                              rw [hpid] at hback
                              simp at hback
                          | some k =>
                              cases download with
                              | true => exact .plain (.background hstopping hcompare hjob)
                              | false =>
                                  refine .plain (.switch hstopping (hquiet (.inl fun hc => ?_))
                                    (by rw [hpid]; rfl))
                                  rw [hc] at hd
                                  simp at hd
                      · next hnone =>
                          simp only [not_or, Bool.not_eq_false, Bool.not_eq_true,
                            Option.isSome_eq_false_iff, Option.isNone_iff_eq_none] at hnone
                          rw [hnone.1]
                          split
                          · exact .plain (.select hstopping (hquiet (.inr hnone.2)) hnone.2)
                          · exact .plain .nothing

theorem handle_handled (s : AppState) (t : Thread) (r : Req) (w : World) :
    Handled s t w (handle s t r w) := by
  unfold handle
  cases r with
  | other => exact .plain .nothing
  | generate passes | completions passes =>
      simp only [admission]
      split
      · exact .plain .nothing
      · next h =>
          simp only [not_or, not_and, Bool.not_eq_true, Bool.not_eq_false] at h
          exact .plain (.admitted h.1 h.2.1 h.2.2.1 h.2.2.2.1 h.2.2.2.2.1)
  | compare thread =>
      simp only [comparisonStart]
      split
      · exact .plain .nothing
      · next h =>
          simp only [not_or, Bool.not_eq_true, Bool.not_eq_false] at h
          exact .plain (.compare h.1 ⟨h.2.2.2.1, h.2.1, h.2.2.1⟩)
  | execution mode =>
      simp only [execution]
      split
      · exact .plain .nothing
      · next h =>
          simp only [not_or, Bool.not_eq_true, Bool.not_eq_false] at h
          have hq : Quiet s := ⟨h.2.1, h.2.2.1, h.2.2.2⟩
          split
          · exact .plain .nothing
          · split
            · split
              · split
                · exact .plain (.prefer h.1 hq)
                · exact .plain .nothing
              · exact .plain (.prefer h.1 hq)
            · exact .execution h.1 hq
  | catalog revision models conflict =>
      simp only [importCatalog]
      split
      · exact .plain .nothing
      · next h =>
          simp only [not_or, not_and, Bool.not_eq_true, Bool.not_eq_false] at h
          have hq : Quiet s := ⟨h.1, h.2.2.1, h.2.1⟩
          split
          · exact .plain .nothing
          · split
            · exact .plain .nothing
            · split
              · exact .plain (.catalog hq h.2.2.2)
              · exact .plain (.catalog hq h.2.2.2)
  | activityCancel instance_ id generation =>
      simp only [activityCancel]
      split
      · next h =>
          obtain ⟨_, _, hpos, hid, hopen, hbusy⟩ := h
          unfold AppState.cancellable at hid hopen
          split
          · next hgen =>
              rw [if_pos hgen] at hid hopen
              rw [hid] at hpos ⊢
              exact .plain (.cancelRequest hgen hpos hopen)
          · next hgen =>
              rw [if_neg hgen] at hid hopen
              rw [hid] at hpos ⊢
              exact .plain (.cancelLoad (Bool.eq_false_iff.mpr hgen) hpos hopen
                (hbusy.resolve_left hgen))
      · exact .plain .nothing
  | cancel => exact .plain .cancel
  | performanceCancel => exact .plain .performanceCancel
  | quit => exact .plain .quit
  | quitIfIdle =>
      simp only
      split
      · exact .plain .nothing
      · exact .plain .quit
  | stop =>
      simp only
      split
      · exact .plain .nothing
      · next h =>
          simp only [not_or, Bool.not_eq_true] at h
          exact .stop h.1 ⟨h.2.1, h.2.2.1, h.2.2.2⟩
  | choose c id f => exact choose_handled s t c id f w

/-! ## The monitor -/

/-- How `poll_child` can end. -/
inductive Polled (s : AppState) (w : World) : AppState × Pc → Prop where
  | nothing : Polled s w (s, .idle)
  | cancelled {k : Nat} (hpid : s.child.pid = some k) (hstopping : s.child.stopping = false)
      (hready : s.child.ready = false) (hflag : s.loadCancelled.isSet = true) :
      Polled s w (stopChild s s.loadCancelled.cause (.loadCancelled k s.loadCancelled.cause) w)
  | timedOut {k : Nat} (hpid : s.child.pid = some k) (hstopping : s.child.stopping = false)
      (hready : s.child.ready = false) :
      Polled s w (stopChild (s.own s.child.waitpid.1) none (.timedOut k) w)
  | ended {k : Nat} (hpid : s.child.pid = some k) (hstopping : s.child.stopping = false)
      (hended : s.child.waitpid.2 = true)
      (hflag : s.loadCancelled.isSet = false ∨ s.child.ready = true) :
      Polled s w
        ((s.own s.child.waitpid.1.dropped).childFailed k (!s.child.ready) w, .idle)
  | mismatch {k : Nat} (hpid : s.child.pid = some k) (hstopping : s.child.stopping = false)
      (hready : s.child.ready = false) :
      Polled s w (stopChild (s.own s.child.identified) none (.mismatch k) w)
  | published {k : Nat} {saves : Bool} (hpid : s.child.pid = some k)
      (hstopping : s.child.stopping = false) (hready : s.child.ready = false)
      (hflag : s.loadCancelled.isSet = false) :
      Polled s w ((s.own s.child.identified).published saves, .idle)

theorem waitpid_rest (c : Child) : c.waitpid.1.pid = c.pid ∧ c.waitpid.1.ready = c.ready ∧
    c.waitpid.1.stopping = c.stopping ∧ c.waitpid.1.generation = c.generation ∧
    c.waitpid.1.socketPath = c.socketPath ∧ c.waitpid.1.active = c.active ∧
    (c.waitpid.2 = false → c.waitpid.1 = c) := by
  unfold Child.waitpid
  cases hpid : c.pid with
  | none => exact ⟨hpid, rfl, rfl, rfl, rfl, rfl, fun _ => rfl⟩
  | some k =>
      simp only
      split
      · exact ⟨hpid, rfl, rfl, rfl, rfl, rfl, fun _ => rfl⟩
      · exact ⟨hpid, rfl, rfl, rfl, rfl, rfl, fun h => by cases h⟩

theorem own_self (s : AppState) : s.own s.child = s := rfl

theorem pollChild_polled (s : AppState) (r : Round) (w : World) : Polled s w (pollChild s r w) := by
  unfold pollChild
  split
  · exact .nothing
  · next k hpid =>
      split
      · exact .nothing
      · next hstopping =>
          have hstopping := Bool.eq_false_iff.mpr hstopping
          split
          · next h => exact .cancelled hpid hstopping h.2 h.1
          · next hflag =>
              have hflag : s.loadCancelled.isSet = false ∨ s.child.ready = true := by
                by_cases hset : s.loadCancelled.isSet = true
                · exact .inr (eq_true_of_ne_false fun hr => hflag ⟨hset, hr⟩)
                · exact .inl (Bool.eq_false_iff.mpr hset)
              simp only
              split
              · next h => exact .timedOut hpid hstopping ((waitpid_rest s.child).2.1.symm.trans h.2)
              · split
                · next hended =>
                    have hready : (s.own s.child.waitpid.1).child.ready = s.child.ready :=
                      (waitpid_rest s.child).2.1
                    rw [hready]
                    exact .ended hpid hstopping hended hflag
                · next halive =>
                    rw [(waitpid_rest s.child).2.2.2.2.2.2 (Bool.eq_false_iff.mpr halive), own_self]
                    split
                    · exact .nothing
                    · next hready =>
                        have hready := Bool.eq_false_iff.mpr hready
                        split
                        · exact .nothing
                        · split
                          · exact .mismatch hpid hstopping hready
                          · refine .published hpid hstopping hready (hflag.resolve_right ?_)
                            rw [hready]
                            exact Bool.false_ne_true

/-! ## The comparison -/

/-- How a section of `comparison_main` that starts nothing can end, from where its
thread stands. -/
inductive Compares (s : AppState) (w : World) : Pc → AppState × Pc → Prop where
  | begins (hrun : s.compare.running = true) :
      Compares s w .idle ({ s with
        compare := { s.compare with
          path := s.chosen
          id := s.activeId
          previous := s.mode
          gpu := s.gpuSupported (s.find s.activeId) } }, .slot 0)
  | slotCancelled {n : Nat} :
      Compares s w (.slot n) ({ s.compareHit with save := false }, .restore false)
  | slotWaits {n : Nat} : Compares s w (.slotWait n) (s, .slotWait n)
  | slotReady {n : Nat} (hready : s.child.ready = true) :
      Compares s w (.slotWait n) (s, .slotCheck n)
  | slotFails {n : Nat} : Compares s w (.slotWait n) (s, .restore false)
  | checked {n : Nat} : Compares s w (.slotCheck n) (s, .repetition n 0)
  | refused {n : Nat} : Compares s w (.slotCheck n) (s, .restore false)
  | repetitionCancelled {n r : Nat} :
      Compares s w (.repetition n r) (s.compareHit, .restore false)
  | repetition {n r : Nat} :
      Compares s w (.repetition n r)
        (let s := { s with generating := true }.observationBegin .comparison w
        { s with compare := { s.compare with ops := s.request.id :: s.compare.ops } },
        .admitted (.repetition n r))
  | restoreClosed {ok : Bool} :
      Compares s w (.restore ok) ({ s with save := false }, .finish ok false)
  | restoreWaits {ok : Bool} : Compares s w (.restoreWait ok) (s, .restoreWait ok)
  | restored {ok restored : Bool} (hready : restored = true → s.child.ready = true) :
      Compares s w (.restoreWait ok) (s, .finish ok restored)
  | finish {ok restored : Bool} :
      Compares s w (.finish ok restored) ({ s.compareHit with
        compare := { s.compare with running := false }
        compared := ⟨s.begun.1, s.preference, s.begun.2, s.mode, restored⟩ :: s.compared }, .idle)

theorem comparisonReady_true {s : AppState} {restoring expired : Bool} {w : World}
    (h : comparisonReady s restoring expired w = some true) : s.child.ready = true := by
  unfold comparisonReady at h
  split at h
  · cases h
  · split at h
    · next hready => exact hready
    · split at h <;> cases h

/-- A section of `comparison_main` starts a process for a slot or for the restoring,
or starts nothing. -/
theorem comparisonMain_cases {s : AppState} {pc : Pc} {expired : Bool} {w : World}
    {r : AppState × Pc} (hr : comparisonMain s pc expired w = some r) :
    Compares s w pc r ∨
    (∃ n mode, pc = .slot n ∧
      r = startChildMode s s.compare.path s.compare.id mode none (.slot n) w) ∨
    ∃ ok, pc = .restore ok ∧
      r = startChildMode s s.compare.path s.compare.id s.compare.previous none (.restore ok) w := by
  unfold comparisonMain at hr
  split at hr
  · split at hr <;> cases hr
    next hrun => exact .inl (.begins hrun)
  · split at hr <;> cases hr
    · exact .inl .slotCancelled
    · exact .inr (.inl ⟨_, _, rfl, rfl⟩)
  · split at hr <;> cases hr
    · exact .inl .slotWaits
    · next heq => exact .inl (.slotReady (comparisonReady_true heq))
    · exact .inl .slotFails
  · cases hr
    generalize (if _ = 0 then Processor.cpu else Processor.gpu) = expected
    split
    · exact .inl .checked
    · exact .inl .refused
  · split at hr <;> cases hr
    · exact .inl .repetitionCancelled
    · exact .inl .repetition
  · split at hr <;> cases hr
    · exact .inl .restoreClosed
    · exact .inr (.inr ⟨_, rfl, rfl⟩)
  · split at hr <;> cases hr
    · exact .inl .restoreWaits
    · next heq => exact .inl (.restored fun h => comparisonReady_true (h ▸ heq))
  · cases hr
    exact .inl .finish
  · cases hr

end GeistServe.Supervisor
