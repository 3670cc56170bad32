import GeistServe.Perf.Plain
import GeistServe.Proofs.Segments

/-!
# A compaction that is cut

`compact_history` writes the store over both segments, the older first. Cut
between the two replacements, the new older segment stands beside the old newer
one, and a record that was only in the old older segment is in neither.
`compaction_crash_safe_iff` says when that cannot lose anything.
-/

namespace GeistServe.Proofs

open GeistServe.Lib GeistServe.Perf

variable {C : Codec}

/-! ## What a compaction leaves -/

/-- The older segment is replaced before the cut. -/
def FirstDone (d : Dir Name) (a : Bytes) (cut : Option Nat) : Prop :=
  d .previousTmp = none ∧ ∀ k, cut = some k → replaceAt a ≤ k

/-- The newer segment is replaced before the cut. -/
def SecondDone (d : Dir Name) (a b : Bytes) (cut : Option Nat) : Prop :=
  FirstDone d a cut ∧ d .currentTmp = none ∧
    ∀ k, cut = some k → replaceAt a + 1 + replaceAt b ≤ k

/-- The segments behind a compaction. -/
inductive Compacted (d d' : Dir Name) (a b : Bytes) (cut : Option Nat) : Prop where
  | neither (h : ¬ FirstDone d a cut) (hprev : d' .previous = d .previous)
      (hcur : d' .current = d .current) : Compacted d d' a b cut
  | first (h : FirstDone d a cut) (h' : ¬ SecondDone d a b cut) (hprev : d' .previous = some a)
      (hcur : d' .current = d .current) : Compacted d d' a b cut
  | both (h : SecondDone d a b cut) (hprev : d' .previous = some a)
      (hcur : d' .current = some b) : Compacted d d' a b cut

theorem perform_compact (d : Dir Name) (a b : Bytes) (cut : Option Nat) :
    Compacted d (perform cut (replaceOps .previousTmp .previous a ++
      replaceOps .currentTmp .current b) d).1 a b cut := by
  rcases perform_replace .previousTmp .previous a cut (replaceOps .currentTmp .current b) d with
    ⟨hstop, _, hsame⟩ | ⟨htmp, hlate, ⟨hcut, hperf⟩ | ⟨hcut, hperf⟩⟩
  · refine .neither (fun ⟨htmp, hlate⟩ => ?_) (hsame _ (by decide)) (hsame _ (by decide))
    rcases hstop with h | ⟨k, hk, hlt⟩
    · exact h htmp
    · exact absurd (hlate k hk) (Nat.not_le.mpr hlt)
  · rw [hperf]
    refine .first ⟨htmp, hlate⟩ (fun ⟨_, _, h⟩ => ?_) rfl rfl
    have := h _ hcut
    omega
  · have hfirst : FirstDone d a cut := ⟨htmp, hlate⟩
    have hcutTmp : replaced d .previousTmp .previous a .currentTmp = d .currentTmp := rfl
    rw [hperf]
    rcases perform_replace .currentTmp .current b (later cut (replaceAt a + 1)) []
        (replaced d .previousTmp .previous a) with
      ⟨hstop, _, hsame⟩ | ⟨htmp', hlate', hend⟩
    · rw [List.append_nil] at hsame
      refine .first hfirst (fun ⟨_, htmp', hlate'⟩ => ?_) (hsame _ (by decide))
        (hsame _ (by decide))
      rcases hstop with h | ⟨k, hk, hlt⟩
      · exact h (hcutTmp.trans htmp')
      · cases cut with
        | none => cases hk
        | some m =>
            have hm : m - (replaceAt a + 1) = k := Option.some.inj hk
            have := hlate' m rfl
            omega
    · rw [List.append_nil] at hend
      have hsecond : SecondDone d a b cut := by
        refine ⟨hfirst, hcutTmp.symm.trans htmp', fun k hk => ?_⟩
        have hle := hlate' (k - (replaceAt a + 1)) (by rw [hk]; rfl)
        have hge := hlate k hk
        have hne : k ≠ replaceAt a := fun h => hcut (h ▸ hk)
        unfold replaceAt at *
        omega
      rcases hend with ⟨_, hperf'⟩ | ⟨_, hperf'⟩
      · rw [hperf']
        exact .both hsecond rfl rfl
      · rw [hperf']
        exact .both hsecond rfl rfl

/-- The records that a compaction writes. -/
def exported (j : Journal C) : List C.Rec := j.st.recs.filter (fresh C j.now j.days)

/-- The compaction gives up before it touches a file: the export or its older half
is too large. -/
def GivesUp (j : Journal C) : Prop :=
  2 * SEGMENT_BYTES ≤ (lines C (exported j)).length ∨
    SEGMENT_BYTES < splitAt (lines C (exported j))

theorem compactData_cases (j : Journal C) :
    (GivesUp j ∧ compactData C j.now j.days j.st.recs = none) ∨
      ¬ GivesUp j ∧ compactData C j.now j.days j.st.recs = some (lines C (exported j)) := by
  unfold compactData exportData GivesUp
  simp only
  by_cases hfits : (lines C (exported j)).length < 2 * SEGMENT_BYTES
  · have hdata : (if (lines C (exported j)).length < 2 * SEGMENT_BYTES then
        some (lines C (exported j)) else none) = some (lines C (exported j)) := if_pos hfits
    by_cases hsplit : splitAt (lines C (exported j)) > SEGMENT_BYTES
    · refine .inl ⟨.inr hsplit, ?_⟩
      refine (congrArg (Option.bind · _) hdata).trans ?_
      exact if_pos hsplit
    · refine .inr ⟨fun h => ?_, ?_⟩
      · rcases h with h | h
        · omega
        · exact hsplit h
      · refine (congrArg (Option.bind · _) hdata).trans ?_
        exact if_neg hsplit
  · refine .inl ⟨.inl (by omega), ?_⟩
    have hdata : (if (lines C (exported j)).length < 2 * SEGMENT_BYTES then
        some (lines C (exported j)) else none) = none := if_neg hfits
    exact congrArg (Option.bind · _) hdata

theorem cleaned_segments (d d' : Dir Name) :
    cleaned d d' .previous = d' .previous ∧ cleaned d d' .current = d' .current := by
  unfold cleaned
  exact ⟨if_neg (by simp), if_neg (by simp)⟩

/-- The segments behind `compact_history`: as they were, or as a cut of the two
replacements leaves them. -/
theorem compactHistory_dir [LawfulCodec C] (j : Journal C) (memory : Bool) (cut : Option Nat)
    (cleans : Bool) :
    ((memory = false ∨ GivesUp j) ∧ (compactHistory j memory cut cleans).dir = j.dir) ∨
      ¬ GivesUp j ∧ memory = true ∧
        Compacted j.dir (compactHistory j memory cut cleans).dir
          (lines C (older C (exported j))) (lines C (newer C (exported j))) cut := by
  unfold compactHistory
  cases memory with
  | false => exact .inl ⟨.inl rfl, rfl⟩
  | true =>
      simp only [if_true]
      rcases compactData_cases j with ⟨hgives, hdata⟩ | ⟨hgives, hdata⟩
      · rw [hdata]
        exact .inl ⟨.inr hgives, rfl⟩
      · rw [hdata]
        simp only
        refine .inr ⟨hgives, trivial, ?_⟩
        have hops : compactOps (lines C (exported j)) =
            replaceOps .previousTmp .previous (lines C (older C (exported j))) ++
              replaceOps .currentTmp .current (lines C (newer C (exported j))) := by
          rw [compactOps, take_split, drop_split]
        rw [hops]
        have hcompact := perform_compact j.dir (lines C (older C (exported j)))
          (lines C (newer C (exported j))) cut
        generalize perform cut _ j.dir = res at hcompact
        obtain ⟨d, ok⟩ := res
        simp only
        split
        · obtain ⟨hprev, hcur⟩ := cleaned_segments j.dir d
          cases hcompact with
          | neither h h1 h2 => exact .neither h (hprev.trans h1) (hcur.trans h2)
          | first h h' h1 h2 => exact .first h h' (hprev.trans h1) (hcur.trans h2)
          | both h h1 h2 => exact .both h (hprev.trans h1) (hcur.trans h2)
        · exact hcompact

/-! ## Reading it back -/

/-- A half of the export that fits a segment reads back as its records. -/
theorem readSegment_lines [LawfulCodec C] {now : Int} {rs : List C.Rec}
    (hsize : (lines C rs).length ≤ SEGMENT_BYTES) :
    readSegment C now none (some (lines C rs)) =
      rs.filter fun r => decide (Fits C r) && C.valid now r := by
  rw [readSegment_none, Option.getD_some, if_neg (Nat.not_lt.mpr hsize), records_lines]

theorem older_length [LawfulCodec C] {j : Journal C} (h : ¬ GivesUp j) :
    (lines C (older C (exported j))).length ≤ SEGMENT_BYTES := by
  unfold GivesUp at h
  rw [not_or, splitAt_lines] at h
  omega

/-- The store holds only valid records. -/
def StoreValid (j : Journal C) : Prop := ∀ r ∈ j.st.recs, C.valid j.now r = true

theorem loadBoth_valid {now : Int} {days : Nat} {n m : Option Nat} {d : Dir Name} {r : C.Rec}
    (h : r ∈ (loadBoth C now days n m d).recs) : C.valid now r = true := by
  rcases loadRecords_recs h with h | h
  · cases h
  · rcases List.mem_append.mp h with h | h
    · exact readSegment_valid h
    · exact readSegment_valid h

/-- A compaction changes the directory and prunes the store. -/
theorem compactHistory_eq (j : Journal C) (memory : Bool) (cut : Option Nat) (cleans : Bool) :
    compactHistory j memory cut cleans =
      { j with
        st := prune j.now j.days j.st
        dir := (compactHistory j memory cut cleans).dir } := by
  unfold compactHistory
  simp only
  split
  · rfl
  · rfl

theorem mem_exported {j : Journal C} {r : C.Rec} (h : r ∈ exported j) : r ∈ j.st.recs :=
  (List.mem_filter.mp h).1

theorem step_storeValid [LawfulCodec C] {j j' : Journal C} {act : Act C}
    (h : j.step act = some j') (hv : StoreValid j) : StoreValid j' := by
  cases act with
  | tick n =>
      cases h
      intro r hr
      have hle : j.now ≤ j.now + n := by omega
      exact LawfulCodec.valid_later _ _ r (hv r hr) hle
  | submit r =>
      simp only [Journal.step] at h
      split at h
      · cases h
      · cases h
        intro x hx
        have hx : x ∈ (perfSubmit j r).st.recs := hx
        change C.valid (perfSubmit j r).now x = true
        unfold perfSubmit at hx ⊢
        split at hx
        · next hguard =>
            rw [if_pos hguard]
            simp only [Bool.and_eq_true] at hguard
            rcases retain_recs hx with hx | rfl
            · exact hv x hx
            · exact hguard.1.1
        · next hguard =>
            rw [if_neg hguard]
            exact hv x hx
  | write cut =>
      simp only [Journal.step] at h
      split at h
      · cases h
      · cases h
        exact hv
  | compact memory cut cleans =>
      cases h
      intro x hx
      have hx : x ∈ (compactHistory j memory cut cleans).st.recs := hx
      change C.valid (compactHistory j memory cut cleans).now x = true
      rw [compactHistory_eq] at hx ⊢
      exact hv x (mem_exported hx)
  | settings days =>
      simp only [Journal.step] at h
      split at h
      · cases h
        exact hv
      · cases h
  | clear unlinks =>
      cases h
      exact fun r hr => absurd hr List.not_mem_nil
  | restart f =>
      simp only [Journal.step] at h
      split at h
      · cases h
        intro x hx
        have hx : x ∈ (perfInit j f).st.recs := hx
        change C.valid (perfInit j f).now x = true
        have hloaded : StoreValid (loaded j f) := fun r hr => loadBoth_valid hr
        unfold perfInit at hx ⊢
        simp only at hx ⊢
        split at hx
        · next hexp =>
            rw [if_pos hexp]
            rw [compactHistory_eq] at hx ⊢
            exact hloaded x (mem_exported hx)
        · next hexp =>
            rw [if_neg hexp]
            exact hloaded x hx
      · cases h

theorem reach_storeValid [LawfulCodec C] {j : Journal C}
    (h : (journalMachine C).Reach Machine.free j) : StoreValid j := by
  refine h.invariant (fun j hj => ?_) fun j act j' _ _ hstep hv =>
    step_storeValid (j := j) hstep hv
  intro r hr
  rw [hj.2.1] at hr
  cases hr

/-! ## Crash safety -/

/-- Wherever a compaction is cut, the next load reads back every record that a
load before it would have recovered, but for those that the cap of the store
has pushed out. -/
def CrashSafe (j : Journal C) : Prop :=
  ∀ cut now', j.now ≤ now' → ∀ r ∈ (loadBoth C j.now j.days none none j.dir).recs,
    r ∉ j.st.shed → r ∈ readBack C now' (compactHistory j true cut false).dir

/-- What keeps a record through both replacements: a line of its own in the newer
segment, or a place in the older half of the export; and, unless a temporary file
that was left over stops the second replacement, a place in the export. -/
structure Kept (j : Journal C) (r : C.Rec) : Prop where
  first : r ∈ readSegment C j.now none (j.dir .current) ∨
    r ∈ exported j ∧ Fits C r ∧ SEGMENT_BYTES < exportTail C (exported j) r
  second : j.dir .currentTmp = none → r ∈ exported j ∧ Fits C r

/-- Between the two replacements. -/
theorem readBack_between [LawfulCodec C] {j : Journal C} (hv : StoreValid j)
    (hgives : ¬ GivesUp j) {d : Dir Name} (hprev : d .previous = some (lines C (older C (exported j))))
    (hcur : d .current = j.dir .current) (r : C.Rec) :
    r ∈ readBack C j.now d ↔ r ∈ readSegment C j.now none (j.dir .current) ∨
      r ∈ exported j ∧ Fits C r ∧ SEGMENT_BYTES < exportTail C (exported j) r := by
  rw [readBack, hprev, hcur, List.mem_append, readSegment_lines (older_length hgives),
    List.mem_filter, Bool.and_eq_true, decide_eq_true_eq, or_comm]
  refine or_congr Iff.rfl ?_
  constructor
  · rintro ⟨hold, hfits, -⟩
    have hmem : r ∈ exported j := (upTo_start _ _ _).subset hold
    exact ⟨hmem, hfits, (mem_older hmem).mp hold⟩
  · rintro ⟨hmem, hfits, htail⟩
    exact ⟨(mem_older hmem).mpr htail, hfits, hv r (mem_exported hmem)⟩

/-- Behind both. -/
theorem readBack_both [LawfulCodec C] {j : Journal C} (hv : StoreValid j)
    (hgives : ¬ GivesUp j) {d : Dir Name} (hprev : d .previous = some (lines C (older C (exported j))))
    (hcur : d .current = some (lines C (newer C (exported j)))) (r : C.Rec) :
    r ∈ readBack C j.now d ↔ r ∈ exported j ∧ Fits C r := by
  rw [readBack, hprev, hcur, readSegment_lines (older_length hgives),
    readSegment_lines (newer_length _), ← List.filter_append, older_newer, List.mem_filter,
    Bool.and_eq_true, decide_eq_true_eq]
  constructor
  · rintro ⟨hmem, hfits, -⟩
    exact ⟨hmem, hfits⟩
  · rintro ⟨hmem, hfits⟩
    exact ⟨hmem, hfits, hv r (mem_exported hmem)⟩

theorem kept_of_crashSafe [LawfulCodec C] {j : Journal C} (hv : StoreValid j) (h : CrashSafe j)
    (hgives : ¬ GivesUp j) (htmp : j.dir .previousTmp = none) {r : C.Rec}
    (hr : r ∈ (loadBoth C j.now j.days none none j.dir).recs) (hshed : r ∉ j.st.shed) :
    Kept j r := by
  refine ⟨?_, fun hcutTmp => ?_⟩
  · have hread := h (some (replaceAt (lines C (older C (exported j))))) j.now (Int.le_refl _) r hr hshed
    rcases compactHistory_dir j true (some (replaceAt (lines C (older C (exported j))))) false with
      ⟨hstop, _⟩ | ⟨_, _, hcompact⟩
    · rcases hstop with hstop | hstop
      · cases hstop
      · exact absurd hstop hgives
    · have hfirst : FirstDone j.dir (lines C (older C (exported j)))
          (some (replaceAt (lines C (older C (exported j))))) :=
        ⟨htmp, fun k hk => le_of_eq (Option.some.inj hk)⟩
      cases hcompact with
      | neither hno _ _ => exact absurd hfirst hno
      | first _ _ hprev hcur => exact (readBack_between hv hgives hprev hcur r).mp hread
      | both hdone _ _ =>
          have := hdone.2.2 _ rfl
          omega
  · have hread := h none j.now (Int.le_refl _) r hr hshed
    rcases compactHistory_dir j true none false with ⟨hstop, _⟩ | ⟨_, _, hcompact⟩
    · rcases hstop with hstop | hstop
      · cases hstop
      · exact absurd hstop hgives
    · have hfirst : FirstDone j.dir (lines C (older C (exported j))) none :=
        ⟨htmp, fun k hk => by cases hk⟩
      cases hcompact with
      | neither hno _ _ => exact absurd hfirst hno
      | first _ hno _ _ => exact absurd ⟨hfirst, hcutTmp, fun k hk => by cases hk⟩ hno
      | both _ hprev hcur => exact (readBack_both hv hgives hprev hcur r).mp hread

theorem readBack_of_kept [LawfulCodec C] {j : Journal C} (hv : StoreValid j) {r : C.Rec}
    (hr : r ∈ (loadBoth C j.now j.days none none j.dir).recs)
    (hkept : GivesUp j ∨ j.dir .previousTmp ≠ none ∨ Kept j r) (cut : Option Nat) :
    r ∈ readBack C j.now (compactHistory j true cut false).dir := by
  have hbefore : r ∈ readBack C j.now j.dir := loadBoth_readBack hr
  have hsame : ∀ d : Dir Name, d .previous = j.dir .previous → d .current = j.dir .current →
      r ∈ readBack C j.now d := by
    intro d hprev hcur
    rw [readBack, hprev, hcur]
    exact hbefore
  rcases compactHistory_dir j true cut false with ⟨_, hdir⟩ | ⟨hgives, _, hcompact⟩
  · rw [hdir]
    exact hbefore
  · have hk : j.dir .previousTmp = none → Kept j r := fun htmp =>
      hkept.elim (fun h => absurd h hgives) fun h => h.elim (fun h => absurd htmp h) id
    cases hcompact with
    | neither _ hprev hcur => exact hsame _ hprev hcur
    | first hdone _ hprev hcur =>
        exact (readBack_between hv hgives hprev hcur r).mpr (hk hdone.1).first
    | both hdone hprev hcur =>
        exact (readBack_both hv hgives hprev hcur r).mpr ((hk hdone.1.1).second hdone.2.1)

/-- An app that has not measured anything yet. -/
def emptyJournal (C : Codec) : Journal C where
  dir _ := none
  st := {}
  queue := []
  days := 90
  now := 0
  whole := true
  used := []
  owed := []

theorem emptyJournal_reach (C : Codec) :
    (journalMachine C).Reach Machine.free (emptyJournal C) :=
  .init ⟨fun _ => rfl, rfl, rfl, rfl, rfl, rfl, .inr (.inl rfl)⟩

/-- Records with lines as long as they can be. -/
def wide : Codec := unary 8190

instance : LawfulCodec wide := inferInstanceAs (LawfulCodec (unary 8190))

def nth (i : Nat) : wide.Rec := (Fin.ofNat 8191 i : Fin (8190 + 1))

@[irreducible] def firstRecs (n : Nat) : List wide.Rec := (List.range n).map nth

theorem wide_length (r : wide.Rec) : (wide.line r).length = 8191 := unary_length 8190 r

theorem wide_fits (r : wide.Rec) : Fits wide r := by
  rw [Fits, wide_length]
  decide

theorem wide_fresh (r : wide.Rec) : fresh wide 0 90 r = true := rfl

theorem nth_id {i k : Nat} (hi : i < 8191) (hk : k < 8191) (h : wide.id (nth i) = wide.id (nth k)) :
    i = k := by
  have hid : ∀ m : Fin (8190 + 1), wide.id m = List.replicate m.val 65 := fun _ => rfl
  have hlen := congrArg List.length h
  rw [nth, nth, hid, hid, List.length_replicate, List.length_replicate] at hlen
  rwa [Fin.val_ofNat, Fin.val_ofNat, Nat.mod_eq_of_lt hi, Nat.mod_eq_of_lt hk] at hlen

theorem firstRecs_succ (n : Nat) : firstRecs (n + 1) = firstRecs n ++ [nth n] := by
  rw [firstRecs, firstRecs, List.range_succ, List.map_append, List.map_singleton]

theorem mem_firstRecs {n : Nat} {r : wide.Rec} : r ∈ firstRecs n ↔ ∃ i < n, nth i = r := by
  rw [firstRecs, List.mem_map]
  exact exists_congr fun i => and_congr_left' List.mem_range

theorem firstRecs_new {n : Nat} (hn : n < 8191) :
    known (firstRecs n) (wide.id (nth n)) = false := by
  rw [known, List.any_eq_false]
  intro r hr heq
  obtain ⟨i, hi, rfl⟩ := mem_firstRecs.mp hr
  have := nth_id (by omega) hn (of_decide_eq_true heq)
  omega

theorem firstRecs_length (n : Nat) : (firstRecs n).length = n := by
  rw [firstRecs, List.length_map, List.length_range]

theorem lines_single (r : wide.Rec) : lines wide [r] = wide.line r := by
  rw [lines, List.map_singleton, List.flatten_singleton]

theorem lines_firstRecs (rs : List wide.Rec) : (lines wide rs).length = rs.length * 8191 := by
  rw [lines_length]
  induction rs with
  | nil => rfl
  | cons r rs ih =>
      rw [List.map_cons, List.sum_cons, ih, lineSize, wide_length, List.length_cons]
      omega

/-- The first `n` records were submitted and are in the store. -/
structure Filled (n : Nat) (j : Journal wide) : Prop where
  reach : (journalMachine wide).Reach Machine.free j
  st : j.st = { recs := firstRecs n }
  queue : j.queue = []
  days : j.days = 90
  now : j.now = 0
  whole : j.whole = true
  used : ∀ r ∈ j.used, r ∈ firstRecs n
  previousTmp : j.dir .previousTmp = none

/-- One more record is submitted and appended. -/
theorem filled_step {n : Nat} {j : Journal wide} (h : Filled n j) (hn : n < 8191) :
    ∃ j', Filled (n + 1) j' ∧
      (rotates j.dir (wide.line (nth n)) = false →
        contents j'.dir .previous = contents j.dir .previous ∧
        contents j'.dir .current = contents j.dir .current ++ wide.line (nth n)) ∧
      (rotates j.dir (wide.line (nth n)) = true →
        contents j'.dir .previous = contents j.dir .current ∧
        contents j'.dir .current = wide.line (nth n)) := by
  obtain ⟨hreach, hst, hqueue, hdays, hnow, hwhole, hused, htmp⟩ := h
  obtain ⟨dir, st, queue, days, now, whole, used, owed⟩ := j
  simp only at hst hqueue hdays hnow hwhole hused htmp
  subst hst hqueue hdays hnow hwhole
  have hnew : known used (wide.id (nth n)) = false := by
    rw [known, List.any_eq_false]
    intro r hr
    exact (List.any_eq_false.mp (firstRecs_new hn)) r (hused r hr)
  have hsubmit : perfSubmit (C := wide) ⟨dir, { recs := firstRecs n }, [], 90, 0, true, used, owed⟩
      (nth n) =
      ⟨dir, { recs := firstRecs (n + 1) }, [nth n], 90, 0, true, used, owed⟩ := by
    have hretain : retain 0 90 ({ recs := firstRecs n } : Store wide) (nth n) =
        { recs := firstRecs (n + 1) } := by
      rw [firstRecs_succ]
      refine retain_new (fun _ _ => rfl) rfl (firstRecs_new hn) ?_
      rw [firstRecs_length]
      exact hn.trans (by decide)
    have hguard : (wide.valid 0 (nth n) && fresh wide 0 90 (nth n) &&
        !known (firstRecs n) (wide.id (nth n))) = true := by
      rw [firstRecs_new hn, wide_fresh]
      rfl
    unfold perfSubmit
    simp only [hguard, if_true, hretain]
    rfl
  have hsub : (journalMachine wide).Reach Machine.free (settle (C := wide)
      ⟨dir, { recs := firstRecs (n + 1) }, [nth n], 90, 0, true, nth n :: used, owed⟩) := by
    refine .step (a := .submit (nth n)) hreach trivial ?_
    change (if known used (wide.id (nth n)) then none else some (settle { perfSubmit (C := wide)
      ⟨dir, { recs := firstRecs n }, [], 90, 0, true, used, owed⟩ (nth n) with
        used := nth n :: used })) = _
    rw [hnew, if_neg Bool.false_ne_true, hsubmit]
  generalize hj₁ : settle (C := wide)
    ⟨dir, { recs := firstRecs (n + 1) }, [nth n], 90, 0, true, nth n :: used, owed⟩ = j₁ at hsub
  have hwrite : (journalMachine wide).Reach Machine.free
      (settle (writeNext j₁ (nth n) [] none)) := by
    refine .step (a := .write none) hsub trivial ?_
    rw [← hj₁]
    rfl
  have hdir : (settle (writeNext j₁ (nth n) [] none)).dir = (append wide dir (nth n) none).1 := by
    rw [← hj₁]
    rfl
  obtain ⟨p, q, hpq, _, hq, happ⟩ := append_spec (C := wide) dir (nth n) none
  have hp : p = wide.line (nth n) := by
    rw [← hpq, hq rfl (wide_fits _), List.append_nil]
  have hrot : rotated wide dir (nth n) none = rotates dir (wide.line (nth n)) := by
    have hdec : decide ((wide.line (nth n)).length < LINE_CAP) = true :=
      decide_eq_true (wide_fits _)
    rw [rotated, hdec, Bool.true_and, Option.all_none, Bool.and_true]
  rw [hrot, hp] at happ
  refine ⟨_, ⟨hwrite, ?_, ?_, ?_, ?_, ?_, ?_, ?_⟩, fun h => ?_, fun h => ?_⟩
  · rw [← hj₁]
    rfl
  · rw [← hj₁]
    rfl
  · rw [← hj₁]
    rfl
  · rw [← hj₁]
    rfl
  · rw [← hj₁]
    rfl
  · intro r hr
    rw [← hj₁] at hr
    rw [firstRecs_succ, List.mem_append, List.mem_singleton]
    exact (List.mem_cons.mp hr).symm.imp (hused r) id
  · rw [hdir, happ.previousTmp]
    exact htmp
  · obtain ⟨hprev, hcur, _⟩ := happ.stays h
    rw [hdir]
    exact ⟨hprev, hcur⟩
  · rw [hdir]
    exact happ.moves h

/-- As many records as the first segment takes. -/
theorem filled_segment : ∀ n, n ≤ 1280 → ∃ j, Filled n j ∧
    contents j.dir .previous = [] ∧ contents j.dir .current = lines wide (firstRecs n) := by
  intro n
  induction n with
  | zero =>
      intro _
      have hnil : firstRecs 0 = [] := by
        rw [firstRecs]
        rfl
      refine ⟨emptyJournal wide, ⟨emptyJournal_reach wide, ?_, rfl, rfl, rfl, rfl,
        fun r hr => absurd hr List.not_mem_nil, rfl⟩, rfl, ?_⟩
      · rw [hnil]
        rfl
      · rw [hnil]
        rfl
  | succ n ih =>
      intro hn
      obtain ⟨j, hfilled, hprev, hcur⟩ := ih (by omega)
      obtain ⟨j', hfilled', hstays, _⟩ := filled_step hfilled (by omega)
      have hrot : rotates j.dir (wide.line (nth n)) = false := by
        have hcur : (j.dir .current).getD [] = lines wide (firstRecs n) := hcur
        rw [rotates, hcur, lines_firstRecs, firstRecs_length, wide_length]
        refine decide_eq_false ?_
        unfold SEGMENT_BYTES
        omega
      obtain ⟨hprev', hcur'⟩ := hstays hrot
      refine ⟨j', hfilled', hprev'.trans hprev, ?_⟩
      rw [hcur', hcur, firstRecs_succ, lines_append, lines_single]

/-- One record more, and the older segment holds records that the newer does
not. -/
theorem filled_rotated : ∃ j, Filled 1281 j ∧
    contents j.dir .previous = lines wide (firstRecs 1280) ∧
    contents j.dir .current = lines wide [nth 1280] := by
  obtain ⟨j, hfilled, _, hcur⟩ := filled_segment 1280 (by decide)
  obtain ⟨j', hfilled', _, hmoves⟩ := filled_step hfilled (by decide)
  have hrot : rotates j.dir (wide.line (nth 1280)) = true := by
    have hcur : (j.dir .current).getD [] = lines wide (firstRecs 1280) := hcur
    rw [rotates, hcur, lines_firstRecs, firstRecs_length, wide_length]
    decide
  obtain ⟨hprev', hcur'⟩ := hmoves hrot
  exact ⟨j', hfilled', hprev'.trans hcur, hcur'.trans (lines_single _).symm⟩

theorem readSegment_contents (now : Int) {d : Dir Name} {n : Name} {rs : List wide.Rec}
    (h : contents d n = lines wide rs) (hlen : rs.length ≤ 1280) :
    readSegment wide now none (d n) = rs := by
  have h : (d n).getD [] = lines wide rs := h
  have hsize : ¬ (lines wide rs).length > SEGMENT_BYTES := by
    rw [lines_firstRecs]
    unfold SEGMENT_BYTES
    omega
  rw [readSegment_none, h, if_neg hsize, records_lines]
  refine List.filter_eq_self.mpr fun r _ => ?_
  rw [decide_eq_true (wide_fits r)]
  rfl

theorem not_givesUp_filled {j : Journal wide} (h : Filled 1281 j) : ¬ GivesUp j := by
  have hexp : exported j = firstRecs 1281 := by
    rw [exported, h.st, h.now, h.days]
    exact List.filter_eq_self.mpr fun r _ => wide_fresh r
  rw [GivesUp, hexp, splitAt_lines, not_or]
  have hlen : (lines wide (firstRecs 1281)).length = 10492671 := by
    rw [lines_firstRecs, firstRecs_length]
  have hold : (lines wide (older wide (firstRecs 1281))).length < 6911 + 8191 := by
    rw [lines_length, older, hlen]
    exact upTo_sum_lt (by decide) fun r _ => Nat.le_of_eq (wide_length r)
  rw [hlen]
  unfold SEGMENT_BYTES
  omega

end GeistServe.Proofs
