import Mathlib.Data.List.Induction
import GeistServe.Proofs.Compaction

/-!
# What an append owes

Every segment is whole lines of submitted records, sealed torn ones, and a torn
tail (`Segment`). While no append is glued to a torn tail and no compaction is
cut between its two replacements, or made from a store that has read only part
of the segments, every record that is owed stays readable, and the next load
recovers it.
-/

namespace GeistServe.Proofs

open GeistServe.Lib GeistServe.Perf

variable {C : Codec}

/-! ## What segments look like -/

/-- Whole lines of these records, and torn ones that were sealed. -/
inductive Tidy (C : Codec) (used : List C.Rec) : Bytes → Prop where
  | nil : Tidy C used []
  | line {bs : Bytes} {r : C.Rec} (h : Tidy C used bs) (hr : r ∈ used) :
      Tidy C used (bs ++ C.line r)
  | torn {bs p q : Bytes} {r : C.Rec} (h : Tidy C used bs)
      (hp : p ++ q ++ [newline] = C.line r) (hq : q ≠ []) :
      Tidy C used (bs ++ (p ++ [newline]))

/-- A start of a line, or nothing. -/
def Tail (C : Codec) (used : List C.Rec) (p : Bytes) : Prop :=
  p = [] ∨ ∃ r ∈ used, ∃ q, q ≠ [] ∧ p ++ q = C.line r

/-- Tidy lines, and a tail. -/
def Segment (C : Codec) (used : List C.Rec) (bs : Bytes) : Prop :=
  ∃ b p, bs = b ++ p ∧ Tidy C used b ∧ Tail C used p

theorem Tidy.mono {used used' : List C.Rec} (hsub : used ⊆ used') {bs : Bytes}
    (h : Tidy C used bs) : Tidy C used' bs := by
  induction h with
  | nil => exact .nil
  | line _ hr ih => exact .line ih (hsub hr)
  | torn _ hp hq ih => exact .torn ih hp hq

theorem Segment.mono {used used' : List C.Rec} (hsub : used ⊆ used') {bs : Bytes}
    (h : Segment C used bs) : Segment C used' bs := by
  obtain ⟨b, p, hbs, hb, hp⟩ := h
  refine ⟨b, p, hbs, hb.mono hsub, hp.imp id ?_⟩
  rintro ⟨r, hr, hq⟩
  exact ⟨r, hsub hr, hq⟩

theorem Tidy.segment {used : List C.Rec} {bs : Bytes} (h : Tidy C used bs) :
    Segment C used bs :=
  ⟨bs, [], (List.append_nil _).symm, h, .inl rfl⟩

/-- A start of a line before its newline. -/
theorem line_start [LawfulCodec C] {r : C.Rec} {p q : Bytes} (h : p ++ q = C.line r)
    (hq : q ≠ []) : newline ∉ p ∧ (0 : UInt8) ∉ p ∧ ∃ q', p ++ q' ++ [newline] = C.line r := by
  obtain ⟨body, hbody, hnew, hnul⟩ := (LawfulCodec.is_line r).ex
  obtain ⟨q', b, rfl⟩ := (List.eq_nil_or_concat' q).resolve_left hq
  rw [← h, ← List.append_assoc] at hbody
  obtain ⟨rfl, hb⟩ := List.append_inj' hbody rfl
  cases List.singleton_inj.mp hb
  refine ⟨fun hm => hnew (List.mem_append_left _ hm), fun hm => hnul (List.mem_append_left _ hm),
    q', ?_⟩
  rw [← h, List.append_assoc]

theorem torn_isLine [LawfulCodec C] {r : C.Rec} {p q : Bytes}
    (h : p ++ q ++ [newline] = C.line r) : IsLine (p ++ [newline]) := by
  obtain ⟨hnew, hnul, _⟩ := line_start (p := p) (q := q ++ [newline])
    (by rw [← h, List.append_assoc]) (by simp)
  exact ⟨p, rfl, hnew, hnul⟩

theorem scan_isLine {bs l : Bytes} (h : AtLine bs) (hl : IsLine l) :
    scan LINE_CAP {} (bs ++ l) =
      { out := readLines LINE_CAP bs ++ if l.length < LINE_CAP then [l] else [] } := by
  rw [scan_append]
  split
  · next hfits => exact scan_line h hl hfits
  · next hlong =>
      rw [List.append_nil]
      exact scan_long h hl (Nat.le_of_not_lt hlong) (by decide)

theorem Tidy.atLine [LawfulCodec C] {used : List C.Rec} {bs : Bytes} (h : Tidy C used bs) :
    AtLine bs := by
  induction h with
  | nil => exact atLine_nil
  | line _ _ ih => exact atLine_line ih _
  | torn _ hp _ ih =>
      unfold AtLine
      rw [scan_isLine ih (torn_isLine hp)]
      exact ⟨rfl, rfl⟩

/-- What reads back from tidy lines was submitted. -/
theorem Tidy.records_used [LawfulCodec C] {used : List C.Rec} {bs : Bytes}
    (h : Tidy C used bs) {now : Int} {r : C.Rec} (hr : r ∈ records C now bs) : r ∈ used := by
  induction h with
  | nil => cases hr
  | line h hs ih =>
      rw [records_line h.atLine, List.mem_append, List.mem_filter, List.mem_singleton] at hr
      rcases hr with hr | ⟨rfl, _⟩
      · exact ih hr
      · exact hs
  | @torn bs p q s h hp hq ih =>
      rw [records_eq, readLines, scan_isLine h.atLine (torn_isLine hp), List.filterMap_append,
        List.mem_append] at hr
      rcases hr with hr | hr
      · exact ih hr
      · have hnone : parsed C now (p ++ [newline]) = none := by
          rw [parsed, LawfulCodec.decode_torn _ _ _ hp hq]
          rfl
        split at hr
        · rw [List.filterMap_cons_none hnone] at hr
          cases hr
        · cases hr

/-- A tail has no newline yet. -/
theorem Tail.no_newline [LawfulCodec C] {used : List C.Rec} {p : Bytes} (h : Tail C used p) :
    newline ∉ p := by
  rcases h with rfl | ⟨r, _, q, hq, hp⟩
  · exact List.not_mem_nil
  · exact (line_start hp hq).1

/-- A tail adds nothing to what reads back. -/
theorem records_tail [LawfulCodec C] {used : List C.Rec} {b p : Bytes} (hb : AtLine b)
    (hp : Tail C used p) (now : Int) : records C now (b ++ p) = records C now b := by
  have hacc : newline ∉ (scan LINE_CAP {} b).acc := by
    rw [hb.2]
    exact List.not_mem_nil
  rw [records_eq, records_eq, readLines, readLines, scan_append,
    (scan_out hp.no_newline hacc).1]

theorem Segment.records_used [LawfulCodec C] {used : List C.Rec} {bs : Bytes}
    (h : Segment C used bs) {now : Int} {r : C.Rec} (hr : r ∈ records C now bs) : r ∈ used := by
  obtain ⟨b, p, rfl, hb, hp⟩ := h
  rw [records_tail hb.atLine hp] at hr
  exact hb.records_used hr

/-- The segment is empty or ends in a newline. -/
def Sealed (bs : Bytes) : Prop := bs = [] ∨ bs.getLast? = some newline

theorem Tidy.isSealed [LawfulCodec C] {used : List C.Rec} {bs : Bytes} (h : Tidy C used bs) :
    Sealed bs := by
  cases h with
  | nil => exact .inl rfl
  | @line bs r h hr =>
      obtain ⟨body, hbody, _⟩ := (LawfulCodec.is_line r).ex
      rw [hbody, ← List.append_assoc]
      exact .inr List.getLast?_concat
  | torn h hp hq =>
      rw [← List.append_assoc]
      exact .inr List.getLast?_concat

/-- A segment that is sealed has no tail. -/
theorem Segment.tidy [LawfulCodec C] {used : List C.Rec} {bs : Bytes} (h : Segment C used bs)
    (hs : Sealed bs) : Tidy C used bs := by
  obtain ⟨b, p, rfl, hb, hp⟩ := h
  by_cases hnil : p = []
  · rw [hnil, List.append_nil]
    exact hb
  · obtain ⟨p', c, rfl⟩ := (List.eq_nil_or_concat' p).resolve_left hnil
    have hc : c ≠ newline := fun h => hp.no_newline (by rw [h]; simp)
    rcases hs with hs | hs
    · simp at hs
    · rw [← List.append_assoc, List.getLast?_concat] at hs
      exact absurd (Option.some.inj hs) hc

/-- Sealing a segment that has a tail: the torn line becomes a whole one, or one
that reads as nothing. -/
theorem Segment.seal [LawfulCodec C] {used : List C.Rec} {bs : Bytes} (h : Segment C used bs)
    (hs : ¬ Sealed bs) : Tidy C used (bs ++ [newline]) := by
  obtain ⟨b, p, rfl, hb, hp⟩ := h
  rcases hp with rfl | ⟨r, hr, q, hq, hp⟩
  · rw [List.append_nil] at hs
    exact absurd hb.isSealed hs
  · obtain ⟨_, _, q', hline⟩ := line_start hp hq
    rw [List.append_assoc]
    by_cases hnil : q' = []
    · rw [hnil, List.append_nil] at hline
      rw [hline]
      exact .line hb hr
    · exact .torn hb hline hnil

/-- Writing on where the segment is sealed. -/
theorem Tidy.append_line {used : List C.Rec} {bs p q : Bytes} {r : C.Rec} (h : Tidy C used bs)
    (hr : r ∈ used) (hpq : p ++ q = C.line r) : Segment C used (bs ++ p) := by
  by_cases hq : q = []
  · rw [hq, List.append_nil] at hpq
    rw [hpq]
    exact (Tidy.line h hr).segment
  · exact ⟨bs, p, rfl, h, .inr ⟨r, hr, q, hq, hpq⟩⟩

theorem tidy_lines {used rs : List C.Rec} (h : ∀ r ∈ rs, r ∈ used) : Tidy C used (lines C rs) := by
  induction rs using List.reverseRecOn with
  | nil => exact .nil
  | append_singleton rs r ih =>
      have hlast : lines C [r] = C.line r := by
        rw [lines, List.map_singleton, List.flatten_singleton]
      rw [lines_append, hlast]
      exact .line (ih fun x hx => h x (List.mem_append_left _ hx))
        (h r (List.mem_append_right _ (List.mem_singleton_self r)))

/-! ## What retention does to the store -/

/-- Held, found expired, or pushed out by the cap. -/
def Accounted (st : Store C) (r : C.Rec) : Prop := r ∈ st.recs ∨ r ∈ st.aged ∨ r ∈ st.shed

theorem retain_accounted {now : Int} {days : Nat} {st : Store C} {r x : C.Rec}
    (h : Accounted st x) : Accounted (retain now days st r) x := by
  have hsplit : x ∈ st.recs → x ∈ st.recs.filter (fresh C now days) ∨
      x ∈ st.recs.filter fun y => !fresh C now days y := by
    intro hx
    by_cases hf : fresh C now days x = true
    · exact .inl (List.mem_filter.mpr ⟨hx, hf⟩)
    · refine .inr (List.mem_filter.mpr ⟨hx, ?_⟩)
      rw [Bool.not_eq_true] at hf
      rw [hf]
      rfl
  have hkept : ∀ {kept : List C.Rec}, x ∈ kept → x ∈ kept.tail ∨ x ∈ kept.take 1 := by
    intro kept hx
    cases kept with
    | nil => cases hx
    | cons y ys =>
        rcases List.mem_cons.mp hx with rfl | hx
        · exact .inr List.mem_cons_self
        · exact .inl hx
  unfold Accounted at h ⊢
  unfold retain
  simp only
  split
  · rcases h with h | h | h
    · rcases hsplit h with h | h
      · exact .inl h
      · exact .inr (.inl (List.mem_append_left _ (List.mem_append_right _ h)))
    · exact .inr (.inl (List.mem_append_left _ (List.mem_append_left _ h)))
    · exact .inr (.inr h)
  · split
    · rcases h with h | h | h
      · rcases hsplit h with h | h
        · exact .inl h
        · exact .inr (.inl (List.mem_append_right _ h))
      · exact .inr (.inl (List.mem_append_left _ h))
      · exact .inr (.inr h)
    · split
      · rcases h with h | h | h
        · rcases hsplit h with h | h
          · rcases hkept h with h | h
            · exact .inl (List.mem_append_left _ h)
            · exact .inr (.inr (List.mem_append_right _ h))
          · exact .inr (.inl (List.mem_append_right _ h))
        · exact .inr (.inl (List.mem_append_left _ h))
        · exact .inr (.inr (List.mem_append_left _ h))
      · rcases h with h | h | h
        · rcases hsplit h with h | h
          · exact .inl (List.mem_append_left _ h)
          · exact .inr (.inl (List.mem_append_right _ h))
        · exact .inr (.inl (List.mem_append_left _ h))
        · exact .inr (.inr h)

/-- What is out of the store is not found again. -/
theorem retain_gone {now : Int} {days : Nat} {st : Store C} {r x : C.Rec}
    (h : x ∈ st.aged ∨ x ∈ st.shed) :
    x ∈ (retain now days st r).aged ∨ x ∈ (retain now days st r).shed := by
  unfold retain
  simp only
  split
  · exact h.imp (fun h => List.mem_append_left _ (List.mem_append_left _ h)) id
  · split
    · exact h.imp (List.mem_append_left _) id
    · split
      · exact h.imp (List.mem_append_left _) (List.mem_append_left _)
      · exact h.imp (List.mem_append_left _) id

/-- A record that is retained is accounted for, under its own name if names are
not shared. -/
theorem retain_self {now : Int} {days : Nat} {st : Store C} {r : C.Rec}
    (hid : ∀ x ∈ st.recs, C.id x = C.id r → x = r) : Accounted (retain now days st r) r := by
  unfold Accounted retain
  simp only
  split
  · exact .inr (.inl (List.mem_append_right _ (List.mem_singleton_self r)))
  · split
    · next hknown =>
        obtain ⟨x, hx, heq⟩ := List.any_eq_true.mp hknown
        have hsame := hid x (List.mem_filter.mp hx).1 (of_decide_eq_true heq)
        exact .inl (hsame ▸ hx)
    · split
      · exact .inl (List.mem_append_right _ (List.mem_singleton_self r))
      · exact .inl (List.mem_append_right _ (List.mem_singleton_self r))

/-- No two of these records share a name. -/
def Distinct (C : Codec) (used : List C.Rec) : Prop :=
  ∀ x ∈ used, ∀ y ∈ used, C.id x = C.id y → x = y

theorem loadRecords_accounted {now : Int} {days : Nat} {used : List C.Rec}
    (hd : Distinct C used) {rs : List C.Rec} : ∀ {st : Store C}, (∀ x ∈ st.recs, x ∈ used) →
      (∀ x ∈ rs, x ∈ used) → ∀ x, Accounted st x ∨ x ∈ rs →
        Accounted (loadRecords now days st rs) x := by
  induction rs with
  | nil => exact fun _ _ x h => h.resolve_right List.not_mem_nil
  | cons r rs ih =>
      intro st hst hrs x hx
      have hr := hrs r List.mem_cons_self
      have hrest : ∀ y ∈ rs, y ∈ used := fun y hy => hrs y (List.mem_cons_of_mem _ hy)
      have hid : ∀ y ∈ st.recs, C.id y = C.id r → y = r := fun y hy h => hd y (hst y hy) r hr h
      rw [loadRecords, List.foldl_cons]
      have hnext : (∀ y ∈ (if known st.recs (C.id r) then st else retain now days st r).recs,
          y ∈ used) ∧
          (∀ y, Accounted st y ∨ y = r →
            Accounted (if known st.recs (C.id r) then st else retain now days st r) y) := by
        split
        · next hknown =>
            obtain ⟨y, hy, heq⟩ := List.any_eq_true.mp hknown
            have hsame := hid y hy (of_decide_eq_true heq)
            refine ⟨hst, fun z hz => hz.elim id fun h => ?_⟩
            exact .inl (h ▸ hsame ▸ hy)
        · refine ⟨fun y hy => ?_, fun y hy => ?_⟩
          · rcases retain_recs hy with hy | rfl
            · exact hst y hy
            · exact hr
          · rcases hy with hy | rfl
            · exact retain_accounted hy
            · exact retain_self hid
      refine ih hnext.1 hrest x ?_
      rcases hx with hx | hx
      · exact .inl (hnext.2 x (.inl hx))
      · rcases List.mem_cons.mp hx with rfl | hx
        · exact .inl (hnext.2 x (.inr rfl))
        · exact .inr hx

/-- A load finds only what is too old expired. -/
theorem loadRecords_aged {now : Int} {days : Nat} {rs : List C.Rec} : ∀ {st : Store C},
    (∀ x ∈ st.aged, fresh C now days x = false) →
      ∀ x ∈ (loadRecords now days st rs).aged, fresh C now days x = false := by
  induction rs with
  | nil => exact fun h => h
  | cons r rs ih =>
      intro st hst
      rw [loadRecords, List.foldl_cons]
      refine ih fun x hx => ?_
      have hold : ∀ x ∈ st.recs.filter (fun y => !fresh C now days y),
          fresh C now days x = false := by
        intro x hx
        exact Bool.not_eq_true' _ |>.mp (List.mem_filter.mp hx).2
      split at hx
      · exact hst x hx
      · unfold retain at hx
        simp only at hx
        split at hx
        · next hr =>
            rcases List.mem_append.mp hx with hx | hx
            · exact (List.mem_append.mp hx).elim (hst x) (hold x)
            · exact List.mem_singleton.mp hx ▸ hr
        · split at hx
          · exact (List.mem_append.mp hx).elim (hst x) (hold x)
          · split at hx
            · exact (List.mem_append.mp hx).elim (hst x) (hold x)
            · exact (List.mem_append.mp hx).elim (hst x) (hold x)

/-! ## The invariant -/

/-- What holds in every state of a run that keeps clear of the defects. -/
structure Durable (j : Journal C) : Prop where
  distinct : Distinct C j.used
  store : ∀ r ∈ j.st.recs, r ∈ j.used ∧ C.valid j.now r = true
  queue : ∀ r ∈ j.queue, r ∈ j.used ∧ C.valid j.now r = true ∧ Accounted j.st r
  segments : ∀ n, n = .previous ∨ n = .current →
    Segment C j.used (contents j.dir n) ∧ (contents j.dir n).length ≤ SEGMENT_BYTES
  room : ¬ Sealed (contents j.dir .current) →
    (contents j.dir .current).length < SEGMENT_BYTES
  owed : ∀ r ∈ j.owed, r ∈ j.used ∧ C.valid j.now r = true ∧ Fits C r ∧
    (r ∈ readBack C j.now j.dir ∨ r ∈ j.st.aged ∨ r ∈ j.st.shed) ∧
    (j.whole = true → Accounted j.st r)

/-- Nothing that is owed is out of the store for good. -/
def Settled (j : Journal C) : Prop := ∀ r ∈ j.owed, r ∉ j.st.aged ∧ r ∉ j.st.shed

theorem settle_settled (j : Journal C) : Settled (settle j) := by
  intro r hr
  have := (List.mem_filter.mp hr).2
  rw [Bool.and_eq_true, decide_eq_true_eq, decide_eq_true_eq] at this
  exact this

theorem Durable.settle {j : Journal C} (h : Durable j) : Durable (settle j) :=
  ⟨h.distinct, h.store, h.queue, h.segments, h.room,
    fun r hr => h.owed r (List.mem_filter.mp hr).1⟩

/-- What reads back of a segment of fitting size. -/
theorem readSegment_small {now : Int} {d : Dir Name} {n : Name}
    (h : (contents d n).length ≤ SEGMENT_BYTES) :
    readSegment C now none (d n) = records C now (contents d n) := by
  have hsize : ¬ ((d n).getD []).length > SEGMENT_BYTES := Nat.not_lt.mpr h
  rw [readSegment_none, if_neg hsize]
  rfl

theorem Durable.readBack_eq {j : Journal C} (h : Durable j) (now : Int) :
    readBack C now j.dir =
      records C now (contents j.dir .previous) ++ records C now (contents j.dir .current) := by
  rw [readBack, readSegment_small (h.segments _ (.inl rfl)).2,
    readSegment_small (h.segments _ (.inr rfl)).2]

theorem Durable.readBack_used [LawfulCodec C] {j : Journal C} (h : Durable j) (now : Int)
    {r : C.Rec} (hr : r ∈ readBack C now j.dir) : r ∈ j.used := by
  rw [h.readBack_eq, List.mem_append] at hr
  rcases hr with hr | hr
  · exact (h.segments _ (.inl rfl)).1.records_used hr
  · exact (h.segments _ (.inr rfl)).1.records_used hr

/-! ## The steps -/

/-- The compaction is cut between its two replacements. -/
def CutBetween (j : Journal C) (cut : Option Nat) : Prop :=
  FirstDone j.dir (lines C (older C (exported j))) cut ∧
    ¬ SecondDone j.dir (lines C (older C (exported j))) (lines C (newer C (exported j))) cut

/-- The compaction touches no file, or it writes a store that has read both
segments and is not cut between its two replacements. -/
def Compacts (j : Journal C) (memory : Bool) (cut : Option Nat) : Prop :=
  memory = false ∨ GivesUp j ∨ j.whole = true ∧ ¬ CutBetween j cut

theorem prune_accounted {now : Int} {days : Nat} {st : Store C} {r : C.Rec}
    (h : Accounted st r) : Accounted (prune now days st) r := by
  rcases h with h | h | h
  · by_cases hf : fresh C now days r = true
    · exact .inl (List.mem_filter.mpr ⟨h, hf⟩)
    · refine .inr (.inl (List.mem_append_right _ (List.mem_filter.mpr ⟨h, ?_⟩)))
      rw [Bool.not_eq_true] at hf
      rw [hf]
      rfl
  · exact .inr (.inl (List.mem_append_left _ h))
  · exact .inr (.inr h)

theorem exported_used {j : Journal C} (h : Durable j) {r : C.Rec} (hr : r ∈ exported j) :
    r ∈ j.used :=
  (h.store r (mem_exported hr)).1

theorem durable_compact [LawfulCodec C] {j : Journal C} {memory : Bool} {cut : Option Nat}
    (h : Durable j) (hc : Compacts j memory cut) (cleans : Bool) :
    Durable (compactHistory j memory cut cleans) := by
  have hdir := compactHistory_dir j memory cut cleans
  rw [compactHistory_eq]
  generalize (compactHistory j memory cut cleans).dir = d at hdir
  have hstore : ∀ r ∈ (prune j.now j.days j.st).recs, r ∈ j.used ∧ C.valid j.now r = true :=
    fun r hr => h.store r (mem_exported hr)
  have hqueue : ∀ r ∈ j.queue, r ∈ j.used ∧ C.valid j.now r = true ∧
      Accounted (prune j.now j.days j.st) r := by
    intro r hr
    obtain ⟨hu, hv, hacc⟩ := h.queue r hr
    exact ⟨hu, hv, prune_accounted hacc⟩
  -- Segments that were not touched.
  have hsame : d .previous = j.dir .previous → d .current = j.dir .current →
      Durable { j with st := prune j.now j.days j.st, dir := d } := by
    intro hprev hcur
    have hcontents : ∀ n, n = Name.previous ∨ n = .current → contents d n = contents j.dir n := by
      rintro n (rfl | rfl)
      · rw [contents, contents, hprev]
      · rw [contents, contents, hcur]
    refine ⟨h.distinct, hstore, hqueue, fun n hn => ?_, ?_, fun r hr => ?_⟩
    · change Segment C j.used (contents d n) ∧ (contents d n).length ≤ SEGMENT_BYTES
      rw [hcontents n hn]
      exact h.segments n hn
    · change ¬ Sealed (contents d .current) → (contents d .current).length < SEGMENT_BYTES
      rw [hcontents _ (.inr rfl)]
      exact h.room
    · obtain ⟨hu, hv, hfits, hread, hacc⟩ := h.owed r hr
      refine ⟨hu, hv, hfits, ?_, fun hw => prune_accounted (hacc hw)⟩
      have hback : readBack C j.now d = readBack C j.now j.dir := by
        rw [readBack, readBack, hprev, hcur]
      rcases hread with hread | haged | hshed
      · exact .inl (hback ▸ hread)
      · exact .inr (.inl (List.mem_append_left _ haged))
      · exact .inr (.inr hshed)
  rcases hdir with ⟨_, hdir⟩ | ⟨hgives, hmem, hcompact⟩
  · rw [hdir] at hsame ⊢
    exact hsame rfl rfl
  · obtain ⟨hwhole, hcut⟩ : j.whole = true ∧ ¬ CutBetween j cut := by
      rcases hc with hc | hc | hc
      · rw [hmem] at hc
        cases hc
      · exact absurd hc hgives
      · exact hc
    cases hcompact with
    | neither _ hprev hcur => exact hsame hprev hcur
    | first hf hs _ _ => exact absurd ⟨hf, hs⟩ hcut
    | both _ hprev hcur =>
        have hused : ∀ r ∈ exported j, r ∈ j.used := fun r hr => exported_used h hr
        have hprevC : contents d .previous = lines C (older C (exported j)) := by
          rw [contents, hprev, Option.getD_some]
        have hcurC : contents d .current = lines C (newer C (exported j)) := by
          rw [contents, hcur, Option.getD_some]
        have htidy : Tidy C j.used (lines C (newer C (exported j))) :=
          tidy_lines fun r hr => hused r (List.mem_of_mem_drop hr)
        refine ⟨h.distinct, hstore, hqueue, fun n hn => ?_, fun hno => ?_, fun r hr => ?_⟩
        · rcases hn with rfl | rfl
          · refine ⟨hprevC ▸ Tidy.segment (tidy_lines fun r hr => ?_), hprevC ▸
              older_length hgives⟩
            exact hused r ((upTo_start _ _ _).subset hr)
          · exact ⟨hcurC ▸ htidy.segment, hcurC ▸ newer_length _⟩
        · exact absurd (hcurC ▸ htidy.isSealed) hno
        · obtain ⟨hu, hv, hfits, _, hacc⟩ := h.owed r hr
          refine ⟨hu, hv, hfits, ?_, fun hw => prune_accounted (hacc hw)⟩
          rcases prune_accounted (hacc hwhole) with hin | haged | hshed
          · have hvalid : StoreValid j := fun r hr => (h.store r hr).2
            exact .inl ((readBack_both hvalid hgives hprev hcur r).mpr ⟨hin, hfits⟩)
          · exact .inr (.inl haged)
          · exact .inr (.inr hshed)

theorem sealTail_contents (d : Dir Name) :
    contents (sealTail d) .previous = contents d .previous ∧
      (Sealed (contents d .current) ∧ contents (sealTail d) .current = contents d .current ∨
        ¬ Sealed (contents d .current) ∧
          contents (sealTail d) .current = contents d .current ++ [newline]) := by
  unfold sealTail
  split
  · next bs hbs =>
      have hcur : contents d .current = bs := by
        rw [contents, hbs]
        rfl
      split
      · next hs => exact ⟨rfl, .inl ⟨hcur ▸ hs, rfl⟩⟩
      · next hs =>
          refine ⟨rfl, .inr ⟨hcur ▸ hs, ?_⟩⟩
          rw [hcur]
          rfl
  · next hnone =>
      refine ⟨rfl, .inl ⟨.inl ?_, rfl⟩⟩
      rw [contents, hnone]
      rfl

theorem durable_seal [LawfulCodec C] {j : Journal C} (h : Durable j) :
    Durable { j with dir := sealTail j.dir } := by
  obtain ⟨hprev, hcur⟩ := sealTail_contents j.dir
  obtain ⟨hseg, hsize⟩ := h.segments _ (.inr rfl)
  have hnew : Segment C j.used (contents (sealTail j.dir) .current) ∧
      (contents (sealTail j.dir) .current).length ≤ SEGMENT_BYTES ∧
      Sealed (contents (sealTail j.dir) .current) := by
    rcases hcur with ⟨hs, hcur⟩ | ⟨hs, hcur⟩
    · rw [hcur]
      exact ⟨hseg, hsize, hs⟩
    · have hroom := h.room hs
      rw [hcur]
      refine ⟨(hseg.seal hs).segment, ?_, (hseg.seal hs).isSealed⟩
      rw [List.length_append, List.length_singleton]
      omega
  refine ⟨h.distinct, h.store, h.queue, fun n hn => ?_, fun hno => absurd hnew.2.2 hno,
    fun r hr => ?_⟩
  · rcases hn with rfl | rfl
    · change Segment C j.used (contents (sealTail j.dir) .previous) ∧
        (contents (sealTail j.dir) .previous).length ≤ SEGMENT_BYTES
      rw [hprev]
      exact h.segments _ (.inl rfl)
    · exact ⟨hnew.1, hnew.2.1⟩
  · obtain ⟨hu, hv, hfits, hread, hacc⟩ := h.owed r hr
    refine ⟨hu, hv, hfits, hread.imp (fun hread => ?_) id, hacc⟩
    have hprevSize : (contents (sealTail j.dir) .previous).length ≤ SEGMENT_BYTES := by
      rw [hprev]
      exact (h.segments _ (.inl rfl)).2
    rw [h.readBack_eq, List.mem_append] at hread
    rw [readBack, readSegment_small hprevSize, readSegment_small hnew.2.1, hprev,
      List.mem_append]
    refine hread.imp id fun hread => ?_
    rcases hcur with ⟨_, hcur⟩ | ⟨_, hcur⟩
    · rwa [hcur]
    · -- What was read before the newline still is.
      rw [hcur]
      exact mem_records_append hread _

/-- The segments only grow or rotate under an append that is not glued to a torn
line. -/
theorem durable_write [LawfulCodec C] {j : Journal C} {r : C.Rec} {rest : List C.Rec}
    {cut : Option Nat} (h : Durable j) (hq : j.queue = r :: rest)
    (hclear : Sealed (contents j.dir .current) ∨ rotates j.dir (C.line r) = true) :
    Durable (writeNext j r rest cut) := by
  obtain ⟨hused, hvalid, hacc⟩ := h.queue r (by rw [hq]; exact List.mem_cons_self)
  obtain ⟨hprevSeg, hprevSize⟩ := h.segments _ (.inl rfl)
  obtain ⟨hcurSeg, hcurSize⟩ := h.segments _ (.inr rfl)
  obtain ⟨p, q, hpq, hok, _, happ⟩ := append_spec j.dir r cut
  have hqueue : ∀ x ∈ rest, x ∈ j.used ∧ C.valid j.now x = true ∧ Accounted j.st x :=
    fun x hx => h.queue x (by rw [hq]; exact List.mem_cons_of_mem _ hx)
  unfold writeNext
  generalize append C j.dir r cut = res at hok happ
  obtain ⟨d, ok⟩ := res
  simp only at hok happ ⊢
  have hshort : p.length ≤ (C.line r).length := by
    rw [← hpq, List.length_append]
    omega
  cases hrot : rotated C j.dir r cut with
  | false =>
      obtain ⟨hprev, hcur, hnothing⟩ := happ.stays hrot
      -- Where nothing may be written the line's start is empty.
      have hseg : Segment C j.used (contents d .current) ∧
          (contents d .current).length ≤ SEGMENT_BYTES ∧
          (¬ Sealed (contents d .current) → (contents d .current).length < SEGMENT_BYTES) := by
        rw [hcur]
        cases hfull : rotates j.dir (C.line r) with
        | true =>
            rw [hnothing hfull, List.append_nil]
            exact ⟨hcurSeg, hcurSize, h.room⟩
        | false =>
            have hs : Sealed (contents j.dir .current) :=
              hclear.resolve_right fun hr => by rw [hfull] at hr; cases hr
            have hsize : (contents j.dir .current).length + (C.line r).length ≤ SEGMENT_BYTES :=
              Nat.le_of_not_lt (of_decide_eq_false hfull)
            refine ⟨(hcurSeg.tidy hs).append_line hused hpq, ?_, fun hno => ?_⟩
            · rw [List.length_append]
              omega
            · have hq : q ≠ [] := by
                rintro rfl
                rw [List.append_nil] at hpq
                rw [hpq] at hno
                exact hno (Tidy.line (hcurSeg.tidy hs) hused).isSealed
              have hlen := List.length_pos_iff.mpr hq
              rw [← hpq, List.length_append] at hsize
              rw [List.length_append]
              omega
      have hprevSize' : (contents d .previous).length ≤ SEGMENT_BYTES := hprev ▸ hprevSize
      have hread : ∀ x, x ∈ readBack C j.now j.dir → x ∈ readBack C j.now d := by
        intro x hx
        rw [h.readBack_eq, List.mem_append] at hx
        rw [readBack, readSegment_small hprevSize', readSegment_small hseg.2.1, List.mem_append,
          hprev, hcur]
        exact hx.imp id fun hx => mem_records_append hx p
      refine ⟨h.distinct, h.store, hqueue, fun n hn => ?_, hseg.2.2, fun x hx => ?_⟩
      · rcases hn with rfl | rfl
        · exact ⟨hprev ▸ hprevSeg, hprevSize'⟩
        · exact ⟨hseg.1, hseg.2.1⟩
      · rw [if_neg Bool.false_ne_true] at hx
        have hold : x ∈ j.owed → x ∈ j.used ∧ C.valid j.now x = true ∧ Fits C x ∧
            (x ∈ readBack C j.now d ∨ x ∈ j.st.aged ∨ x ∈ j.st.shed) ∧
            (j.whole = true → Accounted j.st x) := by
          intro hx
          obtain ⟨hu, hv, hfits, hback, hw⟩ := h.owed x hx
          exact ⟨hu, hv, hfits, hback.imp (hread x) id, hw⟩
        split at hx
        · next hok' =>
            rcases List.mem_append.mp hx with hx | hx
            · exact hold hx
            · cases List.mem_singleton.mp hx
              obtain ⟨rfl, hfits⟩ := hok hok'
              rw [List.append_nil] at hpq
              have hfull : rotates j.dir (C.line r) = false := by
                cases hfull : rotates j.dir (C.line r) with
                | false => rfl
                | true =>
                    obtain ⟨body, hbody, _⟩ := (LawfulCodec.is_line r).ex
                    rw [← hpq, hnothing hfull] at hbody
                    simp at hbody
              have hs : Sealed (contents j.dir .current) :=
                hclear.resolve_right fun hr => by rw [hfull] at hr; cases hr
              refine ⟨hused, hvalid, hfits, .inl ?_, fun _ => hacc⟩
              rw [readBack, readSegment_small hprevSize', readSegment_small hseg.2.1, hcur, hpq,
                records_line (hcurSeg.tidy hs).atLine]
              simp [hfits, hvalid]
        · exact hold hx
  | true =>
      obtain ⟨hprev, hcur⟩ := happ.moves hrot
      have hfits : Fits C r := by
        have hr := hrot
        rw [rotated, Bool.and_eq_true, Bool.and_eq_true] at hr
        exact of_decide_eq_true hr.1.1
      have hroom : (contents d .current).length < SEGMENT_BYTES := by
        rw [hcur]
        exact (hshort.trans_lt hfits).trans (by decide)
      have hprevSize' : (contents d .previous).length ≤ SEGMENT_BYTES := hprev ▸ hcurSize
      have hcurSeg' : Segment C j.used (contents d .current) := by
        have := (Tidy.nil (C := C)).append_line hused hpq
        rwa [List.nil_append, ← hcur] at this
      have hback : readBack C j.now d =
          records C j.now (contents j.dir .current) ++ records C j.now p := by
        rw [readBack, readSegment_small hprevSize', readSegment_small hroom.le, hprev, hcur]
      refine ⟨h.distinct, h.store, hqueue, fun n hn => ?_, fun _ => hroom, fun x hx => ?_⟩
      · rcases hn with rfl | rfl
        · exact ⟨hprev ▸ hcurSeg, hprevSize'⟩
        · exact ⟨hcurSeg', hroom.le⟩
      · rw [if_pos rfl] at hx
        -- What was readable in the old segment has moved with it.
        have hold : x ∈ j.owed.filter (fun r => decide (r ∈ records C j.now
            (contents j.dir .current))) → x ∈ j.used ∧ C.valid j.now x = true ∧ Fits C x ∧
            (x ∈ readBack C j.now d ∨ x ∈ j.st.aged ∨ x ∈ j.st.shed) ∧
            (j.whole = true → Accounted j.st x) := by
          intro hx
          obtain ⟨hin, hrec⟩ := List.mem_filter.mp hx
          obtain ⟨hu, hv, hf, _, hw⟩ := h.owed x hin
          refine ⟨hu, hv, hf, .inl ?_, hw⟩
          rw [hback]
          exact List.mem_append_left _ (of_decide_eq_true hrec)
        split at hx
        · next hok' =>
            rcases List.mem_append.mp hx with hx | hx
            · exact hold hx
            · cases List.mem_singleton.mp hx
              obtain ⟨rfl, _⟩ := hok hok'
              rw [List.append_nil] at hpq
              refine ⟨hused, hvalid, hfits, .inl ?_, fun _ => hacc⟩
              change r ∈ readBack C j.now d
              have hline := records_line (C := C) atLine_nil j.now r
              rw [List.nil_append, records_nil, List.nil_append] at hline
              rw [hback, hpq, hline]
              simp [hfits, hvalid]
        · exact hold hx

theorem durable_submit {j : Journal C} {r : C.Rec} (h : Durable j)
    (hnew : known j.used (C.id r) = false) :
    Durable { perfSubmit j r with used := r :: j.used } := by
  have hsub : j.used ⊆ r :: j.used := List.subset_cons_of_subset _ (List.Subset.refl _)
  have hother : ∀ x ∈ j.used, C.id x ≠ C.id r := by
    intro x hx heq
    exact (List.any_eq_false.mp hnew) x hx (decide_eq_true heq)
  have hdistinct : Distinct C (r :: j.used) := by
    intro x hx y hy heq
    rcases List.mem_cons.mp hx with hxr | hxu
    · rcases List.mem_cons.mp hy with hyr | hyu
      · exact hxr.trans hyr.symm
      · exact absurd (heq.symm.trans (congrArg C.id hxr)) (hother y hyu)
    · rcases List.mem_cons.mp hy with hyr | hyu
      · exact absurd (heq.trans (congrArg C.id hyr)) (hother x hxu)
      · exact h.distinct x hxu y hyu heq
  have hsegments : ∀ n, n = Name.previous ∨ n = .current →
      Segment C (r :: j.used) (contents j.dir n) ∧
        (contents j.dir n).length ≤ SEGMENT_BYTES :=
    fun n hn => (h.segments n hn).imp (Segment.mono hsub) id
  unfold perfSubmit
  split
  · next hguard =>
      simp only [Bool.and_eq_true] at hguard
      have hvalid := hguard.1.1
      have hself : Accounted (retain j.now j.days j.st r) r :=
        retain_self fun x hx heq => absurd heq (hother x (h.store x hx).1)
      refine ⟨hdistinct, fun x hx => ?_, fun x hx => ?_, hsegments, h.room, fun x hx => ?_⟩
      · rcases retain_recs hx with hx | rfl
        · exact (h.store x hx).imp (fun hu => hsub hu) id
        · exact ⟨List.mem_cons_self, hvalid⟩
      · have hx : x ∈ j.queue ∨ x = r := by
          simp only at hx
          split at hx
          · exact (List.mem_append.mp hx).imp id List.mem_singleton.mp
          · exact .inl hx
        rcases hx with hx | rfl
        · obtain ⟨hu, hv, hacc⟩ := h.queue x hx
          exact ⟨hsub hu, hv, retain_accounted hacc⟩
        · exact ⟨List.mem_cons_self, hvalid, hself⟩
      · obtain ⟨hu, hv, hfits, hread, hacc⟩ := h.owed x hx
        exact ⟨hsub hu, hv, hfits, hread.imp id retain_gone, fun hw => retain_accounted (hacc hw)⟩
  · exact ⟨hdistinct, fun x hx => (h.store x hx).imp (fun hu => hsub hu) id,
      fun x hx => (h.queue x hx).imp (fun hu => hsub hu) id, hsegments, h.room,
      fun x hx => (h.owed x hx).imp (fun hu => hsub hu) id⟩

/-- Reading no more than some of the segments, a load is still right about what it
holds; reading all of them, it accounts for everything. -/
theorem durable_loaded [LawfulCodec C] {j : Journal C} (h : Durable j) (hs : Settled j)
    (f : Start) : Durable (loaded j f) := by
  have hcontents : ∀ n, n = Name.previous ∨ n = .current →
      (loaded j f).dir n = j.dir n := by
    rintro n (rfl | rfl)
    · unfold loaded
      simp only
      split <;> rfl
    · unfold loaded
      simp only
      split <;> rfl
  have hprev := hcontents _ (.inl rfl)
  have hcur := hcontents _ (.inr rfl)
  have hback : readBack C j.now (loaded j f).dir = readBack C j.now j.dir := by
    rw [readBack, readBack, hprev, hcur]
  have hst : (loaded j f).st = loadBoth C j.now f.days f.upToPrevious f.upToCurrent
      (loaded j f).dir := rfl
  have hstore : ∀ r ∈ (loaded j f).st.recs, r ∈ j.used ∧ C.valid j.now r = true := by
    intro r hr
    refine ⟨?_, loadBoth_valid (hst ▸ hr)⟩
    have hpart : ∀ {upTo o}, r ∈ readSegment C j.now upTo o → r ∈ readSegment C j.now none o := by
      intro upTo o hr
      unfold readSegment at hr ⊢
      cases o with
      | none => exact hr
      | some bs =>
          simp only at hr ⊢
          split at hr
          · cases hr
          · next hsize =>
              rw [if_neg hsize]
              cases upTo with
              | none => exact hr
              | some n => exact List.mem_of_mem_take hr
    rw [hst, loadBoth] at hr
    rcases loadRecords_recs hr with hr | hr
    · cases hr
    · refine h.readBack_used j.now ?_
      rw [readBack, ← hprev, ← hcur, List.mem_append]
      exact (List.mem_append.mp hr).imp hpart hpart
  refine ⟨h.distinct, hstore, fun r hr => (by cases hr), fun n hn => ?_, ?_, fun r hr => ?_⟩
  · change Segment C j.used ((((loaded j f).dir n).getD [])) ∧ _
    rw [contents, hcontents n hn]
    exact h.segments n hn
  · rw [contents, hcur]
    exact h.room
  · obtain ⟨hu, hv, hfits, hread, _⟩ := h.owed r hr
    have hread : r ∈ readBack C j.now j.dir := by
      obtain ⟨haged, hshed⟩ := hs r hr
      exact (hread.resolve_right fun hgone => hgone.elim haged hshed)
    refine ⟨hu, hv, hfits, .inl (hback ▸ hread), fun hwhole => ?_⟩
    have hall : f.upToPrevious = none ∧ f.upToCurrent = none := by
      have hwhole : (f.upToPrevious.isNone && f.upToCurrent.isNone) = true := hwhole
      rw [Bool.and_eq_true, Option.isNone_iff_eq_none, Option.isNone_iff_eq_none] at hwhole
      exact hwhole
    rw [hst, hall.1, hall.2, loadBoth]
    refine loadRecords_accounted h.distinct (fun x hx => by cases hx) (fun x hx => ?_) r (.inr ?_)
    · refine h.readBack_used j.now ?_
      rw [← hback]
      exact hx
    · change r ∈ readBack C j.now (loaded j f).dir
      rw [hback]
      exact hread

/-- The actions that keep clear of the defects: an append finds the segment sealed
or rotates it, and a compaction is as `Compacts` says. -/
def KeepsClear (j : Journal C) : Act C → Prop
  | .write _ => ∀ r ∈ j.queue.head?, Sealed (contents j.dir .current) ∨
      rotates j.dir (C.line r) = true
  | .compact memory cut _ => Compacts j memory cut
  | .restart f => (loaded j f).st.expired = true → Compacts (loaded j f) f.memory f.cut
  | _ => True

theorem durable_tick [LawfulCodec C] {j : Journal C} (h : Durable j) (n : Nat) :
    Durable { j with now := j.now + n } := by
  have hle : j.now ≤ j.now + n := by omega
  refine ⟨h.distinct, fun r hr => ?_, fun r hr => ?_, h.segments, h.room, fun r hr => ?_⟩
  · obtain ⟨hu, hv⟩ := h.store r hr
    exact ⟨hu, LawfulCodec.valid_later _ _ r hv hle⟩
  · obtain ⟨hu, hv, hacc⟩ := h.queue r hr
    exact ⟨hu, LawfulCodec.valid_later _ _ r hv hle, hacc⟩
  · obtain ⟨hu, hv, hfits, hread, hacc⟩ := h.owed r hr
    exact ⟨hu, LawfulCodec.valid_later _ _ r hv hle, hfits,
      hread.imp (mem_readBack_later hle) id, hacc⟩

theorem durable_clear {j : Journal C} (h : Durable j) (unlinks : Name → Bool) :
    Durable { j with
      dir := fun n =>
        if (n = .current ∨ n = .previous) ∧ unlinks n = true then none else j.dir n
      st := { expired := j.st.expired }, queue := [], owed := [] } := by
  have hcontents : ∀ n, contents (fun n =>
      if (n = .current ∨ n = .previous) ∧ unlinks n = true then none else j.dir n) n = [] ∨
      contents (fun n =>
      if (n = .current ∨ n = .previous) ∧ unlinks n = true then none else j.dir n) n =
        contents j.dir n := by
    intro n
    unfold contents
    simp only
    split
    · exact .inl rfl
    · exact .inr rfl
  refine ⟨h.distinct, fun r hr => (by cases hr), fun r hr => (by cases hr), fun n hn => ?_,
    fun hno => ?_, fun r hr => by cases hr⟩
  · simp only
    rcases hcontents n with heq | heq
    · rw [heq]
      exact ⟨Tidy.nil.segment, Nat.zero_le _⟩
    · rw [heq]
      exact h.segments n hn
  · simp only at hno ⊢
    rcases hcontents .current with heq | heq
    · rw [heq] at hno
      exact absurd (.inl rfl) hno
    · rw [heq] at hno ⊢
      exact h.room hno

theorem step_durable [LawfulCodec C] {j j' : Journal C} {act : Act C}
    (hok : KeepsClear j act) (hstep : j.step act = some j') (h : Durable j ∧ Settled j) :
    Durable j' ∧ Settled j' := by
  obtain ⟨hd, hs⟩ := h
  cases act with
  | tick n =>
      cases hstep
      exact ⟨durable_tick hd n, hs⟩
  | submit r =>
      simp only [Journal.step] at hstep
      split at hstep
      · cases hstep
      · next hnew =>
          cases hstep
          rw [Bool.not_eq_true] at hnew
          exact ⟨(durable_submit hd hnew).settle, settle_settled _⟩
  | write cut =>
      simp only [Journal.step] at hstep
      split at hstep
      · cases hstep
      · next r rest hq =>
          cases hstep
          have hclear := hok r (by rw [hq]; rfl)
          exact ⟨(durable_write hd hq hclear).settle, settle_settled _⟩
  | compact memory cut cleans =>
      cases hstep
      exact ⟨(durable_compact hd hok cleans).settle, settle_settled _⟩
  | settings days =>
      simp only [Journal.step] at hstep
      split at hstep
      · cases hstep
        exact ⟨⟨hd.distinct, hd.store, hd.queue, hd.segments, hd.room, hd.owed⟩, hs⟩
      · cases hstep
  | clear unlinks =>
      cases hstep
      exact ⟨durable_clear hd unlinks, fun r hr => by cases hr⟩
  | restart f =>
      simp only [Journal.step] at hstep
      split at hstep
      · cases hstep
        refine ⟨Durable.settle ?_, settle_settled _⟩
        have hcompact : Durable (if (loaded j f).st.expired then
            compactHistory (loaded j f) f.memory f.cut f.cleans else loaded j f) := by
          have hloaded := durable_loaded hd hs f
          split
          · next hexp => exact durable_compact hloaded (hok hexp) f.cleans
          · exact hloaded
        rw [perfInit]
        by_cases hseals : f.seals = true
        · simp only [hseals, if_true]
          exact durable_seal hcompact
        · simp only [hseals]
          exact hcompact
      · cases hstep

theorem reach_durable [LawfulCodec C] {j : Journal C}
    (h : (journalMachine C).Reach KeepsClear j) : Durable j ∧ Settled j := by
  refine h.invariant (fun j hj => ?_) fun j act j' _ hok hstep hd =>
    step_durable (j := j) hok hstep hd
  obtain ⟨hdir, hst, hqueue, hused, howed, _, _⟩ := hj
  have hcontents : ∀ n, contents j.dir n = [] := by
    intro n
    rw [contents, hdir n]
    rfl
  refine ⟨⟨?_, ?_, ?_, fun n _ => ?_, fun hno => ?_, ?_⟩, ?_⟩
  · rw [hused]
    exact fun x hx => by cases hx
  · rw [hst]
    exact fun x hx => by cases hx
  · rw [hqueue]
    exact fun x hx => by cases hx
  · rw [hcontents]
    exact ⟨Tidy.nil.segment, Nat.zero_le _⟩
  · rw [hcontents] at hno
    exact absurd (.inl rfl) hno
  · rw [howed]
    exact fun x hx => by cases hx
  · intro x hx
    rw [howed] at hx
    cases hx

/-- The records of the plainest codec with lines of three bytes. -/
def small (n : Fin 3) : (unary 2).Rec := n

end GeistServe.Proofs
