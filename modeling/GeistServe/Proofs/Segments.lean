import Mathlib.Data.List.Nodup
import GeistServe.Perf.Journal

/-!
# What is in a segment

How the lines of records read back, one at a time (`records_line`) and a whole
export (`records_lines`), and what the two halves of a compaction are: the lines
of the records that start more than `SEGMENT_BYTES` before the end of the export,
and those of the others.
-/

namespace GeistServe.Proofs

open GeistServe.Lib GeistServe.Perf

variable {C : Codec}

/-! ## Lines of records -/

/-- The line fits the buffer that segments are read with. -/
def Fits (C : Codec) (r : C.Rec) : Prop := (C.line r).length < LINE_CAP

instance (r : C.Rec) : Decidable (Fits C r) := by unfold Fits; infer_instance

/-- A reader that has seen these bytes stands at the start of a line. -/
def AtLine (bs : Bytes) : Prop := (scan LINE_CAP {} bs).Clean

theorem atLine_nil : AtLine [] := ⟨rfl, rfl⟩

/-- What of a line `parse` takes. -/
def parsed (C : Codec) (now : Int) (l : Bytes) : Option C.Rec :=
  (C.decode l).bind fun r => if C.valid now r then some r else none

theorem records_eq (now : Int) (bs : Bytes) :
    records C now bs = (readLines LINE_CAP bs).filterMap (parsed C now) := rfl

theorem parsed_line [LawfulCodec C] (now : Int) (r : C.Rec) :
    parsed C now (C.line r) = if C.valid now r then some r else none := by
  rw [parsed, LawfulCodec.decode_line]
  rfl

theorem scan_record [LawfulCodec C] {bs : Bytes} (h : AtLine bs) (r : C.Rec) :
    scan LINE_CAP {} (bs ++ C.line r) =
      { out := readLines LINE_CAP bs ++ if Fits C r then [C.line r] else [] } := by
  rw [scan_append]
  split
  · next hfits => exact scan_line h (LawfulCodec.is_line r) hfits
  · next hlong =>
      rw [List.append_nil]
      exact scan_long h (LawfulCodec.is_line r) (Nat.le_of_not_lt hlong) (by decide)

theorem atLine_line [LawfulCodec C] {bs : Bytes} (h : AtLine bs) (r : C.Rec) :
    AtLine (bs ++ C.line r) := by
  unfold AtLine
  rw [scan_record h]
  exact ⟨rfl, rfl⟩

/-- A line that is added to whole lines. -/
theorem records_line [LawfulCodec C] {bs : Bytes} (h : AtLine bs) (now : Int) (r : C.Rec) :
    records C now (bs ++ C.line r) =
      records C now bs ++ [r].filter fun r => decide (Fits C r) && C.valid now r := by
  have hread : readLines LINE_CAP (bs ++ C.line r) =
      readLines LINE_CAP bs ++ if Fits C r then [C.line r] else [] := by
    rw [readLines, scan_record h]
  rw [records_eq, hread, List.filterMap_append, ← records_eq]
  refine congrArg (records C now bs ++ ·) ?_
  by_cases hfits : Fits C r
  · by_cases hvalid : C.valid now r = true
    · simp [hfits, hvalid, parsed_line]
    · simp [hfits, hvalid, parsed_line]
  · simp [hfits]

/-- The lines of records, as an export or a run of appends has them. -/
def lines (C : Codec) (rs : List C.Rec) : Bytes := (rs.map C.line).flatten

theorem lines_append (rs ss : List C.Rec) : lines C (rs ++ ss) = lines C rs ++ lines C ss := by
  rw [lines, lines, lines, List.map_append, List.flatten_append]

theorem atLine_lines [LawfulCodec C] {bs : Bytes} (h : AtLine bs) (rs : List C.Rec) :
    AtLine (bs ++ lines C rs) := by
  induction rs generalizing bs with
  | nil => rwa [lines, List.map_nil, List.flatten_nil, List.append_nil]
  | cons r rs ih =>
      rw [lines, List.map_cons, List.flatten_cons, ← List.append_assoc]
      exact ih (atLine_line h r)

theorem records_lines_append [LawfulCodec C] {bs : Bytes} (h : AtLine bs) (now : Int)
    (rs : List C.Rec) :
    records C now (bs ++ lines C rs) =
      records C now bs ++ rs.filter fun r => decide (Fits C r) && C.valid now r := by
  induction rs generalizing bs with
  | nil => simp [lines]
  | cons r rs ih =>
      have hcons : bs ++ lines C (r :: rs) = bs ++ C.line r ++ lines C rs := by
        rw [lines, List.map_cons, List.flatten_cons, ← List.append_assoc]
        rfl
      rw [hcons, ih (atLine_line h r), records_line h, List.append_assoc, ← List.filter_append]
      rfl

/-- A file of lines reads back as its records. -/
theorem records_lines [LawfulCodec C] (now : Int) (rs : List C.Rec) :
    records C now (lines C rs) = rs.filter fun r => decide (Fits C r) && C.valid now r := by
  have h := records_lines_append (C := C) atLine_nil now rs
  rwa [List.nil_append] at h

theorem mem_records_later [LawfulCodec C] {now now' : Int} (hle : now ≤ now') {bs : Bytes}
    {r : C.Rec} (h : r ∈ records C now bs) : r ∈ records C now' bs := by
  rw [records_eq, List.mem_filterMap] at h ⊢
  obtain ⟨l, hl, hr⟩ := h
  refine ⟨l, hl, ?_⟩
  obtain ⟨r', hdec, hr⟩ := Option.bind_eq_some_iff.mp hr
  rw [parsed, hdec, Option.bind_some]
  split at hr
  · next hvalid =>
      cases hr
      rw [if_pos (LawfulCodec.valid_later now now' r hvalid hle)]
  · cases hr

/-- What reads back still does with more behind it. -/
theorem mem_records_append {now : Int} {bs : Bytes} {r : C.Rec} (h : r ∈ records C now bs)
    (more : Bytes) : r ∈ records C now (bs ++ more) := by
  rw [records_eq, List.mem_filterMap] at h ⊢
  obtain ⟨l, hl, hr⟩ := h
  refine ⟨l, ?_, hr⟩
  rw [readLines, scan_append]
  exact scan_out_prefix.subset hl

/-! ## The two halves of an export -/

def lineSize (C : Codec) (r : C.Rec) : Nat := (C.line r).length

theorem lines_length (rs : List C.Rec) : (lines C rs).length = (rs.map (lineSize C)).sum := by
  rw [lines, List.length_flatten, List.map_map]
  rfl

/-- The records that go to the older segment, and to the newer. -/
def older (C : Codec) (rs : List C.Rec) : List C.Rec :=
  upTo (lineSize C) ((lines C rs).length - SEGMENT_BYTES) rs

def newer (C : Codec) (rs : List C.Rec) : List C.Rec := rs.drop (older C rs).length

theorem older_newer (rs : List C.Rec) : older C rs ++ newer C rs = rs :=
  List.prefix_iff_eq_append.mp (upTo_start _ _ _)

theorem splitAt_lines [LawfulCodec C] (rs : List C.Rec) :
    splitAt (lines C rs) = (lines C (older C rs)).length := by
  unfold Perf.splitAt
  split
  · next hle =>
      rw [older, Nat.sub_eq_zero_of_le hle, upTo]
      rfl
  · next hlt =>
      have hline : ∀ l ∈ rs.map C.line, IsLine l := by
        intro l hl
        obtain ⟨r, _, rfl⟩ := List.mem_map.mp hl
        exact LawfulCodec.is_line r
      have hseek := seekLine_upTo hline (n := (lines C rs).length - SEGMENT_BYTES) (by omega)
        (Nat.sub_le ..)
      rw [upTo_map] at hseek
      exact hseek

theorem take_split [LawfulCodec C] (rs : List C.Rec) :
    (lines C rs).take (splitAt (lines C rs)) = lines C (older C rs) := by
  rw [splitAt_lines]
  nth_rewrite 2 [← older_newer rs]
  rw [lines_append, List.take_left]

theorem drop_split [LawfulCodec C] (rs : List C.Rec) :
    (lines C rs).drop (splitAt (lines C rs)) = lines C (newer C rs) := by
  rw [splitAt_lines]
  nth_rewrite 2 [← older_newer rs]
  rw [lines_append, List.drop_left]

/-- How far the record's line starts before the end of the export. -/
def exportTail (C : Codec) (rs : List C.Rec) (r : C.Rec) : Nat :=
  (lines C (rs.dropWhile (· ≠ r))).length

/-- The older half has the records that start more than a segment before the
end. -/
theorem mem_older {rs : List C.Rec} {r : C.Rec} (hr : r ∈ rs) :
    r ∈ older C rs ↔ SEGMENT_BYTES < exportTail C rs r := by
  have hsplit : (lines C (rs.takeWhile (· ≠ r))).length + exportTail C rs r =
      (lines C rs).length := by
    rw [exportTail, ← List.length_append, ← lines_append, List.takeWhile_append_dropWhile]
  rw [older, mem_upTo hr, ← lines_length]
  omega

/-- The newer half fits a segment. -/
theorem newer_length [LawfulCodec C] (rs : List C.Rec) :
    (lines C (newer C rs)).length ≤ SEGMENT_BYTES := by
  have hsplit : (lines C (older C rs)).length + (lines C (newer C rs)).length =
      (lines C rs).length := by
    rw [← List.length_append, ← lines_append, older_newer]
  have hle := splitAt_lines rs
  unfold Perf.splitAt at hle
  split at hle
  · omega
  · simp only at hle
    omega

/-! ## Reading the segments back -/

def contents (d : Dir Name) (n : Name) : Bytes := (d n).getD []

theorem records_nil (now : Int) : records C now [] = [] := rfl

theorem readSegment_none (now : Int) (o : Option Bytes) :
    readSegment C now none o =
      if (o.getD []).length > SEGMENT_BYTES then [] else records C now (o.getD []) := by
  cases o with
  | none => rfl
  | some bs => rfl

/-- What a load that meets no fault reads. -/
def readBack (C : Codec) (now : Int) (d : Dir Name) : List C.Rec :=
  readSegment C now none (d .previous) ++ readSegment C now none (d .current)

theorem mem_readSegment_later [LawfulCodec C] {now now' : Int} (hle : now ≤ now')
    {o : Option Bytes} {r : C.Rec} (h : r ∈ readSegment C now none o) :
    r ∈ readSegment C now' none o := by
  rw [readSegment_none] at h ⊢
  split at h
  · cases h
  · next hsize =>
      rw [if_neg hsize]
      exact mem_records_later hle h

theorem mem_readBack_later [LawfulCodec C] {now now' : Int} (hle : now ≤ now') {d : Dir Name}
    {r : C.Rec} (h : r ∈ readBack C now d) : r ∈ readBack C now' d := by
  rw [readBack, List.mem_append] at h ⊢
  exact h.imp (mem_readSegment_later hle) (mem_readSegment_later hle)

theorem readSegment_valid {now : Int} {upTo : Option Nat} {o : Option Bytes} {r : C.Rec}
    (h : r ∈ readSegment C now upTo o) : C.valid now r = true := by
  have hrecs : ∀ bs, r ∈ records C now bs → C.valid now r = true := by
    intro bs hr
    rw [records_eq, List.mem_filterMap] at hr
    obtain ⟨l, _, hl⟩ := hr
    obtain ⟨r', _, hr'⟩ := Option.bind_eq_some_iff.mp hl
    split at hr'
    · next hvalid =>
        cases hr'
        exact hvalid
    · cases hr'
  unfold readSegment at h
  split at h
  · cases h
  · split at h
    · cases h
    · split at h
      · exact hrecs _ h
      · exact hrecs _ (List.mem_of_mem_take h)

/-! ## The store -/

theorem retain_recs {now : Int} {days : Nat} {st : Store C} {r r' : C.Rec}
    (h : r' ∈ (retain now days st r).recs) : r' ∈ st.recs ∨ r' = r := by
  have hkept : ∀ {x}, x ∈ st.recs.filter (fresh C now days) → x ∈ st.recs :=
    fun h => (List.mem_filter.mp h).1
  unfold retain at h
  simp only at h
  split at h
  · exact .inl (hkept h)
  · split at h
    · exact .inl (hkept h)
    · split at h
      · rcases List.mem_append.mp h with h | h
        · exact .inl (hkept (List.mem_of_mem_tail h))
        · exact .inr (List.mem_singleton.mp h)
      · rcases List.mem_append.mp h with h | h
        · exact .inl (hkept h)
        · exact .inr (List.mem_singleton.mp h)

/-- A new record that nothing has to make room for. -/
theorem retain_new {now : Int} {days : Nat} {st : Store C} {r : C.Rec}
    (hst : ∀ x ∈ st.recs, fresh C now days x = true) (hr : fresh C now days r = true)
    (hnew : known st.recs (C.id r) = false) (hroom : st.recs.length < PERF_RECORDS) :
    retain now days st r = { st with recs := st.recs ++ [r] } := by
  have hkept : st.recs.filter (fresh C now days) = st.recs := List.filter_eq_self.mpr hst
  have hold : (st.recs.filter fun x => !fresh C now days x) = [] := by
    rw [List.filter_eq_nil_iff]
    intro x hx
    rw [hst x hx]
    decide
  unfold retain
  simp only [hkept, hold, hr, hnew, Bool.true_eq_false, Bool.false_eq_true, if_false,
    if_neg (Nat.ne_of_lt hroom), lt_irrefl, decide_false, Bool.or_false, List.append_nil]

/-- A load that the cap does not stop holds all it reads. -/
theorem loadRecords_new {now : Int} {days : Nat} {rs : List C.Rec} :
    ∀ {st : Store C}, (∀ x ∈ st.recs ++ rs, fresh C now days x = true) →
      ((st.recs ++ rs).map C.id).Nodup → (st.recs ++ rs).length ≤ PERF_RECORDS →
      loadRecords now days st rs = { st with recs := st.recs ++ rs } := by
  induction rs with
  | nil =>
      intro st _ _ _
      rw [List.append_nil]
      rfl
  | cons r rs ih =>
      intro st hfresh hnodup hlen
      have hnew : known st.recs (C.id r) = false := by
        rw [known, List.any_eq_false]
        intro x hx heq
        rw [List.map_append, List.map_cons] at hnodup
        exact List.disjoint_of_nodup_append hnodup (List.mem_map_of_mem hx)
          (of_decide_eq_true heq ▸ List.mem_cons_self)
      rw [List.length_append, List.length_cons] at hlen
      have hretain := retain_new (r := r) (fun x hx => hfresh x (List.mem_append_left _ hx))
        (hfresh r (List.mem_append_right _ List.mem_cons_self)) hnew (by omega)
      have hassoc : st.recs ++ [r] ++ rs = st.recs ++ r :: rs := by
        rw [List.append_assoc, List.singleton_append]
      rw [loadRecords, List.foldl_cons, hnew, if_neg Bool.false_ne_true, hretain]
      have := @ih { st with recs := st.recs ++ [r] } (by rwa [hassoc]) (by rwa [hassoc])
        (by rw [hassoc, List.length_append, List.length_cons]; exact hlen)
      rw [loadRecords] at this
      rw [this]
      simp only [hassoc]

/-- A load holds only what it read. -/
theorem loadRecords_recs {now : Int} {days : Nat} {rs : List C.Rec} :
    ∀ {st : Store C} {r : C.Rec}, r ∈ (loadRecords now days st rs).recs →
      r ∈ st.recs ∨ r ∈ rs := by
  induction rs with
  | nil => exact fun h => .inl h
  | cons x rs ih =>
      intro st r h
      rw [loadRecords, List.foldl_cons] at h
      rcases ih h with h | h
      · split at h
        · exact .inl h
        · rcases retain_recs h with h | h
          · exact .inl h
          · exact .inr (h ▸ List.mem_cons_self)
      · exact .inr (List.mem_cons_of_mem _ h)

theorem loadBoth_readBack {now : Int} {days : Nat} {d : Dir Name} {r : C.Rec}
    (h : r ∈ (loadBoth C now days none none d).recs) : r ∈ readBack C now d := by
  rcases loadRecords_recs h with h | h
  · cases h
  · exact h

/-! ## append -/

/-- Writing the line and syncing: a start of the line is behind what there was. -/
theorem perform_line {d : Dir Name} {old : Bytes} (hold : d .current = some old)
    (line : Bytes) (cut : Option Nat) :
    ∃ p q ok, p ++ q = line ∧ (ok = true → q = []) ∧ (cut = none → q = []) ∧
      perform cut (line.map (FileOp.put .current) ++ [.sync .current]) d =
        (Function.update d .current (some (old ++ p)), ok) := by
  rcases perform_puts line cut [.sync .current] hold with
    ⟨p, q, hpq, _, ⟨k, hk, _⟩, hperf⟩ | ⟨_, hperf⟩
  · refine ⟨p, q, false, hpq, fun h => (by cases h), fun h => ?_, hperf⟩
    rw [h] at hk
    cases hk
  · rcases perform_cons_cases (later cut line.length) (.sync .current) []
        (Function.update d .current (some (old ++ line))) with hstop | ⟨d', hstep, hgo⟩
    · exact ⟨line, [], false, List.append_nil _, fun _ => rfl, fun _ => rfl,
        hperf.trans hstop⟩
    · have hsame : d' = Function.update d .current (some (old ++ line)) := by
        rw [FileOp.step, Function.update_self] at hstep
        exact (Option.some.inj hstep).symm
      refine ⟨line, [], true, List.append_nil _, fun _ => rfl, fun _ => rfl, ?_⟩
      rw [hperf, hgo, hsame, perform]

/-- What an append leaves: a start of the line behind the current segment, or
behind a new one when it rotated. -/
structure Appended (d d' : Dir Name) (line p : Bytes) (rotated : Bool) : Prop where
  currentTmp : d' .currentTmp = d .currentTmp
  previousTmp : d' .previousTmp = d .previousTmp
  stays : rotated = false → contents d' .previous = contents d .previous ∧
    contents d' .current = contents d .current ++ p ∧ (rotates d line = true → p = [])
  moves : rotated = true → contents d' .previous = contents d .current ∧
    contents d' .current = p

theorem perform_append (d : Dir Name) (line : Bytes) (cut : Option Nat) :
    ∃ p q, p ++ q = line ∧ ((perform cut (appendOps d line) d).2 = true → q = []) ∧
      (cut = none → q = []) ∧
      Appended d (perform cut (appendOps d line) d).1 line p
        (rotates d line && cut.all fun k => decide (2 ≤ k)) := by
  -- The append stops before it has changed what a segment holds.
  have hstop : ∀ d' : Dir Name, (∃ k, cut = some k ∧ k < 2) →
      d' .currentTmp = d .currentTmp → d' .previousTmp = d .previousTmp →
      contents d' .previous = contents d .previous →
      contents d' .current = contents d .current →
      perform cut (appendOps d line) d = (d', false) →
      ∃ p q, p ++ q = line ∧ ((perform cut (appendOps d line) d).2 = true → q = []) ∧
        (cut = none → q = []) ∧
        Appended d (perform cut (appendOps d line) d).1 line p
          (rotates d line && cut.all fun k => decide (2 ≤ k)) := by
    intro d' ⟨k, hk, hlt⟩ hct hpt hprev hcur hperf
    have hrot : (rotates d line && cut.all fun k => decide (2 ≤ k)) = false := by
      rw [hk, Option.all_some, decide_eq_false (Nat.not_le.mpr hlt), Bool.and_false]
    rw [hperf, hrot]
    refine ⟨[], line, rfl, fun h => (by cases h), fun h => ?_,
      ⟨hct, hpt, fun _ => ⟨hprev, hcur.trans (List.append_nil _).symm, fun _ => rfl⟩,
        fun h => by cases h⟩⟩
    rw [h] at hk
    cases hk
  by_cases h0 : cut = some 0
  · refine hstop d ⟨0, h0, by decide⟩ rfl rfl rfl rfl ?_
    rw [h0]
    rfl
  · have hcreate : (FileOp.create Name.current).step d =
        some (Function.update d .current (some (contents d .current))) := rfl
    have hold : Function.update d Name.current (some (contents d .current)) .current =
        some (contents d .current) := Function.update_self ..
    cases hrot : rotates d line with
    | false =>
        obtain ⟨p, q, ok, hpq, hok, hnone, hperf⟩ := perform_line hold line (later cut 1)
        have hall : perform cut (appendOps d line) d =
            (Function.update (Function.update d .current (some (contents d .current))) .current
              (some (contents d .current ++ p)), ok) := by
          unfold appendOps
          rw [hrot, perform_cons h0 hcreate]
          exact hperf
        rw [hall]
        refine ⟨p, q, hpq, hok, fun h => hnone (by rw [h]; rfl), ⟨rfl, rfl, fun _ => ?_,
          fun h => by cases h⟩⟩
        refine ⟨rfl, rfl, fun h => ?_⟩
        rw [hrot] at h
        cases h
    | true =>
        have hops : perform cut (appendOps d line) d = perform (later cut 1)
            (.rename .current .previous :: .createNew .current :: .syncDir ::
              (line.map (FileOp.put .current) ++ [.sync .current]))
            (Function.update d .current (some (contents d .current))) := by
          unfold appendOps
          rw [hrot, perform_cons h0 hcreate]
          rfl
        by_cases h1 : later cut 1 = some 0
        · obtain ⟨k, hk, hle⟩ := later_zero.mp h1
          have := hstop (Function.update d .current (some (contents d .current)))
            ⟨k, hk, by omega⟩ rfl rfl rfl (by rw [contents, hold]; rfl) ?_
          · rwa [hrot] at this
          · rw [hops, h1]
            rfl
        · have hmoved : (true && cut.all fun k => decide (2 ≤ k)) = true := by
            cases cut with
            | none => rfl
            | some k =>
                have hk : ¬ k ≤ 1 := fun h => h1 (later_zero.mpr ⟨k, rfl, h⟩)
                rw [Option.all_some, decide_eq_true (by omega : 2 ≤ k)]
                rfl
          rw [hmoved]
          have hrename : (FileOp.rename Name.current .previous).step
              (Function.update d .current (some (contents d .current))) =
              some (Function.update (Function.update (Function.update d .current
                (some (contents d .current))) .previous (some (contents d .current))) .current
                none) := by
            rw [FileOp.step, hold]
            rfl
          generalize hd₂ : Function.update (Function.update (Function.update d .current
            (some (contents d .current))) .previous (some (contents d .current))) .current
            none = d₂ at hrename
          have hcur₂ : d₂ .current = none := by rw [← hd₂, Function.update_self]
          have hprev₂ : contents d₂ .previous = contents d .current := by
            rw [← hd₂]
            rfl
          have htmp₂ : d₂ .currentTmp = d .currentTmp ∧ d₂ .previousTmp = d .previousTmp := by
            rw [← hd₂]
            exact ⟨rfl, rfl⟩
          -- From here on only the new segment changes.
          have hleave : ∀ o p, o.getD [] = p → Appended d (Function.update d₂ .current o) line p
              true := by
            intro o p ho
            refine ⟨htmp₂.1, htmp₂.2, fun h => (by cases h), fun _ => ⟨hprev₂, ?_⟩⟩
            rw [contents, Function.update_self, ho]
          have hcutSome : ∀ n, later cut n = some 0 → cut ≠ none := by
            intro n hn hcut
            rw [hcut] at hn
            cases hn
          rw [hops, perform_cons h1 hrename, later_later]
          by_cases h2 : later cut (1 + 1) = some 0
          · refine ⟨[], line, rfl, fun h => ?_, fun h => absurd h (hcutSome _ h2), ?_⟩
            · rw [h2] at h
              cases h
            · rw [h2]
              have := hleave none [] rfl
              rwa [← hcur₂, Function.update_eq_self] at this
          · have hnew : (FileOp.createNew Name.current).step d₂ =
                some (Function.update d₂ .current (some [])) := by
              rw [FileOp.step, if_pos hcur₂]
            rw [perform_cons h2 hnew, later_later]
            by_cases h3 : later cut (1 + 1 + 1) = some 0
            · refine ⟨[], line, rfl, fun h => ?_, fun h => absurd h (hcutSome _ h3), ?_⟩
              · rw [h3] at h
                cases h
              · rw [h3]
                exact hleave (some []) [] rfl
            · obtain ⟨p, q, ok, hpq, hok, hnone, hperf⟩ := perform_line
                (d := Function.update d₂ .current (some [])) (Function.update_self ..) line
                (later cut (1 + 1 + 1 + 1))
              rw [perform_cons h3 rfl, later_later, hperf, Function.update_idem, List.nil_append]
              exact ⟨p, q, hpq, hok, fun h => hnone (by rw [h]; rfl), hleave (some p) p rfl⟩

theorem append_spec (d : Dir Name) (r : C.Rec) (cut : Option Nat) :
    ∃ p q, p ++ q = C.line r ∧ ((append C d r cut).2 = true → q = [] ∧ Fits C r) ∧
      (cut = none → Fits C r → q = []) ∧
      Appended d (append C d r cut).1 (C.line r) p (rotated C d r cut) := by
  unfold append rotated
  by_cases hfits : Fits C r
  · have hshort : ¬ LINE_CAP ≤ (C.line r).length := Nat.not_le.mpr hfits
    have hdec : decide ((C.line r).length < LINE_CAP) = true := decide_eq_true hfits
    rw [if_neg hshort, hdec, Bool.true_and]
    obtain ⟨p, q, hpq, hok, hnone, happ⟩ := perform_append d (C.line r) cut
    exact ⟨p, q, hpq, fun h => ⟨hok h, hfits⟩, fun h _ => hnone h, happ⟩
  · have hdec : decide ((C.line r).length < LINE_CAP) = false := decide_eq_false hfits
    rw [if_pos (Nat.le_of_not_lt hfits), hdec, Bool.false_and, Bool.false_and]
    exact ⟨[], C.line r, rfl, fun h => (by cases h), fun _ h => absurd h hfits, ⟨rfl, rfl,
      fun _ => ⟨rfl, (List.append_nil _).symm, fun _ => rfl⟩, fun h => by cases h⟩⟩

end GeistServe.Proofs
