import GeistServe.Perf.Load
import GeistServe.Proofs.RoundTrip

/-!
# A load line by line

The loop of `load` follows the lines as long as it sees where they end. It looks for the
newline with `strchr`, so a NUL in the last piece of a line hides the end: the loop goes on
dropping, and what it drops is the next line, which is neither recovered nor counted. So the
condition is on the NULs at the ends of lines, and on no others (`EndsSeen`).

The other half is what `append` writes: `record_json` has no control character and `parse`
takes its line back, unless one of the two counts is larger than `parse` allows.
-/

namespace GeistServe.Proofs

open GeistServe.Lib GeistServe.Geistd GeistServe.Json GeistServe.Perf

variable {C : Codec} {now : Int} {days : Nat}

/-- Every line with something behind it shows its end. -/
def EndsSeen (bs : Bytes) : Prop :=
  ∀ l ∈ (textLines [] bs).dropLast, (0 : UInt8) ∉ lastPiece LINE_CAP l

instance (bs : Bytes) : Decidable (EndsSeen bs) := by
  unfold EndsSeen
  infer_instance

/-- The load is that of the lines, each by itself. -/
def Isolates (now : Int) (days : Nat) (p : Loaded C) (bs : Bytes) : Prop :=
  load now days p (some bs) = (textLines [] bs).foldl (judgeLine now days) p

/-! ## The end of a line -/

theorem lastPiece_line (cap : Nat) (body : Bytes) :
    ∃ k, lastPiece cap (body ++ [newline]) = body.drop k ++ [newline] := by
  have hlen : (body ++ [newline]).length = body.length + 1 := by
    rw [List.length_append, List.length_singleton]
  refine ⟨body.length / (cap - 1) * (cap - 1), ?_⟩
  rw [lastPiece, hlen, Nat.add_sub_cancel,
    List.drop_append_of_le_length (Nat.div_mul_le_self _ _)]

theorem endSeen_lastPiece {body : Bytes} (hbody : newline ∉ body) :
    endSeen (lastPiece LINE_CAP (body ++ [newline])) = true ↔
      (0 : UInt8) ∉ lastPiece LINE_CAP (body ++ [newline]) := by
  obtain ⟨k, hk⟩ := lastPiece_line LINE_CAP body
  rw [hk, endSeen_line fun h => hbody (List.mem_of_mem_drop h)]
  simp [newline]

/-! ## One piece -/

theorem loadPiece_dropping (p : Loaded C) (piece : Bytes) :
    loadPiece now days (p, true) piece = (p, !endSeen piece) := rfl

theorem loadPiece_unended (p : Loaded C) {piece : Bytes} (h : endSeen piece = false) :
    loadPiece now days (p, false) piece = (p.bad, true) := by
  rw [loadPiece]
  dsimp only
  rw [h]
  rfl

/-- What is being dropped is dropped to its end. -/
theorem foldl_dropping (p : Loaded C) {front : List Bytes} (h : ∀ x ∈ front, newline ∉ x) :
    front.foldl (loadPiece now days) (p, true) = (p, true) := by
  induction front with
  | nil => rfl
  | cons x front ih =>
      rw [List.forall_mem_cons] at h
      rw [List.foldl_cons, loadPiece_dropping, endSeen_false h.1, Bool.not_false, ih h.2]

/-- A line that fits the buffer. -/
theorem loadPiece_line (p : Loaded C) {body : Bytes} (hbody : newline ∉ body)
    (hfits : (body ++ [newline]).length < LINE_CAP) :
    loadPiece now days (p, false) (body ++ [newline]) =
      (judgeLine now days p (body ++ [newline]), !endSeen (body ++ [newline])) := by
  by_cases hseen : endSeen (body ++ [newline]) = true
  · have hnul : (0 : UInt8) ∉ body ++ [newline] := by
      have h := (endSeen_line hbody).mp hseen
      simpa [newline] using h
    have hrecord : lineRecord C now (body ++ [newline]) = parseLine C now (body ++ [newline]) :=
      if_pos ⟨List.getLast?_concat, hfits, hnul⟩
    rw [loadPiece, judgeLine, hrecord, text_eq hnul, hseen]
    dsimp only
    rw [if_neg Bool.false_ne_true, if_pos rfl]
    split
    · rfl
    · rfl
  · have hnul : ¬ (0 : UInt8) ∉ body ++ [newline] := by
      intro h
      exact hseen ((endSeen_line hbody).mpr fun hmem => h (List.mem_append_left _ hmem))
    have hrecord : lineRecord C now (body ++ [newline]) = none := if_neg fun h => hnul h.2.2
    rw [Bool.not_eq_true] at hseen
    rw [loadPiece_unended p hseen, judgeLine, hrecord, hseen]
    rfl

theorem judgeLine_bad (p : Loaded C) {l : Bytes}
    (h : ¬ (l.getLast? = some newline ∧ l.length < LINE_CAP)) :
    judgeLine now days p l = p.bad := by
  have hrecord : lineRecord C now l = none := if_neg fun hl => h ⟨hl.1, hl.2.1⟩
  rw [judgeLine, hrecord]

/-! ## One line -/

/-- What the loop makes of a line: it is judged, unless the line before it hid its end. -/
theorem load_line (p : Loaded C) (d : Bool) {body : Bytes} (hbody : newline ∉ body)
    (rest : Bytes) :
    (fgetsAll LINE_CAP [] (body ++ newline :: rest)).foldl (loadPiece now days) (p, d) =
      (fgetsAll LINE_CAP [] rest).foldl (loadPiece now days)
        (if d then p else judgeLine now days p (body ++ [newline]),
          !endSeen (lastPiece LINE_CAP (body ++ [newline]))) := by
  obtain ⟨front, hpieces, hfront, hshort⟩ := @fgetsAll_line LINE_CAP (by decide) body hbody rest
  rw [hpieces, List.foldl_append, List.foldl_cons]
  congr 1
  cases d with
  | true =>
      rw [foldl_dropping p hfront, loadPiece_dropping]
      rfl
  | false =>
      rw [if_neg Bool.false_ne_true]
      cases front with
      | nil =>
          have hfits := hshort.mp rfl
          rw [List.foldl_nil, lastPiece_short hfits, loadPiece_line p hbody hfits]
      | cons x front =>
          have hlong : ¬ (body ++ [newline]).length < LINE_CAP :=
            fun h => absurd (hshort.mpr h) (List.cons_ne_nil _ _)
          rw [List.forall_mem_cons] at hfront
          rw [List.foldl_cons, loadPiece_unended p (endSeen_false hfront.1),
            foldl_dropping _ hfront.2, loadPiece_dropping, judgeLine_bad p fun h => hlong h.2]

/-- What it makes of a text that has no newline. -/
theorem load_tail (p : Loaded C) (d : Bool) {body : Bytes} (hbody : newline ∉ body)
    (hne : body ≠ []) :
    (fgetsAll LINE_CAP [] body).foldl (loadPiece now days) (p, d) =
      (if d then p else judgeLine now days p body, true) := by
  obtain ⟨first, front, hpieces, hall⟩ := @fgetsAll_tail LINE_CAP (by decide) body hbody hne
  rw [hpieces]
  cases d with
  | true =>
      rw [foldl_dropping p hall]
      rfl
  | false =>
      have hlast : body.getLast? ≠ some newline :=
        fun h => hbody (List.mem_of_getLast? h)
      rw [List.forall_mem_cons] at hall
      rw [List.foldl_cons, loadPiece_unended p (endSeen_false hall.1), foldl_dropping _ hall.2,
        if_neg Bool.false_ne_true, judgeLine_bad p fun h => hlast h.1]

/-! ## All lines -/

theorem judgeLine_outcomes (p : Loaded C) (l : Bytes) :
    (judgeLine now days p l).outcomes.length = p.outcomes.length + 1 := by
  have hbad : p.bad.outcomes.length = p.outcomes.length + 1 := List.length_append
  have hgood : ∀ r, (p.good now days r).outcomes.length = p.outcomes.length + 1 := by
    intro r
    rw [Loaded.good]
    split
    · exact List.length_append
    · exact List.length_append
  rw [judgeLine]
  split
  · exact hbad
  · exact hgood _

theorem foldl_judgeLine_outcomes (ls : List Bytes) : ∀ p : Loaded C,
    (ls.foldl (judgeLine now days) p).outcomes.length = p.outcomes.length + ls.length := by
  induction ls with
  | nil => exact fun _ => rfl
  | cons l ls ih =>
      intro p
      rw [List.foldl_cons, ih, judgeLine_outcomes, List.length_cons]
      omega

/-- A load has at most one outcome for each line, and none for one that is dropped. -/
theorem outcomes_le (bs : Bytes) : ∀ (p : Loaded C) (d : Bool),
    (((fgetsAll LINE_CAP [] bs).foldl (loadPiece now days) (p, d)).1.outcomes.length +
      if d ∧ bs ≠ [] then 1 else 0) ≤ p.outcomes.length + (textLines [] bs).length := by
  induction bs using text_induction with
  | nil =>
      intro p d
      rw [if_neg fun h => h.2 rfl]
      exact Nat.le_add_right _ _
  | tail body hne hbody =>
      intro p d
      rw [load_tail p d hbody hne, textLines_tail hbody, List.nil_append, if_neg hne,
        List.length_singleton]
      cases d with
      | true => exact Nat.le_of_eq (congrArg _ (if_pos ⟨rfl, hne⟩))
      | false =>
          have h := @judgeLine_outcomes C now days p body
          simp only [Bool.false_eq_true, if_false, false_and, h, Nat.le_refl]
  | line body rest hbody ih =>
      intro p d
      rw [load_line p d hbody, textLines_newline hbody, List.length_cons]
      have hrest := ih (if d then p else judgeLine now days p (body ++ [newline]))
        (!endSeen (lastPiece LINE_CAP (body ++ [newline])))
      have hne : body ++ newline :: rest ≠ [] :=
        List.append_ne_nil_of_right_ne_nil _ (List.cons_ne_nil _ _)
      cases d with
      | true =>
          have hone : (if true = true ∧ body ++ newline :: rest ≠ [] then 1 else 0) = 1 :=
            if_pos ⟨rfl, hne⟩
          rw [hone]
          simp only [if_true] at hrest ⊢
          omega
      | false =>
          have h := @judgeLine_outcomes C now days p (body ++ [newline])
          simp only [Bool.false_eq_true, if_false, false_and] at hrest ⊢
          omega

theorem endsSeen_cons {l : Bytes} {ls : List Bytes} :
    (∀ x ∈ (l :: ls).dropLast, (0 : UInt8) ∉ lastPiece LINE_CAP x) ↔
      (ls ≠ [] → (0 : UInt8) ∉ lastPiece LINE_CAP l) ∧
        ∀ x ∈ ls.dropLast, (0 : UInt8) ∉ lastPiece LINE_CAP x := by
  cases ls with
  | nil => simp
  | cons m ls => rw [List.dropLast_cons_cons, List.forall_mem_cons, forall_prop_of_true
      (List.cons_ne_nil _ _)]

theorem textLines_ne_nil {bs : Bytes} (h : bs ≠ []) : textLines [] bs ≠ [] := by
  induction bs using text_induction with
  | nil => exact absurd rfl h
  | tail body hne hbody =>
      rw [textLines_tail hbody, List.nil_append, if_neg hne]
      exact List.cons_ne_nil _ _
  | line body rest hbody _ =>
      rw [textLines_newline hbody]
      exact List.cons_ne_nil _ _

/-- The loop judges every line by itself exactly when it sees the ends. By induction on the
lines: behind one that hides its end an outcome is missing for good. -/
theorem loop_isolates_iff (bs : Bytes) : ∀ p : Loaded C,
    ((fgetsAll LINE_CAP [] bs).foldl (loadPiece now days) (p, false)).1 =
      (textLines [] bs).foldl (judgeLine now days) p ↔ EndsSeen bs := by
  induction bs using text_induction with
  | nil => exact fun _ => ⟨fun _ l hl => absurd hl List.not_mem_nil, fun _ => rfl⟩
  | tail body hne hbody =>
      intro p
      rw [EndsSeen, load_tail p false hbody hne, textLines_tail hbody, List.nil_append,
        if_neg hne]
      exact ⟨fun _ l hl => absurd hl List.not_mem_nil, fun _ => rfl⟩
  | line body rest hbody ih =>
      intro p
      rw [EndsSeen, load_line p false hbody, textLines_newline hbody, List.nil_append,
        endsSeen_cons, List.foldl_cons, if_neg Bool.false_ne_true]
      by_cases hseen : endSeen (lastPiece LINE_CAP (body ++ [newline])) = true
      · have hnul := (endSeen_lastPiece hbody).mp hseen
        rw [hseen, Bool.not_true, ih]
        exact ⟨fun h => ⟨fun _ => hnul, h⟩, fun h => h.2⟩
      · have hnul := fun h => hseen ((endSeen_lastPiece hbody).mpr h)
        rw [Bool.not_eq_true] at hseen
        rw [hseen, Bool.not_false]
        by_cases hrest : rest = []
        · rw [hrest]
          exact ⟨fun _ => ⟨fun h => absurd rfl h, fun l hl => absurd hl List.not_mem_nil⟩,
            fun _ => rfl⟩
        · constructor
          · intro heq
            have hle := @outcomes_le C now days rest
              (judgeLine now days p (body ++ [newline])) true
            rw [if_pos ⟨rfl, hrest⟩, heq, foldl_judgeLine_outcomes] at hle
            omega
          · intro h
            exact absurd (h.1 (textLines_ne_nil hrest)) hnul

theorem isolates_iff {bs : Bytes} (h : bs.length ≤ SEGMENT_BYTES) (p : Loaded C) :
    Isolates now days p bs ↔ EndsSeen bs := by
  rw [Isolates, load, if_neg (Nat.not_lt.mpr h)]
  exact loop_isolates_iff bs p

/-! ## The records are those of the segment -/

theorem parseLine_eq (now : Int) (l : Bytes) :
    ((C.decode l).bind fun r => if C.valid now r then some r else none) = parseLine C now l := by
  rw [parseLine]
  cases C.decode l with
  | none => rfl
  | some r => rfl

/-- The scan of the bytes is that of the pieces: the last one adds nothing without a newline. -/
theorem scan_fgetsAll {cap : Nat} (bs : Bytes) : ∀ st : Scan, newline ∉ st.acc →
    (scan cap st bs).out = ((fgetsAll cap st.acc bs).foldl Scan.chunk st).out := by
  have hchunk : ∀ (st : Scan) (acc piece : Bytes),
      st.chunk piece = Scan.chunk { st with acc := acc } piece := fun _ _ _ => rfl
  induction bs with
  | nil =>
      intro st hacc
      rw [fgetsAll]
      split
      · rfl
      · rw [List.foldl_cons, List.foldl_nil, chunk_unended hacc]
        rfl
  | cons b bs ih =>
      intro st hacc
      rw [scan_cons, fgetsAll, Scan.byte, List.length_append, List.length_singleton]
      by_cases hend : b = newline ∨ st.acc.length + 1 + 1 = cap
      · have hclean := chunk_acc st (st.acc ++ [b])
        have hnew : newline ∉ (st.chunk (st.acc ++ [b])).acc := by
          rw [hclean]
          exact List.not_mem_nil
        have hnext := ih (st.chunk (st.acc ++ [b])) hnew
        rw [if_pos hend, if_pos hend, List.foldl_cons, hnext, hclean]
      · have hnew : newline ∉ st.acc ++ [b] := by
          rw [List.mem_append, List.mem_singleton]
          rintro (h | h)
          · exact hacc h
          · exact hend (.inl h.symm)
        have hnext := ih { st with acc := st.acc ++ [b] } hnew
        rw [if_neg hend, if_neg hend, hnext]
        cases hps : fgetsAll cap (st.acc ++ [b]) bs with
        | nil => rfl
        | cons q qs => rw [List.foldl_cons, List.foldl_cons, ← hchunk]

theorem loadRecords_append (st : Store C) (rs rs' : List C.Rec) :
    loadRecords now days st (rs ++ rs') = loadRecords now days (loadRecords now days st rs) rs' :=
  List.foldl_append

theorem good_st (p : Loaded C) (r : C.Rec) :
    (p.good now days r).st = loadRecords now days p.st [r] := by
  rw [Loaded.good, loadRecords, List.foldl_cons, List.foldl_nil]
  split
  · rfl
  · rfl

/-- A load retains the records that `readSegment` finds. -/
theorem load_st (now : Int) (days : Nat) (p : Loaded C) (bs : Bytes) :
    (load now days p (some bs)).st =
      loadRecords now days p.st (readSegment C now none (some bs)) := by
  have hstep : ∀ (q : Loaded C × Bool) (st : Scan) (piece : Bytes),
      q.2 = st.dropping ∧ q.1.st = loadRecords now days p.st (st.out.filterMap (parseLine C now)) →
      (loadPiece now days q piece).2 = (st.chunk piece).dropping ∧
        (loadPiece now days q piece).1.st =
          loadRecords now days p.st ((st.chunk piece).out.filterMap (parseLine C now)) := by
    rintro ⟨q, d⟩ st piece ⟨hd, hst⟩
    dsimp only at hd hst
    obtain rfl := hd
    rw [loadPiece, Scan.chunk]
    dsimp only
    split
    · exact ⟨rfl, hst⟩
    · split
      · next hseen =>
          have hseen' : (piece.takeWhile (· ≠ 0)).contains newline = true := hseen
          rw [if_pos hseen', List.filterMap_append]
          cases hparse : parseLine C now (piece.takeWhile (· ≠ 0)) with
          | none =>
              rw [List.filterMap_cons_none hparse, List.filterMap_nil, List.append_nil]
              exact ⟨rfl, hst⟩
          | some r =>
              rw [List.filterMap_cons_some hparse, List.filterMap_nil, loadRecords_append, ← hst]
              exact ⟨rfl, good_st q r⟩
      · next hseen =>
          have hseen' : ¬ (piece.takeWhile (· ≠ 0)).contains newline = true := hseen
          rw [if_neg hseen']
          exact ⟨rfl, hst⟩
  have hrun : ∀ (ps : List Bytes) (q : Loaded C × Bool) (st : Scan),
      q.2 = st.dropping ∧ q.1.st = loadRecords now days p.st (st.out.filterMap (parseLine C now)) →
      (ps.foldl (loadPiece now days) q).1.st =
        loadRecords now days p.st ((ps.foldl Scan.chunk st).out.filterMap (parseLine C now)) := by
    intro ps
    induction ps with
    | nil => exact fun q st h => h.2
    | cons piece ps ih => exact fun q st h => ih _ _ (hstep q st piece h)
  rw [load, readSegment]
  split
  · rfl
  · rw [hrun _ (p, false) {} ⟨rfl, rfl⟩, records, readLines,
      scan_fgetsAll bs {} List.not_mem_nil]
    simp only [parseLine_eq]

/-! ## What append writes -/

theorem clean_append_iff {s t : Bytes} : Clean (s ++ t) ↔ Clean s ∧ Clean t :=
  ⟨fun h => ⟨fun c hc => h c (List.mem_append_left _ hc),
    fun c hc => h c (List.mem_append_right _ hc)⟩, fun h => h.1.append h.2⟩

instance (s : Bytes) : Decidable (Clean s) := by
  unfold Clean
  infer_instance

theorem clean_appQuote (s : CStr) : Clean (appQuote s) := by
  have hmark : Clean [34] := by decide
  exact hmark.append ((clean_quoted s).append hmark)

theorem clean_number (n : Double) : Clean (number n) := by
  have hbyte : ∀ c, NumeralByte c → 32 ≤ c := by
    have hdigit : ∀ c ∈ ([48, 49, 50, 51, 52, 53, 54, 55, 56, 57] : List UInt8), 32 ≤ c := by
      decide
    rintro c (h | rfl | rfl | rfl | rfl)
    · exact hdigit c (isDigit_mem h)
    all_goals decide
  have hnull : Clean (lit "null") := by decide
  rw [number.eq_def]
  split
  · split
    · exact hnull
    · exact fun c hc => hbyte c ((written_general (by decide) _).2 c hc)
  · exact hnull

theorem clean_count (n : Nat) : Clean (Perf.decimal n) := by
  intro c hc
  have h := decimal_bytes n c hc
  rw [UInt8.le_iff_toNat_le]
  exact le_trans (by decide) h.1

theorem clean_truth (b : Bool) : Clean (truth b) := by
  cases b with
  | false => exact (by decide : Clean (lit "false"))
  | true => exact (by decide : Clean (lit "true"))

theorem clean_value (s : CStr) : Clean (value s) := by
  rw [value]
  split
  · exact (by decide : Clean (lit "null"))
  · exact clean_appQuote s

theorem clean_ite {p : Prop} [Decidable p] {s t : Bytes} (hs : Clean s) (ht : Clean t) :
    Clean (if p then s else t) := by
  split
  · exact hs
  · exact ht

theorem clean_printMembers {ms : List (Bytes × Tree)}
    (hms : ∀ m ∈ ms, Clean m.1 ∧ Clean m.2.print) :
    ∀ {sep : Bytes}, Clean sep → Clean (printMembers sep ms) := by
  have hquote : Clean [34] := by decide
  have hcolon : Clean [34, 58] := by decide
  have hcomma : Clean [44] := by decide
  induction ms with
  | nil =>
      intro sep _
      rw [printMembers]
      exact fun c hc => absurd hc List.not_mem_nil
  | cons m ms ih =>
      obtain ⟨key, v⟩ := m
      intro sep hsep
      rw [List.forall_mem_cons] at hms
      have htext : printMembers sep ((key, v) :: ms) =
          sep ++ ([34] ++ (key ++ ([34, 58] ++ (v.print ++ printMembers [44] ms)))) := by
        rw [printMembers]
        rfl
      rw [htext]
      exact hsep.append (hquote.append (hms.1.1.append (hcolon.append
        (hms.1.2.append (ih hms.2 hcomma)))))

theorem clean_obj {ms : List (Bytes × Tree)} (hms : ∀ m ∈ ms, Clean m.1 ∧ Clean m.2.print) :
    Clean (Tree.obj ms).print := by
  have hopen : Clean [123] := by decide
  have hclose : Clean [125] := by decide
  have htext : (Tree.obj ms).print = [123] ++ (printMembers [] ms ++ [125]) := by
    rw [Tree.print]
    rfl
  rw [htext]
  exact hopen.append ((clean_printMembers hms fun c hc => absurd hc List.not_mem_nil).append hclose)

/-- Keys that are fixed, and values that are clean. -/
theorem clean_members {ms : List (Bytes × Tree)}
    (hkeys : (ms.map Prod.fst).all (fun k => decide (Clean k)) = true)
    (hms : ∀ m ∈ ms, Clean m.2.print) : ∀ m ∈ ms, Clean m.1 ∧ Clean m.2.print :=
  fun m hm => ⟨of_decide_eq_true (List.all_eq_true.mp hkeys _ (List.mem_map_of_mem hm)), hms m hm⟩

theorem clean_engine (e : Perf.AppEngine) : Clean (Tree.obj (engineMembers e)).print := by
  have hlib : Clean (Tree.obj (libMembers e)).print := by
    refine clean_obj (clean_members rfl ?_)
    simp only [libMembers, List.forall_mem_cons, print_valueTree, print_quoteTree, clean_value,
      clean_appQuote, true_and]
    exact fun t ht => absurd ht List.not_mem_nil
  have hnull : Clean (lit "null") := by decide
  refine clean_obj (clean_members rfl ?_)
  simp only [engineMembers, List.forall_mem_cons, print_ite, print_valueTree, print_quoteTree,
    print_nullTree, clean_value, hlib, clean_ite (clean_appQuote _) hnull, true_and]
  exact fun t ht => absurd ht List.not_mem_nil

theorem clean_memory (m : MemoryRecord) (rss peakRss : Double) (n : Nat) :
    Clean (Tree.obj (memoryMembers m rss peakRss n)).print := by
  have hnull : Clean (lit "null") := by decide
  have hinterval : Clean (lit "2000") := by decide
  refine clean_obj (clean_members rfl ?_)
  simp only [memoryMembers, List.forall_mem_cons, print_ite, print_valueTree, print_quoteTree,
    print_nullTree, print_numberTree, print_countTree, print_truthTree, print_prim, clean_value,
    clean_number, clean_appQuote, clean_count, hinterval, hnull,
    clean_ite hnull (clean_appQuote _), clean_ite (clean_appQuote _) hnull,
    clean_ite (clean_truth _) hnull, true_and]
  exact fun t ht => absurd ht List.not_mem_nil

theorem clean_tail (r : PerfRecord) : ∀ m ∈ tailMembers r, Clean m.1 ∧ Clean m.2.print := by
  have hnull : Clean (lit "null") := by decide
  have hinterval : Clean (lit "2000") := by decide
  have hreason : Clean (Tree.str (lit "legacy_field_use_memory_scopes")).print := by
    rw [Tree.print]
    decide
  refine clean_members rfl ?_
  simp only [tailMembers, List.forall_mem_cons, print_quoteTree, print_nullTree,
    print_numberTree, print_countTree, print_truthTree, print_prim, clean_number, clean_appQuote,
    clean_count, clean_truth, clean_memory, hinterval, hnull, hreason, true_and]
  exact fun t ht => absurd ht List.not_mem_nil

/-- The text of a record has no control character. -/
theorem clean_record (r : PerfRecord) : Clean (Tree.obj (recordMembers r)).print := by
  have hschema : Clean (if r.schema = 1 then lit "1" else lit "2") :=
    clean_ite (by decide) (by decide)
  have hhead : ∀ m ∈ headMembers r, Clean m.1 ∧ Clean m.2.print := by
    refine clean_members rfl ?_
    simp only [headMembers, List.forall_mem_cons, print_prim, print_truthTree, hschema,
      clean_truth, true_and]
    exact fun t ht => absurd ht List.not_mem_nil
  have hengine : ∀ m ∈ engineMember r, Clean m.1 ∧ Clean m.2.print := by
    rw [engineMember]
    split
    · refine clean_members rfl ?_
      simp only [List.forall_mem_cons, clean_engine, true_and]
      exact fun t ht => absurd ht List.not_mem_nil
    · exact fun t ht => absurd ht List.not_mem_nil
  refine clean_obj ?_
  rw [recordMembers, List.forall_mem_append, List.forall_mem_append]
  exact ⟨hhead, hengine, clean_tail r⟩

/-- A line of `record_json`. -/
theorem recordJson_isLine (r : PerfRecord) : IsLine (recordJson r) := by
  have hclean := clean_record r
  refine ⟨_, recordJson_eq r, hclean.one_line, fun hnul => ?_⟩
  exact absurd (hclean 0 hnul) (by decide)

theorem lineRecord_line (now : Int) {l : Bytes} (h : IsLine l) (hfits : l.length < LINE_CAP) :
    lineRecord C now l = parseLine C now l := by
  obtain ⟨body, hbody, _, hnul⟩ := h.ex
  refine if_pos ⟨?_, hfits, ?_⟩
  · rw [hbody]
    exact List.getLast?_concat
  · rw [hbody]
    simpa [newline] using hnul

theorem parseLine_text (now : Int) (l : Bytes) : parseLine textCodec now l = parse now l := by
  rw [parseLine, parse]
  rfl

/-- `load` finds a record in the line. -/
def ReadBack (now : Int) (r : PerfRecord) : Prop :=
  ∃ r', lineRecord textCodec now (recordJson r) = some r' ∧ r'.id = r.id

/-- A line that `append` can write is one that `load` reads back, unless a count is too
large. -/
theorem readBack_iff {now now' : Int} {r : PerfRecord} (hvalid : r.valid now = true)
    (hnow : now ≤ now') (hschema : r.schema = 1 ∨ r.schema = 2) (hshape : r.Shaped)
    (hdoubles : ∀ x ∈ numbersOf r, IsDouble x) (hline : (recordJson r).length < LINE_CAP) :
    ReadBack now' r ↔ Countable r := by
  obtain ⟨hread, hnone⟩ := parse_recordJson hvalid hnow hschema hshape hdoubles
  have hrecord : lineRecord textCodec now' (recordJson r) = parse now' (recordJson r) :=
    (lineRecord_line now' (recordJson_isLine r) hline).trans (parseLine_text _ _)
  rw [ReadBack, hrecord]
  constructor
  · rintro ⟨r', hr', _⟩
    by_contra hc
    rw [hnone hc] at hr'
    cases hr'
  · intro hc
    exact ⟨restored r, hread hc, rfl⟩

/-- A load judges every line by itself exactly when the lines show their ends, and a line of
`append` is read back exactly when its counts are in range. -/
theorem load_isolates {p : Loaded textCodec} {bs : Bytes} {now' : Int} {r : PerfRecord}
    (hsize : bs.length ≤ SEGMENT_BYTES) (hvalid : r.valid now = true) (hnow : now ≤ now')
    (hschema : r.schema = 1 ∨ r.schema = 2) (hshape : r.Shaped)
    (hdoubles : ∀ x ∈ numbersOf r, IsDouble x) (hline : (recordJson r).length < LINE_CAP) :
    (Isolates now' days p bs ↔ EndsSeen bs) ∧ (ReadBack now' r ↔ Countable r) :=
  ⟨isolates_iff hsize p, readBack_iff hvalid hnow hschema hshape hdoubles hline⟩

theorem load_isolates_short :
    (Isolates 1700000001 90 ({} : Loaded textCodec) [120, newline, 121] ↔
      EndsSeen [120, newline, 121]) ∧
      (ReadBack 1700000001 (replyOf (lit "modified")) ↔
        Countable (replyOf (lit "modified"))) :=
  load_isolates (r := replyOf (lit "modified")) (by decide) (by decide +kernel)
    (Int.le_refl 1700000001) (.inr rfl) (replyOf_shaped (by decide)) (replyOf_doubles _)
    (by decide +kernel)

/-- A NUL in front of a newline, and then the line of a record: it is lost. -/
theorem load_isolates_nul : ¬ ∀ (now : Int) (days : Nat) (p : Loaded textCodec) (bs : Bytes),
    bs.length ≤ SEGMENT_BYTES → Isolates now days p bs := by
  intro h
  have hsize : (0 :: newline :: recordJson (replyOf (lit "modified"))).length ≤
      SEGMENT_BYTES := by decide +kernel
  have hends := (isolates_iff hsize _).mp (h 1700000001 90 {} _ hsize)
  have hline : textLines [] (0 :: newline :: recordJson (replyOf (lit "modified"))) =
      [0, newline] :: textLines [] (recordJson (replyOf (lit "modified"))) :=
    @textLines_newline [0] (by decide) _ []
  obtain ⟨body, hbody, _⟩ := (recordJson_isLine (replyOf (lit "modified"))).ex
  have hne : textLines [] (recordJson (replyOf (lit "modified"))) ≠ [] := by
    refine textLines_ne_nil ?_
    rw [hbody]
    exact List.append_ne_nil_of_right_ne_nil _ (List.cons_ne_nil _ _)
  rw [EndsSeen, hline, endsSeen_cons] at hends
  exact absurd (hends.1 hne) (by decide)

end GeistServe.Proofs
