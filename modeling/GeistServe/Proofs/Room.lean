import GeistServe.Proofs.Load
import GeistServe.Proofs.Split

/-!
# Room for the whole history

The export has a buffer of 20 MiB and a compaction two segments of 10 MiB, whatever is in the
store. `full_store_fits_iff` says when they take all of it: the lines together are below the
buffer, and can be cut between two records. Lines of up to 2559 bytes always fit, as many of
them as the store holds (`hasRoom_of_short`); but `append` takes lines of up to 8191 bytes, and
8192 records of 2560 bytes are already too much.
-/

namespace GeistServe.Proofs

open GeistServe.Lib GeistServe.Geistd GeistServe.Json GeistServe.Perf

variable {C : Codec}

/-- `perf_export` gives all lines, and `compact_history` writes all of them. -/
def Served (j : Journal C) : Prop :=
  exportData (exported j) = some (lines C (exported j)) ∧ compactReturns j true none = true ∧
    ∀ cleans, ∃ as bs, as ++ bs = lines C (exported j) ∧
      (compactHistory j true none cleans).dir .previous = some as ∧
      (compactHistory j true none cleans).dir .current = some bs

/-- The lines fit the export, and a cut between two records leaves two parts that fit a
segment each. No temporary file is in the way. -/
structure HasRoom (j : Journal C) : Prop where
  total : (lines C (exported j)).length < 2 * SEGMENT_BYTES
  cut : ∃ rs ss, rs ++ ss = exported j ∧ (lines C rs).length ≤ SEGMENT_BYTES ∧
    (lines C ss).length ≤ SEGMENT_BYTES
  previousTmp : j.dir .previousTmp = none
  currentTmp : j.dir .currentTmp = none

/-! ## Cuts -/

/-- Whole lines in front of whole lines are some of these. -/
theorem cut_of_sealed (rs : List C.Rec) (hlines : ∀ r ∈ rs, IsLine (C.line r)) :
    ∀ {as bs : Bytes}, as ++ bs = lines C rs → Sealed as →
      ∃ xs ys, xs ++ ys = rs ∧ lines C xs = as ∧ lines C ys = bs := by
  induction rs with
  | nil =>
      intro as bs hsplit _
      obtain ⟨rfl, rfl⟩ := List.append_eq_nil_iff.mp hsplit
      exact ⟨[], [], rfl, rfl, rfl⟩
  | cons r rs ih =>
      intro as bs hsplit has
      rw [List.forall_mem_cons] at hlines
      have hcons : lines C (r :: rs) = C.line r ++ lines C rs := rfl
      rw [hcons] at hsplit
      rcases has with rfl | hlast
      · exact ⟨[], r :: rs, rfl, rfl, by rw [hcons, ← hsplit, List.nil_append]⟩
      · obtain ⟨body, hbody, hnew, _⟩ := hlines.1.ex
        rcases List.append_eq_append_iff.mp hsplit with ⟨cs, hline, hbs⟩ | ⟨cs, has, hrest⟩
        · -- the first newline of the line is its end
          have hnil : cs = [] := by
            by_contra hne
            obtain ⟨front, c, rfl⟩ := (List.eq_nil_or_concat cs).resolve_left hne
            rw [List.concat_eq_append, hbody, ← List.append_assoc] at hline
            have hfront := (List.append_inj' hline rfl).1
            exact hnew (hfront ▸ List.mem_append_left _ (List.mem_of_getLast? hlast))
          rw [hnil, List.append_nil] at hline
          rw [hnil, List.nil_append] at hbs
          refine ⟨[r], rs, rfl, ?_, hbs.symm⟩
          rw [← hline, lines, List.map_singleton, List.flatten_singleton]
        · have hsealed : Sealed cs := by
            refine @sealed_right (C.line r) cs (.inr ?_)
            rwa [← has]
          obtain ⟨xs, ys, hxs, hlxs, hlys⟩ := ih hlines.2 hrest.symm hsealed
          refine ⟨r :: xs, ys, by rw [List.cons_append, hxs], ?_, hlys⟩
          rw [has, ← hlxs]
          rfl

theorem lines_sealed {rs : List C.Rec} (hlines : ∀ r, IsLine (C.line r)) :
    Sealed (lines C rs) := by
  refine sealed_lines fun l hl => ?_
  obtain ⟨r, _, rfl⟩ := List.mem_map.mp hl
  obtain ⟨body, hbody, _⟩ := (hlines r).ex
  rw [hbody]
  exact List.getLast?_concat

/-! ## When it fits -/

/-- Both replacements are made exactly when both temporary names are free. -/
theorem perform_compactOps_iff (d : Dir Name) (data : Bytes) :
    (perform none (compactOps data) d).2 = true ↔
      d .previousTmp = none ∧ d .currentTmp = none := by
  constructor
  · intro h
    rw [compactOps] at h
    rcases perform_replace .previousTmp .previous (data.take (splitAt data)) none
        (replaceOps .currentTmp .current (data.drop (splitAt data))) d with
      ⟨_, hfails, _⟩ | ⟨hprevious, _, ⟨hcut, _⟩ | ⟨_, hperform⟩⟩
    · exact absurd (h.symm.trans hfails) Bool.noConfusion
    · cases hcut
    · refine ⟨hprevious, ?_⟩
      rw [hperform] at h
      rcases perform_replace .currentTmp .current (data.drop (splitAt data)) none []
          (replaced d .previousTmp .previous (data.take (splitAt data))) with
        ⟨_, hfails, _⟩ | ⟨hcurrent, _, _⟩
      · rw [List.append_nil] at hfails
        exact absurd (h.symm.trans hfails) Bool.noConfusion
      · exact hcurrent
  · rintro ⟨hprevious, hcurrent⟩
    obtain ⟨d', hperform, _⟩ := perform_compactOps data hprevious hcurrent
    rw [hperform]

theorem served_iff (hlines : ∀ r, IsLine (C.line r)) (j : Journal C) : Served j ↔ HasRoom j := by
  have hsealed : Sealed (lines C (exported j)) := lines_sealed hlines
  constructor
  · rintro ⟨hexport, hreturns, _⟩
    have hdata : compactData C j.now j.days j.st.recs = some (lines C (exported j)) ∧
        ¬ GivesUp j := by
      rcases compactData_cases j with ⟨_, hnone⟩ | ⟨hfits, hsome⟩
      · rw [compactReturns, if_pos rfl, hnone] at hreturns
        cases hreturns
      · exact ⟨hsome, hfits⟩
    obtain ⟨hdata, hfits⟩ := hdata
    rw [GivesUp, not_or, Nat.not_le, Nat.not_lt] at hfits
    rw [compactReturns, if_pos rfl, hdata] at hreturns
    obtain ⟨hprevious, hcurrent⟩ := (perform_compactOps_iff _ _).mp hreturns
    have hhalves := halves_of_splitAt hsealed hfits.2
    obtain ⟨rs, ss, hrs, holder, hnewer⟩ :=
      cut_of_sealed (exported j) (fun r _ => hlines r) hhalves.whole hhalves.older
    refine ⟨hfits.1, ⟨rs, ss, hrs, ?_, ?_⟩, hprevious, hcurrent⟩
    · rw [holder]
      exact hhalves.olderFits
    · rw [hnewer]
      exact hhalves.newerFits
  · rintro ⟨htotal, ⟨rs, ss, hrs, holder, hnewer⟩, hprevious, hcurrent⟩
    have hhalves : Halves (lines C (exported j)) (lines C rs) (lines C ss) :=
      { whole := by rw [← lines_append, hrs]
        older := lines_sealed hlines
        newer := lines_sealed hlines
        olderFits := holder
        newerFits := hnewer }
    have hsplit := splitAt_of_halves hsealed hhalves
    have hdata : compactData C j.now j.days j.st.recs = some (lines C (exported j)) := by
      rcases compactData_cases j with ⟨hgives, _⟩ | ⟨_, hsome⟩
      · rw [GivesUp] at hgives
        omega
      · exact hsome
    obtain ⟨d', hperform, hfirst, hsecond⟩ :=
      perform_compactOps (lines C (exported j)) hprevious hcurrent
    refine ⟨if_pos htotal, ?_, fun cleans => ?_⟩
    · rw [compactReturns, if_pos rfl, hdata]
      exact congrArg Prod.snd hperform
    · refine ⟨_, _, List.take_append_drop (splitAt (lines C (exported j))) _, ?_⟩
      rw [compactHistory]
      simp only [if_true, hdata, hperform, Bool.not_true, Bool.and_false, Bool.false_eq_true,
        if_false]
      exact ⟨hfirst, hsecond⟩

/-! ## Short lines -/

/-- The largest end of a list that a bound allows misses it by less than one element. -/
theorem exists_tail {α : Type} {size : α → Nat} {m : Nat} (bound : Nat) {xs : List α}
    (h : ∀ x ∈ xs, size x ≤ m) : ∃ front back, front ++ back = xs ∧
      (back.map size).sum ≤ bound ∧ (front = [] ∨ bound < (back.map size).sum + m) := by
  induction xs with
  | nil => exact ⟨[], [], rfl, Nat.zero_le _, .inl rfl⟩
  | cons x xs ih =>
      rw [List.forall_mem_cons] at h
      obtain ⟨front, back, hxs, hback, hfront⟩ := ih h.2
      by_cases hall : ((x :: xs).map size).sum ≤ bound
      · exact ⟨[], x :: xs, rfl, hall, .inl rfl⟩
      · refine ⟨x :: front, back, by rw [List.cons_append, hxs], hback, .inr ?_⟩
        rcases hfront with rfl | hfront
        · rw [List.nil_append] at hxs
          rw [List.map_cons, List.sum_cons, ← hxs] at hall
          have := h.1
          omega
        · exact hfront

/-- Lines of at most 2559 bytes leave room, as many as the store holds. -/
theorem hasRoom_of_short {j : Journal C} (hcap : j.st.recs.length ≤ PERF_RECORDS)
    (hshort : ∀ r ∈ exported j, (C.line r).length ≤ 2559) (hprevious : j.dir .previousTmp = none)
    (hcurrent : j.dir .currentTmp = none) : HasRoom j := by
  have hcount : (exported j).length ≤ 8192 := (List.length_filter_le _ _).trans hcap
  have hsum : ((exported j).map (lineSize C)).sum ≤ (exported j).length * 2559 := by
    have h := List.sum_le_card_nsmul ((exported j).map (lineSize C)) 2559 fun n hn => by
      obtain ⟨r, hr, rfl⟩ := List.mem_map.mp hn
      exact hshort r hr
    rwa [List.length_map, nsmul_eq_mul, Nat.cast_id] at h
  have htotal : ((exported j).map (lineSize C)).sum ≤ 20963328 := by omega
  obtain ⟨rs, ss, hrs, hnewer, holder⟩ := exists_tail (m := 2559) SEGMENT_BYTES hshort
  have hparts : (rs.map (lineSize C)).sum + (ss.map (lineSize C)).sum =
      ((exported j).map (lineSize C)).sum := by
    rw [← hrs, List.map_append, List.sum_append]
  have hsize : (ss.map fun r => (C.line r).length).sum = (ss.map (lineSize C)).sum := rfl
  have hbytes : SEGMENT_BYTES = 10485760 := rfl
  rw [hsize, hbytes] at hnewer holder
  refine ⟨?_, ⟨rs, ss, hrs, ?_, ?_⟩, hprevious, hcurrent⟩
  · rw [lines_length, hbytes]
    omega
  · rw [lines_length, hbytes]
    rcases holder with rfl | holder
    · rw [List.map_nil, List.sum_nil]
      omega
    · omega
  · rw [lines_length, hbytes]
    exact hnewer

/-! ## Every store -/

/-- The export of every store is given, and a compaction writes all of it, exactly when there
is room for the lines. -/
theorem full_store_fits_iff (j : Journal textCodec) : Served j ↔ HasRoom j :=
  served_iff recordJson_isLine j

/-! ## A full store -/

/-- Records that are submitted one after the other fill the store. By induction on the end of
the list. -/
theorem submits_fill {now : Int} {rs : List C.Rec} (hvalid : ∀ r ∈ rs, C.valid now r = true)
    (hfresh : ∀ r ∈ rs, fresh C now 90 r = true) (hnames : (rs.map C.id).Nodup)
    (hcap : rs.length ≤ PERF_RECORDS) :
    ∃ j, (journalMachine C).Reach Machine.free j ∧ j.st = { recs := rs } ∧ j.now = now ∧
      j.days = 90 ∧ (∀ n, j.dir n = none) ∧ ∀ r ∈ j.used, r ∈ rs := by
  induction rs using List.reverseRecOn with
  | nil =>
      exact ⟨{ emptyJournal C with now := now }, .init ⟨fun _ => rfl, rfl, rfl, rfl, rfl, rfl,
        .inr (.inl rfl)⟩, rfl, rfl, rfl, fun _ => rfl, fun r hr => absurd hr List.not_mem_nil⟩
  | append_singleton rs r ih =>
      rw [List.length_append, List.length_singleton] at hcap
      rw [List.map_append, List.map_singleton, List.nodup_append] at hnames
      obtain ⟨j, hreach, hst, hnow, hdays, hdir, hused⟩ :=
        ih (fun x hx => hvalid x (List.mem_append_left _ hx))
          (fun x hx => hfresh x (List.mem_append_left _ hx)) hnames.1 (by omega)
      have hr : r ∈ rs ++ [r] := List.mem_append_right _ (List.mem_singleton.mpr rfl)
      have hnew : ∀ xs : List C.Rec, (∀ x ∈ xs, x ∈ rs) → Perf.known xs (C.id r) = false := by
        intro xs hxs
        rw [Perf.known, List.any_eq_false]
        intro x hx heq
        exact hnames.2.2 _ (List.mem_map_of_mem (hxs x hx)) _ (List.mem_singleton.mpr rfl)
          (of_decide_eq_true heq)
      have hretain : retain j.now j.days j.st r = { recs := rs ++ [r] } := by
        rw [hst, hnow, hdays]
        exact retain_new (fun x hx => hfresh x (List.mem_append_left _ hx)) (hfresh r hr)
          (hnew rs fun _ hx => hx) (by dsimp only; omega)
      have hguard : (C.valid j.now r && fresh C j.now j.days r &&
          !Perf.known j.st.recs (C.id r)) = true := by
        rw [hst, hnow, hdays, hvalid r hr, hfresh r hr, hnew rs fun _ hx => hx]
        rfl
      have hstep : (journalMachine C).step j (.submit r) =
          some (settle { perfSubmit j r with used := r :: j.used }) := by
        show (if Perf.known j.used (C.id r) then none
          else some (settle { perfSubmit j r with used := r :: j.used })) = _
        rw [hnew j.used hused, if_neg Bool.false_ne_true]
      have hsubmit : (perfSubmit j r).st = { recs := rs ++ [r] } ∧
          (perfSubmit j r).now = now ∧ (perfSubmit j r).days = 90 ∧
          ∀ n, (perfSubmit j r).dir n = none := by
        rw [perfSubmit, if_pos hguard]
        exact ⟨hretain, hnow, hdays, hdir⟩
      refine ⟨_, .step hreach trivial hstep, hsubmit.1, hsubmit.2.1, hsubmit.2.2.1,
        hsubmit.2.2.2, fun x hx => ?_⟩
      rcases List.mem_cons.mp hx with rfl | hx
      · exact hr
      · exact List.mem_append_left _ (hused x hx)

/-- Only the text of the id depends on it. -/
theorem recordJson_id (r : PerfRecord) (id : CStr) :
    (recordJson { r with id := id }).length + (appQuote r.id).length =
      (recordJson r).length + (appQuote id).length := by
  unfold recordJson member
  simp only [List.length_append]
  omega

/-- A reply whose series is as long as it can be, and has to be escaped. -/
def bulky (i : Nat) : PerfRecord :=
  { replyOf (lit "modified") with id := Perf.decimal i, series := List.replicate 767 34 }

theorem bulky_length {i : Nat} (hi : i < 2 ^ 64) :
    2560 ≤ (recordJson (bulky i)).length ∧ (recordJson (bulky i)).length < LINE_CAP := by
  have hbase : (recordJson (bulky 0)).length = 2891 := by decide +kernel
  have hzero : (appQuote (bulky 0).id).length = 3 := by decide
  have hlen := recordJson_id (bulky 0) (Perf.decimal i)
  have hquoted : (appQuote (Perf.decimal i)).length ≤ 2 + 6 * (Perf.decimal i).length := by
    have h := quoted_length (Perf.decimal i)
    rw [appQuote, gdPutJson, List.length_cons, List.length_append, List.length_singleton]
    omega
  have hdigits := decimal_length hi
  rw [hbase, hzero] at hlen
  have hcap : LINE_CAP = 8192 := rfl
  have hsame : ({ bulky 0 with id := Perf.decimal i } : PerfRecord) = bulky i := rfl
  rw [hsame] at hlen
  omega

theorem bulky_valid {i : Nat} (hi : i < 2 ^ 64) : (bulky i).valid 1700000000 = true := by
  have hbase : SoundRecord 1700000000 (bulky 0) := soundRecord_iff.mp (by decide +kernel)
  have hid : token 160 (Perf.decimal i) = true := by
    have hpos := List.length_pos_iff.mpr (decimal_ne_nil i)
    have hlen : (Perf.decimal i).length < 160 := (decimal_length hi).trans_lt (by decide)
    rw [token, decide_eq_true hpos, decide_eq_true hlen]
    rfl
  exact soundRecord_iff.mpr { hbase with id := hid }

def stored (i : Nat) : textCodec.Rec := bulky i

@[irreducible] def bulkyRecords (n : Nat) : List textCodec.Rec := (List.range n).map stored

theorem mem_bulkyRecords {n : Nat} (hn : n < 2 ^ 64) {r : textCodec.Rec} (h : r ∈ bulkyRecords n) :
    ∃ i < 2 ^ 64, r = stored i := by
  rw [bulkyRecords] at h
  obtain ⟨i, hi, rfl⟩ := List.mem_map.mp h
  exact ⟨i, (List.mem_range.mp hi).trans hn, rfl⟩

theorem bulkyRecords_length (n : Nat) : (bulkyRecords n).length = n := by
  rw [bulkyRecords, List.length_map, List.length_range]

theorem bulkyRecords_names (n : Nat) : ((bulkyRecords n).map textCodec.id).Nodup := by
  rw [bulkyRecords, List.map_map]
  exact List.Nodup.map_on (fun i _ k _ hik => decimal_inj hik) List.nodup_range

theorem bulkyRecords_size {n : Nat} (hn : n < 2 ^ 64) :
    n * 2560 ≤ ((bulkyRecords n).map (lineSize textCodec)).sum := by
  have hsum := List.card_nsmul_le_sum ((bulkyRecords n).map (lineSize textCodec)) 2560
    fun m hm => by
      obtain ⟨r, hr, rfl⟩ := List.mem_map.mp hm
      obtain ⟨i, hi, rfl⟩ := mem_bulkyRecords hn hr
      exact (bulky_length hi).1
  rwa [List.length_map, bulkyRecords_length, nsmul_eq_mul, Nat.cast_id] at hsum

/-- A store that is full of long lines: its export fails, and so does its compaction. -/
theorem full_store_too_large : ¬ ∀ j : Journal textCodec,
    (journalMachine textCodec).Reach Machine.free j →
    (∀ r ∈ j.st.recs, (textCodec.line r).length < LINE_CAP) →
    (∀ n, n = .previousTmp ∨ n = .currentTmp → j.dir n = none) → Served j := by
  intro h
  have hbound : PERF_RECORDS < 2 ^ 64 := by decide
  have hfresh : ∀ r ∈ bulkyRecords PERF_RECORDS, fresh textCodec 1700000000 90 r = true := by
    intro r hr
    obtain ⟨i, _, rfl⟩ := mem_bulkyRecords hbound hr
    rfl
  have hvalid : ∀ r ∈ bulkyRecords PERF_RECORDS, textCodec.valid 1700000000 r = true := by
    intro r hr
    obtain ⟨i, hi, rfl⟩ := mem_bulkyRecords hbound hr
    exact bulky_valid hi
  obtain ⟨j, hreach, hst, hnow, hdays, hdir, _⟩ := submits_fill hvalid hfresh
    (bulkyRecords_names _) (Nat.le_of_eq (bulkyRecords_length _))
  have hexported : exported j = bulkyRecords PERF_RECORDS := by
    rw [exported, hst, hnow, hdays]
    exact List.filter_eq_self.mpr hfresh
  have hshort : ∀ r ∈ j.st.recs, (textCodec.line r).length < LINE_CAP := by
    rw [hst]
    intro r hr
    obtain ⟨i, hi, rfl⟩ := mem_bulkyRecords hbound hr
    exact (bulky_length hi).2
  have hroom := ((served_iff recordJson_isLine j).mp (h j hreach hshort fun n _ => hdir n)).total
  have hsum := bulkyRecords_size hbound
  have htotal : PERF_RECORDS * 2560 = 2 * SEGMENT_BYTES := by decide
  rw [hexported, lines_length] at hroom
  omega

end GeistServe.Proofs
