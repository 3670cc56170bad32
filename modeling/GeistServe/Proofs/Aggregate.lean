import GeistServe.Perf.Aggregate

/-!
# The quartiles and the median of the samples

`percentile` is the `quantile` of the values it is given: its two indices are the neighbours
of the position, and at the last value both are that value (`percentile_eq`). So what is true
of quantiles is true of the summary: it does not depend on the order of the samples, and the
quartiles enclose the median. The rate needs one thing more: `AGG` drops what is negative
and the quartiles do not, but the samples of a view have no negative rate.
-/

namespace GeistServe.Perf

open GeistServe.Lib GeistServe.Geistd

/-! ## `percentile` -/

/-- The position of a quantile is not behind the last value. -/
theorem floor_position {n : Nat} {q : Rat} (hq' : q ≤ 1) :
    ⌊((n - 1 : Nat) : Rat) * q⌋₊ ≤ n - 1 := by
  have hle : ((n - 1 : Nat) : Rat) * q ≤ ((n - 1 : Nat) : Rat) := by
    have := mul_le_mul_of_nonneg_left hq' (Nat.cast_nonneg (n - 1) (α := Rat))
    rwa [mul_one] at this
  calc ⌊((n - 1 : Nat) : Rat) * q⌋₊ ≤ ⌊((n - 1 : Nat) : Rat)⌋₊ := Nat.floor_mono hle
    _ = n - 1 := Nat.floor_natCast _

theorem percentile_eq {values : List Rat} {n : Nat} {q : Rat} (hn : 0 < n)
    (hlen : n ≤ values.length) (hq' : q ≤ 1) :
    percentile values n q =
      some (inOrder (values.take n) ++ values.drop n, quantile (values.take n) q) := by
  have htake : (values.take n).length = n := List.length_take_of_le hlen
  have hsorted : (inOrder (values.take n)).length = n := (inOrder_length _).trans htake
  have hi := floor_position (n := n) hq'
  rw [percentile, if_neg (by omega)]
  simp only [quantile, lerp, orderSeq, htake]
  generalize ⌊((n - 1 : Nat) : Rat) * q⌋₊ = i at hi ⊢
  have hfirst : min i (n - 1) = i := by omega
  have hsecond : i + (if i + 1 < n then 1 else 0) = min (i + 1) (n - 1) := by
    split <;> omega
  have hlt : i < (inOrder (values.take n)).length := by omega
  have hlt' : min (i + 1) (n - 1) < (inOrder (values.take n)).length := by omega
  rw [hsecond, hfirst, List.getElem?_eq_getElem hlt, List.getElem?_eq_getElem hlt',
    List.getD_eq_getElem _ _ hlt, List.getD_eq_getElem _ _ hlt']

/-! ## `aggregate` -/

theorem fill {values vs : List Rat} (h : vs.length ≤ values.length) :
    ∃ p, Pen.puts ⟨values, 0⟩ vs = some p ∧ p.pos = vs.length ∧ p.cells.take vs.length = vs ∧
      p.cells.length = values.length := by
  obtain ⟨p, hputs, hp⟩ := Pen.puts_wrote vs (p := ⟨values, 0⟩)
    (by show 0 + vs.length ≤ values.length; omega)
  have hpos : p.pos = vs.length := hp.pos.trans (Nat.zero_add _)
  have hwritten := hp.written
  rw [hpos] at hwritten
  exact ⟨p, hputs, hpos, hwritten, hp.length⟩

/-- The median of the values that are known, or -1. -/
def median (vs : List Rat) : Rat :=
  if vs.filter (0 ≤ ·) = [] then -1 else quantile (vs.filter (0 ≤ ·)) (1 / 2)

theorem sorted_length {values : List Rat} {n : Nat} (h : n ≤ values.length) :
    (inOrder (values.take n) ++ values.drop n).length = values.length := by
  rw [List.length_append, inOrder_length, List.length_take_of_le h, List.length_drop]
  omega

theorem agg_eq {values vs : List Rat} (h : vs.length ≤ values.length) :
    ∃ values', agg values vs = some (values', median vs) ∧ values'.length = values.length := by
  have hfilter : (vs.filter (0 ≤ ·)).length ≤ vs.length := List.length_filter_le _ _
  obtain ⟨p, hputs, hpos, htake, hlen⟩ := fill (hfilter.trans h)
  rw [agg, hputs, Option.bind_some, hpos, median]
  by_cases hne : vs.filter (0 ≤ ·) = []
  · rw [hne, if_pos rfl]
    exact ⟨p.cells, rfl, hlen⟩
  · rw [if_neg hne, percentile_eq (List.length_pos_iff.mpr hne) (by omega) (by norm_num), htake]
    refine ⟨_, rfl, ?_⟩
    have hsorted := @sorted_length p.cells (vs.filter (0 ≤ ·)).length (by omega)
    rw [htake] at hsorted
    exact hsorted.trans hlen

/-- The summary in terms of quantiles. -/
def summaryOf (r : PerfRecord) (rs : List PerfRecord) : Summary where
  count := rs.length
  rate := median (rs.map rate)
  q25 := quantile (rs.map rate) (1 / 4)
  q75 := quantile (rs.map rate) (3 / 4)
  first := median (rs.map fun r => numValue r.firstNs / 1000000000)
  firstAnswer := median (rs.map fun r => numValue r.firstAnswerNs / 1000000000)
  firstAnswerCount := rs.countP fun r => decide (0 ≤ numValue r.firstAnswerNs)
  total := median (rs.map fun r => numValue r.totalNs / 1000000000)
  tokens := median (rs.map fun r => (r.output : Rat))
  rssBytes := median (rs.map fun r => numValue r.rss)
  sampledPeakRss := median (rs.map fun r => numValue r.peakRss)
  gpuAllocatedBytes := median (rs.map fun r =>
    if r.memory.status = 1 then numValue r.memory.gpuEnd else -1)
  gpuSampledPeak := median (rs.map fun r =>
    if r.memory.gpuSamples ≠ 0 then numValue r.memory.gpuPeak else -1)
  gpuKnownCount := rs.countP fun r => decide (r.memory.status = 1)
  recordedAt := r.timestamp

theorem aggregate_eq {values : List Rat} {r : PerfRecord} {rest : List PerfRecord}
    (h : (r :: rest).length ≤ values.length) :
    aggregate values (r :: rest) = some (some (summaryOf r (r :: rest))) := by
  have hmap : ∀ f : PerfRecord → Rat, ((r :: rest).map f).length = (r :: rest).length :=
    fun f => List.length_map f
  -- one `AGG` after the other, on an array that keeps its length
  have hagg : ∀ (vs : List Rat) (f : PerfRecord → Rat), vs.length = values.length →
      ∃ vs', agg vs ((r :: rest).map f) = some (vs', median ((r :: rest).map f)) ∧
        vs'.length = values.length := by
    intro vs f hvs
    obtain ⟨vs', hrun, hlen⟩ := @agg_eq vs ((r :: rest).map f) (by rw [hmap]; omega)
    exact ⟨vs', hrun, hlen.trans hvs⟩
  obtain ⟨v₁, h₁, l₁⟩ := hagg values rate rfl
  obtain ⟨p, hputs, -, htake, hlen⟩ := @fill v₁ ((r :: rest).map rate) (by rw [hmap]; omega)
  rw [hmap] at htake
  have hpos : 0 < (r :: rest).length := Nat.succ_pos _
  have h₂ := @percentile_eq p.cells (r :: rest).length (1 / 4) hpos (by omega) (by norm_num)
  have l₂ := @sorted_length p.cells (r :: rest).length (by omega)
  rw [htake] at h₂ l₂
  have h₃ := @percentile_eq (inOrder ((r :: rest).map rate) ++ p.cells.drop (r :: rest).length)
    (r :: rest).length (3 / 4) hpos (by omega) (by norm_num)
  have l₃ := @sorted_length (inOrder ((r :: rest).map rate) ++ p.cells.drop (r :: rest).length)
    (r :: rest).length (by omega)
  have hsame : (inOrder ((r :: rest).map rate) ++ p.cells.drop (r :: rest).length).take
      (r :: rest).length = inOrder ((r :: rest).map rate) :=
    List.take_left' ((inOrder_length _).trans (hmap rate))
  rw [hsame] at h₃ l₃
  rw [quantile_congr (inOrder_perm _)] at h₃
  obtain ⟨v₄, h₄, l₄⟩ := hagg _ (fun r => numValue r.firstNs / 1000000000)
    ((l₃.trans l₂).trans (hlen.trans l₁))
  obtain ⟨v₅, h₅, l₅⟩ := hagg _ (fun r => numValue r.firstAnswerNs / 1000000000) l₄
  obtain ⟨v₆, h₆, l₆⟩ := hagg _ (fun r => numValue r.totalNs / 1000000000) l₅
  obtain ⟨v₇, h₇, l₇⟩ := hagg _ (fun r => (r.output : Rat)) l₆
  obtain ⟨v₈, h₈, l₈⟩ := hagg _ (fun r => numValue r.rss) l₇
  obtain ⟨v₉, h₉, l₉⟩ := hagg _ (fun r => numValue r.peakRss) l₈
  obtain ⟨v₁₀, h₁₀, l₁₀⟩ := hagg _
    (fun r => if r.memory.status = 1 then numValue r.memory.gpuEnd else -1) l₉
  obtain ⟨v₁₁, h₁₁, l₁₁⟩ := hagg _
    (fun r => if r.memory.gpuSamples ≠ 0 then numValue r.memory.gpuPeak else -1) l₁₀
  show (agg values _ >>= _) = _
  rw [h₁]
  show (Pen.puts _ _ >>= _) = _
  rw [hputs]
  show (percentile _ _ _ >>= _) = _
  rw [h₂]
  show (percentile _ _ _ >>= _) = _
  rw [h₃]
  show (agg _ _ >>= _) = _
  rw [h₄]
  show (agg _ _ >>= _) = _
  rw [h₅]
  show (agg _ _ >>= _) = _
  rw [h₆]
  show (agg _ _ >>= _) = _
  rw [h₇]
  show (agg _ _ >>= _) = _
  rw [h₈]
  show (agg _ _ >>= _) = _
  rw [h₉]
  show (agg _ _ >>= _) = _
  rw [h₁₀]
  show (agg _ _ >>= _) = _
  rw [h₁₁]
  rfl

/-! ## The samples of a view -/

theorem rate_nonneg {r : PerfRecord} (h : eligible r = true) : 0 ≤ rate r := by
  simp only [eligible, Bool.and_eq_true] at h
  have hpos := h.1.2
  unfold rate
  split
  · next g hg =>
      rw [hg] at hpos
      have hg' : 0 < g := of_decide_eq_true hpos
      positivity
  · exact le_rfl

/-- What `perf_view` may hand to `aggregate`. -/
def Sampled (rs : List PerfRecord) : Prop := rs.length ≤ 30 ∧ ∀ r ∈ rs, eligible r = true

theorem place_sampled {v : View} {r : PerfRecord} (hr : eligible r = true)
    (h : ∀ slot, Sampled (v.samples slot)) (slot slot' : Slot) :
    Sampled ((v.place slot r).samples slot') := by
  unfold View.place
  generalize hw : (if (v.ref slot).id = [] then { v with ref := Function.update v.ref slot r }
      else v) = w
  have hsame : w.samples = v.samples := by
    rw [← hw]
    split <;> rfl
  have hsampled : ∀ slot, Sampled (w.samples slot) := hsame ▸ h
  simp only []
  split
  · exact hsampled slot'
  · split
    · next hroom =>
        by_cases heq : slot' = slot
        · subst heq
          simp only [Function.update_self]
          refine ⟨by rw [List.length_append]; exact hroom, fun x hx => ?_⟩
          rcases List.mem_append.mp hx with hx | hx
          · exact (hsampled slot').2 x hx
          · exact List.mem_singleton.mp hx ▸ hr
        · simp only [Function.update_of_ne heq]
          exact hsampled slot'
    · exact hsampled slot'

theorem scan_sampled {artifact series cpu gpu : CStr} {v : View} (r : PerfRecord)
    (h : ∀ slot, Sampled (v.samples slot)) (slot : Slot) :
    Sampled ((v.scan artifact series cpu gpu r).samples slot) := by
  unfold View.scan
  generalize hw : (if v.recent.length < 12 then { v with recent := v.recent ++ [r] } else v) = w
  have hsame : w.samples = v.samples := by
    rw [← hw]
    split <;> rfl
  have hsampled : ∀ slot, Sampled (w.samples slot) := hsame ▸ h
  have hdecide : (w.decide r).samples = w.samples := by
    unfold View.decide
    split <;> rfl
  have hdecided : ∀ slot, Sampled ((w.decide r).samples slot) := hdecide ▸ hsampled
  simp only []
  split
  · exact h slot
  · split
    · exact hsampled slot
    · next hcounts =>
        rw [not_or, not_or, Bool.not_eq_false] at hcounts
        generalize (if (w.decide r).comparison = true then
          !controlled r || r.run != (w.decide r).run else controlled r) = skip
        split
        · exact hdecided slot
        · split
          · exact hdecided slot
          · split
            · exact hdecided slot
            · exact place_sampled hcounts.2.1 hdecided _ slot

/-- There are thirty of them at most, and all of them count. -/
theorem view_sampled (recs : List PerfRecord) (artifact series cpu gpu : CStr) (slot : Slot) :
    Sampled ((perfView recs artifact series cpu gpu).samples slot) := by
  have hfold : ∀ (l : List PerfRecord) (v : View), (∀ slot, Sampled (v.samples slot)) →
      ∀ slot, Sampled ((l.foldl (View.scan artifact series cpu gpu) v).samples slot) := by
    intro l
    induction l with
    | nil => exact fun v h => h
    | cons r l ih => exact fun v h => ih _ (scan_sampled r h)
  exact hfold recs.reverse {} (fun _ => ⟨Nat.zero_le _, fun r hr => absurd hr List.not_mem_nil⟩) slot

/-! ## What the page can rely on -/

theorem median_rates {rs : List PerfRecord} (hne : rs ≠ []) (h : ∀ r ∈ rs, eligible r = true) :
    median (rs.map rate) = quantile (rs.map rate) (1 / 2) := by
  have hall : (rs.map rate).filter (0 ≤ ·) = rs.map rate := by
    rw [List.filter_eq_self]
    intro x hx
    obtain ⟨r, hr, rfl⟩ := List.mem_map.mp hx
    exact decide_eq_true (rate_nonneg (h r hr))
  rw [median, hall, if_neg (fun h => hne (List.map_eq_nil_iff.mp h))]

/-- The three quartiles in their order, between the least and the greatest value. -/
structure Quartiles (xs : List Rat) (q25 q50 q75 : Rat) : Prop where
  least : ∃ lo ∈ xs, (∀ x ∈ xs, lo ≤ x) ∧ lo ≤ q25
  lower : q25 ≤ q50
  upper : q50 ≤ q75
  greatest : ∃ hi ∈ xs, (∀ x ∈ xs, x ≤ hi) ∧ q75 ≤ hi

theorem quartiles {xs : List Rat} (hne : xs ≠ []) :
    Quartiles xs (quantile xs (1 / 4)) (quantile xs (1 / 2)) (quantile xs (3 / 4)) where
  least := by
    refine ⟨orderSeq xs 0, orderSeq_mem hne 0, fun x hx => (orderSeq_bounds hx).1, ?_⟩
    rw [← quantile_zero]
    exact quantile_mono xs le_rfl (by norm_num)
  lower := quantile_mono xs (by norm_num) (by norm_num)
  upper := quantile_mono xs (by norm_num) (by norm_num)
  greatest := by
    refine ⟨orderSeq xs (xs.length - 1), orderSeq_mem hne _, fun x hx => (orderSeq_bounds hx).2, ?_⟩
    rw [← quantile_one]
    exact quantile_mono xs (by norm_num) (by norm_num)

theorem median_congr {xs ys : List Rat} (h : xs.Perm ys) : median xs = median ys := by
  have hfilter := h.filter (0 ≤ ·)
  have hnil : xs.filter (0 ≤ ·) = [] ↔ ys.filter (0 ≤ ·) = [] := by
    constructor
    · intro hx
      rw [hx] at hfilter
      exact hfilter.nil_eq.symm
    · intro hy
      rw [hy] at hfilter
      exact hfilter.eq_nil
  unfold median
  by_cases hx : xs.filter (0 ≤ ·) = []
  · rw [if_pos hx, if_pos (hnil.mp hx)]
  · rw [if_neg hx, if_neg (fun hy => hx (hnil.mpr hy)), quantile_congr hfilter]

/-- The order of the samples shows in the time of the first one only. -/
theorem summaryOf_congr {r r' : PerfRecord} {rs rs' : List PerfRecord} (h : rs.Perm rs') :
    summaryOf r' rs' = { summaryOf r rs with recordedAt := r'.timestamp } := by
  have hmap : ∀ f : PerfRecord → Rat, median (rs'.map f) = median (rs.map f) :=
    fun f => (median_congr (h.map f)).symm
  simp only [summaryOf, hmap, h.length_eq, h.countP_eq, quantile_congr (h.map rate)]

/-- `percentile` uses no index that is not one of its values, and interpolates between the
order statistics at `q (n - 1)`; it does not depend on the order of the values, and its
quartiles are in order. And so it is with the summary of a view's samples, whatever is in the
store and in the array. -/
theorem percentile_sound :
    (∀ (values : List Rat) (n : Nat), 0 < n → n ≤ values.length → ∀ q, 0 ≤ q → q ≤ 1 →
      ∃ values' v lo hi, percentile values n q = some (values', v) ∧
        (values'.take n).Perm (values.take n) ∧ values'.drop n = values.drop n ∧
        IsOrderStat (values.take n) ⌊((n - 1 : Nat) : Rat) * q⌋₊ lo ∧
        IsOrderStat (values.take n) (min (⌊((n - 1 : Nat) : Rat) * q⌋₊ + 1) (n - 1)) hi ∧
        v = lo + (hi - lo) * (((n - 1 : Nat) : Rat) * q - ⌊((n - 1 : Nat) : Rat) * q⌋₊)) ∧
    (∀ (values values' : List Rat) (n : Nat) (q : Rat), (values.take n).Perm (values'.take n) →
      (percentile values n q).map Prod.snd = (percentile values' n q).map Prod.snd) ∧
    (∀ (values : List Rat) (n : Nat), 0 < n → n ≤ values.length → ∃ a b c q25 q50 q75,
      percentile values n (1 / 4) = some (a, q25) ∧ percentile values n (1 / 2) = some (b, q50) ∧
      percentile values n (3 / 4) = some (c, q75) ∧ Quartiles (values.take n) q25 q50 q75) ∧
    ∀ recs artifact series cpu gpu slot (values : List Rat), values.length = 30 →
      (perfView recs artifact series cpu gpu).samples slot ≠ [] →
      ∃ s, aggregate values ((perfView recs artifact series cpu gpu).samples slot) = some (some s) ∧
        Quartiles (((perfView recs artifact series cpu gpu).samples slot).map rate) s.q25 s.rate s.q75 ∧
        ∀ rs' (values' : List Rat), values'.length = 30 →
          ((perfView recs artifact series cpu gpu).samples slot).Perm rs' →
          ∃ t, aggregate values' rs' = some (some { s with recordedAt := t }) := by
  refine ⟨fun values n hn hlen q hq hq' => ?_, fun values values' n q h => ?_,
    fun values n hn hlen => ?_, fun recs artifact series cpu gpu slot values hlen hne => ?_⟩
  · have htake : (values.take n).length = n := List.length_take_of_le hlen
    have hvals : values.take n ≠ [] := List.length_pos_iff.mp (by omega)
    have hsorted : (inOrder (values.take n)).length = n := (inOrder_length _).trans htake
    have hi := floor_position (n := n) hq'
    have hlo := orderSeq_stat hvals ⌊((n - 1 : Nat) : Rat) * q⌋₊
    have hhi := orderSeq_stat hvals (⌊((n - 1 : Nat) : Rat) * q⌋₊ + 1)
    rw [htake, Nat.min_eq_left hi] at hlo
    rw [htake] at hhi
    refine ⟨_, _, _, _, percentile_eq hn hlen hq', ?_, ?_, hlo, hhi, ?_⟩
    · rw [List.take_left' hsorted]
      exact inOrder_perm _
    · exact List.drop_left' hsorted
    · rw [quantile, htake, lerp]
  · by_cases hn : n = 0
    · rw [percentile, percentile, if_pos hn, if_pos hn]
      rfl
    · rw [percentile, percentile, if_neg hn, if_neg hn]
      simp only [inOrder_congr h]
      split <;> rfl
  · have htake : (values.take n).length = n := List.length_take_of_le hlen
    exact ⟨_, _, _, _, _, _, percentile_eq hn hlen (by norm_num), percentile_eq hn hlen (by norm_num),
      percentile_eq hn hlen (by norm_num), quartiles (List.length_pos_iff.mp (by omega))⟩
  · obtain ⟨hfew, helig⟩ := view_sampled recs artifact series cpu gpu slot
    generalize (perfView recs artifact series cpu gpu).samples slot = rs at hne hfew helig ⊢
    obtain ⟨r, rest, rfl⟩ := List.exists_cons_of_ne_nil hne
    refine ⟨_, aggregate_eq (by omega), ?_, fun rs' values' hlen' hperm => ?_⟩
    · show Quartiles _ (quantile _ _) (median _) (quantile _ _)
      rw [median_rates hne helig]
      exact quartiles (fun h => hne (List.map_eq_nil_iff.mp h))
    · have hlength := hperm.length_eq
      obtain ⟨r', rest', rfl⟩ := List.exists_cons_of_ne_nil
        (show rs' ≠ [] from List.length_pos_iff.mp (by rw [← hlength]; exact Nat.succ_pos _))
      exact ⟨r'.timestamp, by rw [aggregate_eq (by omega), summaryOf_congr (r := r) hperm]⟩

/-- A reply of twenty tokens in a second. -/
def plainReply : PerfRecord where
  id := lit "r"
  artifact := lit "a"
  series := lit "s"
  backend := lit "cpu"
  source := lit "app"
  outcome := lit "completed"
  generationNs := .fin 1000000000
  output := 20

def oddArray : List Rat := [3, 1, 2] ++ List.replicate 27 7

theorem percentile_sound_odd :
    (∃ values' v lo hi, percentile oddArray 3 (1 / 4) = some (values', v) ∧
      (values'.take 3).Perm (oddArray.take 3) ∧ values'.drop 3 = oddArray.drop 3 ∧
      IsOrderStat (oddArray.take 3) ⌊((3 - 1 : Nat) : Rat) * (1 / 4)⌋₊ lo ∧
      IsOrderStat (oddArray.take 3) (min (⌊((3 - 1 : Nat) : Rat) * (1 / 4)⌋₊ + 1) (3 - 1)) hi ∧
      v = lo + (hi - lo) *
        (((3 - 1 : Nat) : Rat) * (1 / 4) - ⌊((3 - 1 : Nat) : Rat) * (1 / 4)⌋₊)) ∧
    ∃ s, aggregate oddArray
        ((perfView [plainReply] (lit "a") (lit "s") (lit "cpu") (lit "gpu")).samples .cpu) =
          some (some s) ∧
      Quartiles (((perfView [plainReply] (lit "a") (lit "s") (lit "cpu") (lit "gpu")).samples
        .cpu).map rate) s.q25 s.rate s.q75 ∧
      ∀ rs' (values' : List Rat), values'.length = 30 →
        ((perfView [plainReply] (lit "a") (lit "s") (lit "cpu") (lit "gpu")).samples .cpu).Perm rs' →
        ∃ t, aggregate values' rs' = some (some { s with recordedAt := t }) :=
  ⟨percentile_sound.1 oddArray 3 (by decide) (by decide) (1 / 4) (by norm_num) (by norm_num),
    percentile_sound.2.2.2 [plainReply] (lit "a") (lit "s") (lit "cpu") (lit "gpu") .cpu oddArray
      (by decide) (by decide +kernel)⟩

example : (percentile oddArray 3 (1 / 4)).map Prod.snd = some (3 / 2) := by decide +kernel

end GeistServe.Perf
