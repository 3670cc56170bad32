import Mathlib.Data.Finset.Card
import GeistServe.Proofs.Recorded

/-!
# The memory record over any sequence of samples

`app_memory_observe` counts a sample when its number is new, and shows it whether new
or not. So the two agree only because a number that comes again cannot count for the
first time: its content is the same, it has only grown older, and it was passed over
before because it was too old or not measured at all. That is the field `newest` of
the invariant, and the rest follows from what one call does.
-/

namespace GeistServe.Proofs

open GeistServe.Geistd GeistServe.Perf

/-- The arguments of one call of `app_memory_observe`. -/
structure Observation where
  sample : Option GpuSample
  nowNs : Nat
  timestamp : Int

/-- `app_memory_observe` with these arguments. -/
def observation (m : MemoryRecord) (c : Observation) : MemoryRecord :=
  appMemoryObserve m c.sample c.nowNs c.timestamp

/-- How old the sample is, in milliseconds. -/
def ageMs (nowNs : Nat) (s : GpuSample) : Rat := ((nowNs - s.sampledNs : Nat) : Rat) / 1000000

/-- Measured, from the one source there is, and at most 6000 ms old. -/
def Current (nowNs : Nat) (s : GpuSample) : Prop :=
  s.status = 1 ∧ s.source = 1 ∧ ageMs nowNs s ≤ 6000

instance (nowNs : Nat) (s : GpuSample) : Decidable (Current nowNs s) := by
  unfold Current
  infer_instance

/-- The sample of the call, if the record accepts it as one that is current. -/
def measured (m : MemoryRecord) (c : Observation) : Option GpuSample :=
  c.sample.filter fun s => s.taken m c.nowNs && decide (Current c.nowNs s)

/-- The record behind the calls, and the samples that were measured, newest first. -/
def tally (cs : List Observation) : MemoryRecord × List GpuSample :=
  cs.foldl (fun t c => (observation t.1 c, (measured t.1 c).toList ++ t.2)) ({}, [])

theorem tally_concat (cs : List Observation) (c : Observation) :
    tally (cs ++ [c]) =
      (observation (tally cs).1 c, (measured (tally cs).1 c).toList ++ (tally cs).2) := by
  rw [tally, List.foldl_append]
  rfl

/-- The highest of their values, -1 without any. -/
def peak (ss : List GpuSample) : Rat :=
  (ss.map fun s => (s.allocatedBytes : Rat)).foldr max (-1)

theorem peak_cons (s : GpuSample) (ss : List GpuSample) :
    peak (s :: ss) = max (s.allocatedBytes : Rat) (peak ss) := rfl

theorem le_peak {s : GpuSample} {ss : List GpuSample} (h : s ∈ ss) :
    (s.allocatedBytes : Rat) ≤ peak ss := by
  induction ss with
  | nil => cases h
  | cons r ss ih =>
      rw [peak_cons]
      rcases List.mem_cons.mp h with rfl | h
      · exact le_max_left _ _
      · exact le_trans (ih h) (le_max_right _ _)

def distinct (ss : List GpuSample) : Nat := (ss.map GpuSample.sequence).toFinset.card

theorem distinct_cons_new {s : GpuSample} {ss : List GpuSample}
    (h : s.sequence ∉ ss.map GpuSample.sequence) : distinct (s :: ss) = distinct ss + 1 := by
  rw [distinct, List.map_cons, List.toFinset_cons,
    Finset.card_insert_of_notMem (by simpa using h), distinct]

theorem distinct_cons_old {s : GpuSample} {ss : List GpuSample} (h : s ∈ ss) :
    distinct (s :: ss) = distinct ss := by
  have hseq : s.sequence ∈ (ss.map GpuSample.sequence).toFinset :=
    List.mem_toFinset.mpr (List.mem_map_of_mem h)
  rw [distinct, List.map_cons, List.toFinset_cons, Finset.insert_eq_of_mem hseq, distinct]

theorem distinct_mono {ss rs : List GpuSample} (h : ss ⊆ rs) : distinct ss ≤ distinct rs := by
  refine Finset.card_le_card fun x hx => ?_
  obtain ⟨s, hs, rfl⟩ := List.mem_map.mp (List.mem_toFinset.mp hx)
  exact List.mem_toFinset.mpr (List.mem_map_of_mem (h hs))

def samples (cs : List Observation) : List GpuSample := cs.filterMap Observation.sample

/-- What the calls are about: a clock that does not go back, and samples whose number
stands for their content. -/
structure Ordered (cs : List Observation) : Prop where
  ordered : (cs.map Observation.nowNs).Pairwise (· ≤ ·)
  clock : ∀ c ∈ cs, c.nowNs < 1000000000000000000
  numbered : ∀ s ∈ samples cs, s.sequence ≠ 0
  content : ∀ s ∈ samples cs, ∀ s' ∈ samples cs, s.sequence = s'.sequence → s = s'
  few : distinct (samples cs) < 1000000

theorem samples_concat (cs : List Observation) (c : Observation) :
    samples (cs ++ [c]) = samples cs ++ c.sample.toList := by
  rw [samples, List.filterMap_append]
  cases h : c.sample <;> simp [samples, h]

theorem Ordered.init {cs : List Observation} {c : Observation} (h : Ordered (cs ++ [c])) :
    Ordered cs := by
  have hsub : samples cs ⊆ samples (cs ++ [c]) := by
    rw [samples_concat]
    exact List.subset_append_left _ _
  have hord := h.ordered
  rw [List.map_append, List.pairwise_append] at hord
  exact {
    ordered := hord.1
    clock := fun d hd => h.clock d (List.mem_append_left _ hd)
    numbered := fun s hs => h.numbered s (hsub hs)
    content := fun s hs s' hs' => h.content s (hsub hs) s' (hsub hs')
    few := Nat.lt_of_le_of_lt (distinct_mono hsub) h.few }

theorem Ordered.le_last {cs : List Observation} {c d : Observation} (h : Ordered (cs ++ [c]))
    (hd : d ∈ cs) : d.nowNs ≤ c.nowNs := by
  have hord := h.ordered
  rw [List.map_append, List.pairwise_append] at hord
  exact hord.2.2 _ (List.mem_map_of_mem hd) _ (by simp)

/-! ## One call -/

theorem ageMs_mono {t t' : Nat} (h : t ≤ t') (s : GpuSample) : ageMs t s ≤ ageMs t' s := by
  have hsub : ((t - s.sampledNs : Nat) : Rat) ≤ ((t' - s.sampledNs : Nat) : Rat) := by
    exact_mod_cast Nat.sub_le_sub_right h _
  unfold ageMs
  linarith

theorem Current.before {t t' : Nat} {s : GpuSample} (hs : Current t' s) (h : t ≤ t') :
    Current t s :=
  ⟨hs.1, hs.2.1, le_trans (ageMs_mono h s) hs.2.2⟩

theorem measured_iff {m : MemoryRecord} {c : Observation} {s : GpuSample} :
    measured m c = some s ↔
      c.sample = some s ∧ s.taken m c.nowNs = true ∧ Current c.nowNs s := by
  rw [measured, Option.filter_eq_some_iff, Bool.and_eq_true, decide_eq_true_eq]

theorem taken_iff_ge {m : MemoryRecord} {s : GpuSample} {nowNs : Nat}
    (h : s.taken m nowNs = true) : m.lastSequence ≤ s.sequence := by
  simp only [GpuSample.taken, Bool.and_eq_true, decide_eq_true_eq] at h
  exact h.1.2

/-- A sample that is not current changes no count and no peak, and shows no value. -/
theorem takeMemory_other {m : MemoryRecord} {s : GpuSample} {nowNs : Nat}
    (h : ¬ Current nowNs s) :
    (takeMemory m s nowNs).lastSequence = s.sequence ∧
      (takeMemory m s nowNs).gpuSamples = m.gpuSamples ∧
      (takeMemory m s nowNs).gpuPeak = m.gpuPeak ∧ (takeMemory m s nowNs).gpuEnd = m.gpuEnd := by
  by_cases hage : ageMs nowNs s ≤ 6000
  · have hold : ¬ 6000 < ageMs nowNs s := not_lt.mpr hage
    have hwrong : ¬ (s.status = 1 ∧ s.source = 1) := fun hs => h ⟨hs.1, hs.2, hage⟩
    unfold ageMs at hold
    simp only [takeMemory, if_neg hold]
    by_cases hstatus : s.status = 1
    · have hsource : s.source ≠ 1 := fun hs => hwrong ⟨hstatus, hs⟩
      rw [if_pos ⟨hstatus, hsource⟩]
      split <;> exact ⟨rfl, rfl, rfl, rfl⟩
    · rw [if_neg fun hs => hstatus hs.1, if_pos hstatus]
      split <;> exact ⟨rfl, rfl, rfl, rfl⟩
  · have hold : 6000 < ageMs nowNs s := not_le.mp hage
    unfold ageMs at hold
    simp only [takeMemory, if_pos hold]
    rw [if_neg fun hs => absurd hs.1 (by decide), if_pos (by decide)]
    split <;> exact ⟨rfl, rfl, rfl, rfl⟩

/-- A current one is shown, and counts when its number is new. -/
theorem takeMemory_current {m : MemoryRecord} {s : GpuSample} {nowNs : Nat}
    (h : Current nowNs s) :
    (takeMemory m s nowNs).lastSequence = s.sequence ∧
      (takeMemory m s nowNs).gpuEnd = .fin s.allocatedBytes ∧
      (takeMemory m s nowNs).gpuSamples =
        (if m.lastSequence = s.sequence then m.gpuSamples else (m.gpuSamples + 1) % 2 ^ 32) ∧
      (takeMemory m s nowNs).gpuPeak =
        (if m.lastSequence = s.sequence then m.gpuPeak
          else if Double.lt m.gpuPeak (.fin s.allocatedBytes) then .fin s.allocatedBytes
          else m.gpuPeak) := by
  obtain ⟨hstatus, hsource, hage⟩ := h
  have hold : ¬ 6000 < ageMs nowNs s := not_lt.mpr hage
  unfold ageMs at hold
  simp only [takeMemory, if_neg hold, hstatus, hsource]
  by_cases hseq : m.lastSequence = s.sequence
  · simp [hseq]
  · simp [hseq]

/-- What a call does: a sample that is measured is shown, and everything else leaves
no value, with at most a newer number. -/
theorem observation_cases (m : MemoryRecord) (c : Observation) :
    (measured m c = none ∧ (observation m c).gpuEnd = .fin (-1) ∧
      (observation m c).gpuSamples = m.gpuSamples ∧ (observation m c).gpuPeak = m.gpuPeak ∧
      ((observation m c).lastSequence = m.lastSequence ∨
        ∃ s, c.sample = some s ∧ m.lastSequence ≤ s.sequence ∧
          (observation m c).lastSequence = s.sequence ∧ ¬ Current c.nowNs s)) ∨
    ∃ s, measured m c = some s ∧ m.lastSequence ≤ s.sequence ∧
      (observation m c).lastSequence = s.sequence ∧
      (observation m c).gpuEnd = .fin s.allocatedBytes ∧
      (observation m c).gpuSamples =
        (if m.lastSequence = s.sequence then m.gpuSamples else (m.gpuSamples + 1) % 2 ^ 32) ∧
      (observation m c).gpuPeak =
        (if m.lastSequence = s.sequence then m.gpuPeak
          else if Double.lt m.gpuPeak (.fin s.allocatedBytes) then .fin s.allocatedBytes
          else m.gpuPeak) := by
  obtain ⟨sample, nowNs, timestamp⟩ := c
  cases sample with
  | none => exact .inl ⟨rfl, rfl, rfl, rfl, .inl rfl⟩
  | some s =>
      by_cases htaken : s.taken m nowNs = true
      · have hobserve : observation m ⟨some s, nowNs, timestamp⟩ =
            takeMemory { m with gpuEnd := .fin (-1), status := 0, gpuAgeMs := .fin (-1)
                                sampledAt := .fin timestamp } s nowNs := by
          simp only [observation, appMemoryObserve]
          exact if_pos htaken
        have hge : m.lastSequence ≤ s.sequence := taken_iff_ge htaken
        by_cases hcurrent : Current nowNs s
        · refine .inr ⟨s, measured_iff.mpr ⟨rfl, htaken, hcurrent⟩, hge, ?_⟩
          rw [hobserve]
          exact takeMemory_current hcurrent
        · have hnone : measured m ⟨some s, nowNs, timestamp⟩ = none := by
            cases hm : measured m ⟨some s, nowNs, timestamp⟩ with
            | none => rfl
            | some r =>
                obtain ⟨hr, _, hnow⟩ := measured_iff.mp hm
                injection hr with hr
                exact absurd (hr ▸ hnow) hcurrent
          obtain ⟨hseq, hcount, hpeak, hend⟩ := takeMemory_other
            (m := { m with gpuEnd := .fin (-1), status := 0, gpuAgeMs := .fin (-1)
                           sampledAt := .fin timestamp }) hcurrent
          rw [hobserve]
          exact .inl ⟨hnone, hend, hcount, hpeak, .inr ⟨s, rfl, hge, hseq, hcurrent⟩⟩
      · have hobserve : observation m ⟨some s, nowNs, timestamp⟩ =
            { m with gpuEnd := .fin (-1), status := 0, gpuAgeMs := .fin (-1)
                     sampledAt := .fin timestamp } := by
          simp only [observation, appMemoryObserve]
          exact if_neg htaken
        have hnone : measured m ⟨some s, nowNs, timestamp⟩ = none := by
          cases hm : measured m ⟨some s, nowNs, timestamp⟩ with
          | none => rfl
          | some r =>
              obtain ⟨hr, hwas, _⟩ := measured_iff.mp hm
              injection hr with hr
              exact absurd (hr ▸ hwas) htaken
        rw [hobserve]
        exact .inl ⟨hnone, rfl, rfl, rfl, .inl rfl⟩

/-! ## Every sequence of calls -/

/-- What holds of the record and of the samples behind it between two calls. -/
structure Tallied (cs : List Observation) : Prop where
  range : MemoryInRange { (tally cs).1 with sampledAt := .fin 0 }
  seen : (tally cs).2 ⊆ samples cs
  count : (tally cs).1.gpuSamples = distinct (tally cs).2
  top : (tally cs).1.gpuPeak = .fin (peak (tally cs).2)
  below : ∀ s ∈ (tally cs).2, s.sequence ≤ (tally cs).1.lastSequence
  newest : (tally cs).1.lastSequence = 0 ∨
    ∃ s ∈ samples cs, s.sequence = (tally cs).1.lastSequence ∧
      (s ∈ (tally cs).2 ∨ ∃ c ∈ cs, ¬ Current c.nowNs s)

/-- A number that comes again and is measured has counted before. -/
theorem Tallied.again {cs : List Observation} {c : Observation} {s : GpuSample}
    (h : Tallied cs) (hcs : Ordered (cs ++ [c])) (hs : measured (tally cs).1 c = some s)
    (hseq : (tally cs).1.lastSequence = s.sequence) : s ∈ (tally cs).2 := by
  obtain ⟨hsample, _, hcurrent⟩ := measured_iff.mp hs
  have hmem : s ∈ samples (cs ++ [c]) := by
    rw [samples_concat, hsample]
    exact List.mem_append_right _ (List.mem_singleton_self s)
  rcases h.newest with hzero | ⟨r, hr, hrseq, hcounted⟩
  · exact absurd (hseq.symm.trans hzero) (hcs.numbered s hmem)
  · have hrs : r = s := by
      refine hcs.content r ?_ s hmem (hrseq.trans hseq)
      rw [samples_concat]
      exact List.mem_append_left _ hr
    rw [hrs] at hcounted
    rcases hcounted with hmem | ⟨d, hd, hold⟩
    · exact hmem
    · exact absurd (hcurrent.before (hcs.le_last hd)) hold

theorem takeMemory_sampledAt (m : MemoryRecord) (s : GpuSample) (nowNs : Nat) (x : Double) :
    { takeMemory m s nowNs with sampledAt := x } =
      takeMemory { m with sampledAt := x } s nowNs := by
  simp only [takeMemory]
  split_ifs <;> rfl

/-- But for the time of the call itself, its ranges do not depend on any. -/
theorem observation_range {m : MemoryRecord} {c : Observation}
    (h : MemoryInRange { m with sampledAt := .fin 0 }) (hclock : c.nowNs < 1000000000000000000) :
    MemoryInRange { observation m c with sampledAt := .fin 0 } := by
  have hok : MemoryInRange (appMemoryObserve { m with sampledAt := .fin 0 } c.sample c.nowNs 0) :=
    appMemoryObserve_ok h hclock.le (by decide)
  have heq : { observation m c with sampledAt := .fin 0 } =
      appMemoryObserve { m with sampledAt := .fin 0 } c.sample c.nowNs 0 := by
    have hzero : ((0 : Int) : Rat) = 0 := rfl
    simp only [observation, appMemoryObserve, hzero]
    cases c.sample with
    | none => rfl
    | some s =>
        show { (if s.taken m c.nowNs then _ else _ : MemoryRecord) with sampledAt := .fin 0 } =
          if s.taken m c.nowNs then _ else _
        split
        · rw [takeMemory_sampledAt]
        · rfl
  rw [heq]
  exact hok

/-- A record that was only reset. -/
theorem reset_inRange : MemoryInRange {} where
  generation := by decide
  status := by decide
  source := by decide
  rssSource := by decide
  gpuEnd := by decide +kernel
  gpuPeak := by decide +kernel
  gpuAge := by decide +kernel
  rssAge := by decide +kernel
  sampledAt := by decide +kernel
  peaked := .inl rfl
  live := fun h => by cases h

theorem tally_tallied {cs : List Observation} (hcs : Ordered cs) : Tallied cs := by
  induction cs using List.reverseRecOn with
  | nil =>
      exact {
        range := reset_inRange
        seen := List.Subset.refl _
        count := rfl
        top := rfl
        below := fun s hs => by cases hs
        newest := .inl rfl }
  | append_singleton cs c ih =>
      have h := ih hcs.init
      have hclock : c.nowNs < 1000000000000000000 :=
        hcs.clock c (List.mem_append_right _ (List.mem_singleton_self c))
      have hrec : (tally (cs ++ [c])).1 = observation (tally cs).1 c := by rw [tally_concat]
      have hsub : samples cs ⊆ samples (cs ++ [c]) := by
        rw [samples_concat]
        exact List.subset_append_left _ _
      have hcalls : cs ⊆ cs ++ [c] := List.subset_append_left _ _
      have hlast {s : GpuSample} (hs : c.sample = some s) : s ∈ samples (cs ++ [c]) := by
        rw [samples_concat, hs]
        exact List.mem_append_right _ (List.mem_singleton_self s)
      have hrange := observation_range h.range hclock
      rcases observation_cases (tally cs).1 c with
        ⟨hnone, _, hcount, hpeak, hseq⟩ | ⟨s, hsome, hge, hseq, _, hcount, hpeak⟩
      · have hacc : (tally (cs ++ [c])).2 = (tally cs).2 := by
          rw [tally_concat, hnone]
          rfl
        have hle : (tally cs).1.lastSequence ≤ (observation (tally cs).1 c).lastSequence := by
          rcases hseq with heq | ⟨s, _, hge, heq, _⟩ <;> omega
        refine ⟨?_, ?_, ?_, ?_, ?_, ?_⟩
        · rw [hrec]
          exact hrange
        · rw [hacc]
          exact List.Subset.trans h.seen hsub
        · rw [hrec, hacc, hcount, h.count]
        · rw [hrec, hacc, hpeak, h.top]
        · rw [hrec, hacc]
          exact fun s hs => Nat.le_trans (h.below s hs) hle
        · rw [hrec, hacc]
          rcases hseq with heq | ⟨s, hs, _, heq, hold⟩
          · rw [heq]
            exact h.newest.imp id fun ⟨s, hs, hsseq, hwhy⟩ =>
              ⟨s, hsub hs, hsseq, hwhy.imp id fun ⟨d, hd, hold⟩ => ⟨d, hcalls hd, hold⟩⟩
          · exact .inr ⟨s, hlast hs, heq.symm, .inr ⟨c, by simp, hold⟩⟩
      · have hacc : (tally (cs ++ [c])).2 = s :: (tally cs).2 := by
          rw [tally_concat, hsome]
          rfl
        have hsample := (measured_iff.mp hsome).1
        have hseen : s :: (tally cs).2 ⊆ samples (cs ++ [c]) :=
          List.cons_subset.mpr ⟨hlast hsample, List.Subset.trans h.seen hsub⟩
        have hcounted : (observation (tally cs).1 c).gpuSamples = distinct (s :: (tally cs).2) ∧
            (observation (tally cs).1 c).gpuPeak = .fin (peak (s :: (tally cs).2)) := by
          by_cases heq : (tally cs).1.lastSequence = s.sequence
          · have hmem := h.again hcs hsome heq
            rw [if_pos heq] at hcount hpeak
            rw [hcount, hpeak, distinct_cons_old hmem, peak_cons, max_eq_right (le_peak hmem)]
            exact ⟨h.count, h.top⟩
          · have hnew : s.sequence ∉ (tally cs).2.map GpuSample.sequence := by
              intro hmem
              obtain ⟨r, hr, hrseq⟩ := List.mem_map.mp hmem
              have := h.below r hr
              omega
            have hfew : distinct (s :: (tally cs).2) < 1000000 :=
              Nat.lt_of_le_of_lt (distinct_mono hseen) hcs.few
            rw [distinct_cons_new hnew] at hfew ⊢
            rw [if_neg heq] at hcount hpeak
            refine ⟨?_, ?_⟩
            · rw [hcount, h.count]
              exact Nat.mod_eq_of_lt (by omega)
            · rw [hpeak, h.top, peak_cons, Double.lt]
              by_cases hlt : peak (tally cs).2 < s.allocatedBytes
              · rw [if_pos (decide_eq_true hlt), max_eq_left hlt.le]
              · rw [if_neg (by simpa using hlt), max_eq_right (not_lt.mp hlt)]
        refine ⟨?_, ?_, ?_, ?_, ?_, ?_⟩
        · rw [hrec]
          exact hrange
        · rw [hacc]
          exact hseen
        · rw [hrec, hacc]
          exact hcounted.1
        · rw [hrec, hacc]
          exact hcounted.2
        · rw [hrec, hacc, hseq]
          intro r hr
          rcases List.mem_cons.mp hr with rfl | hr
          · exact Nat.le_refl _
          · exact Nat.le_trans (h.below r hr) hge
        · rw [hrec, hacc, hseq]
          exact .inr ⟨s, hlast hsample, rfl, .inl List.mem_cons_self⟩

/-- With the rest in its ranges, a record is valid if its time is. -/
theorem valid_iff_sampledAt {m : MemoryRecord} {t : Rat}
    (h : MemoryInRange { m with sampledAt := .fin 0 }) (hat : m.sampledAt = .fin t)
    (hcount : m.gpuSamples ≤ 1000000) : memoryValid m = true ↔ 0 ≤ t ∧ t ≤ 1000000000000 := by
  constructor
  · intro hvalid
    simp only [memoryValid, Bool.and_eq_true] at hvalid
    have hsampled := hvalid.1.1.2
    rw [hat] at hsampled
    exact within_iff.mp hsampled
  · intro ht
    have hrange : MemoryInRange m :=
      { h with
        sampledAt := by
          rw [hat]
          exact within_iff.mpr ht }
    exact (memoryValid_iff hrange).mpr hcount

theorem observation_sampledAt (m : MemoryRecord) (c : Observation) :
    (observation m c).sampledAt = .fin c.timestamp := by
  obtain ⟨sample, nowNs, timestamp⟩ := c
  cases sample with
  | none => rfl
  | some s =>
      simp only [observation, appMemoryObserve]
      split
      · have hkeep := takeMemory_sampledAt { m with gpuEnd := .fin (-1), status := 0
                                                    gpuAgeMs := .fin (-1)
                                                    sampledAt := .fin timestamp } s nowNs
          (.fin timestamp)
        exact (congrArg MemoryRecord.sampledAt hkeep).symm
      · rfl

/-- The time that the record has: that of the last call. -/
theorem tally_sampledAt (cs : List Observation) :
    ∃ t : Rat, (tally cs).1.sampledAt = .fin t ∧
      ((0 ≤ t ∧ t ≤ 1000000000000) ↔
        ∀ c ∈ cs.getLast?, 0 ≤ c.timestamp ∧ c.timestamp ≤ 1000000000000) := by
  induction cs using List.reverseRecOn with
  | nil =>
      refine ⟨0, rfl, iff_of_true (by norm_num) fun c hc => ?_⟩
      cases hc
  | append_singleton cs c _ =>
      refine ⟨c.timestamp, ?_, ?_⟩
      · rw [tally_concat]
        exact observation_sampledAt _ c
      · rw [List.getLast?_concat]
        constructor
        · rintro ⟨hlo, hhi⟩ d hd
          cases hd
          exact ⟨by exact_mod_cast hlo, by exact_mod_cast hhi⟩
        · intro h
          obtain ⟨hlo, hhi⟩ := h c rfl
          exact ⟨by exact_mod_cast hlo, by exact_mod_cast hhi⟩

/-- What the record says after any sequence of calls. -/
theorem memory_record {cs : List Observation} (hcs : Ordered cs) :
    let m := (tally cs).1
    (memoryValid m = true ↔
      ∀ c ∈ cs.getLast?, 0 ≤ c.timestamp ∧ c.timestamp ≤ 1000000000000) ∧
    m.gpuSamples = distinct (tally cs).2 ∧ m.gpuPeak = .fin (peak (tally cs).2) ∧
    ∀ c, m.lastSequence ≤ (observation m c).lastSequence ∧
      ((observation m c).gpuEnd ≠ .fin (-1) ↔ (measured m c).isSome = true) := by
  intro m
  have h : Tallied cs := tally_tallied hcs
  have hfew : m.gpuSamples ≤ 1000000 := by
    have hle := distinct_mono h.seen
    have hlt := hcs.few
    have hcount : m.gpuSamples = distinct (tally cs).2 := h.count
    omega
  obtain ⟨t, hat, ht⟩ := tally_sampledAt cs
  refine ⟨(valid_iff_sampledAt h.range hat hfew).trans ht, h.count, h.top, fun c => ?_⟩
  rcases observation_cases m c with ⟨hnone, hend, _, _, hseq⟩ | ⟨s, hsome, hge, hseq, hend, _, _⟩
  · constructor
    · rcases hseq with heq | ⟨s, _, hge, heq, _⟩ <;> omega
    · rw [hnone, hend]
      exact iff_of_false (fun hne => hne rfl) (by decide)
  · constructor
    · omega
    · rw [hsome, hend]
      refine iff_of_true (fun heq => ?_) rfl
      injection heq with heq
      have hpos : (0 : Rat) ≤ s.allocatedBytes := by positivity
      linarith

/-- The calls of a request with two samples, one of them met twice. -/
def twoSamples : List Observation :=
  [⟨some ⟨2, 1000000000, 10737418240, 1, 1, true⟩, 1000000000, 1790000000⟩,
    ⟨some ⟨2, 1000000000, 10737418240, 1, 1, true⟩, 2000000000, 1790000001⟩,
    ⟨none, 2000000000, 1790000001⟩,
    ⟨some ⟨4, 1000000000, 0, 1, 1, true⟩, 2000000000, 1790000001⟩,
    ⟨some ⟨4, 1000000000, 0, 1, 1, true⟩, 7000000001, 1790000007⟩]

theorem twoSamples_ordered : Ordered twoSamples where
  ordered := by decide
  clock := by decide
  numbered := by decide
  content := by decide
  few := by decide

theorem memory_record_two : (tally twoSamples).1.gpuSamples = 2 ∧
    memoryValid (tally twoSamples).1 = true := by
  obtain ⟨hvalid, hcount, _⟩ := memory_record twoSamples_ordered
  exact ⟨hcount.trans (by decide +kernel), hvalid.mpr (by decide)⟩

/-- A clock that stands before its epoch makes the record invalid. -/
theorem memory_record_early : Ordered [⟨none, 0, -1⟩] ∧
    memoryValid (tally [⟨none, 0, -1⟩]).1 = false :=
  ⟨⟨by decide, by decide, by decide, by decide, by decide⟩, by decide +kernel⟩

end GeistServe.Proofs
