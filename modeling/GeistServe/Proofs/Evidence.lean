import GeistServe.Quality.Evidence
import Mathlib.Tactic.Linarith
import Mathlib.Tactic.Positivity
import Mathlib.Data.List.GetD
import Mathlib.Data.List.Nodup
import Mathlib.Logic.Function.Basic

/-!
# Is the evidence fail-closed?

A cell passes exactly if everything that is looked at vouches for it
(`summarizeCell_passed_iff`). Worse ratings never make a status better: how complete the
ratings are does not change, passes can only go and critical errors can only come
(`summarizeCell_mono`).

The ratings that are looked at are those of the sample. A critical error that was found in
another row of the cell is not counted, so a cell can pass with it
(`summarize_failClosed_iff`).
-/

namespace GeistServe.Quality

/-! ## Statuses -/

/-- Failed is worse than unverified, and unverified is worse than passed. -/
def Status.rank : Status → Nat
  | .failed => 0
  | .unverified => 1
  | .passed => 2

/-- The status that a cell gets. -/
def judge (passed failed : Bool) : Status :=
  if passed then .passed else if failed then .failed else .unverified

theorem judge_passed {passed failed : Bool} : judge passed failed = .passed ↔ passed = true := by
  cases passed <;> cases failed <;> simp [judge]

/-- Less to pass on and more to fail on. -/
theorem judge_mono {passed failed passed' failed' : Bool} (hp : passed' = true → passed = true)
    (hf : failed = true → failed' = true) :
    (judge passed' failed').rank ≤ (judge passed failed).rank := by
  cases passed with
  | true => cases passed' <;> cases failed' <;> simp [judge, Status.rank]
  | false =>
      have hp' : passed' = false := by
        cases passed' with
        | true => exact absurd (hp rfl) (by decide)
        | false => rfl
      rw [hp']
      cases failed with
      | true => rw [hf rfl]
      | false => cases failed' <;> simp [judge, Status.rank]

/-! ## What a pass needs -/

/-- The sample of a cell. -/
def cellSample (digest : String → Nat) (run : Run) (task language : String) : List Row :=
  sampleRows digest (ordinaryRows run task language) (adverseRows run task language)

/-- The ratings of the first ten rows of the sample. -/
def ordinaryRatings (digest : String → Nat) (run : Run) (reviews : Reviews) (task language : String) :
    List Value :=
  ((cellSample digest run task language).map fun r => reviews r.id).take 10

/-- The full split and the adverse cases are there, the rates meet the policy, every required
rating is complete, and no row is critical by the run, nor any of `seen` by its review. -/
structure Vouched (digest : String → Nat) (run : Run) (reviews : Reviews) (task language : String)
    (seen : List Row) : Prop where
  split : run.split.isText "acceptance" = true
  cases : (ordinaryRows run task language).length = 50
  adverse : (adverseRows run task language).length = 5
  rate : 9 / 10 ≤ passRate (ordinaryRows run task language)
  adverseRate : ∀ r ∈ adverseRows run task language, r.automaticPass.isTrue = true
  sampled : (cellSample digest run task language).length = 15
  rated : ∀ r ∈ cellSample digest run task language, (reviews r.id).isRating = true
  humanRate : 9 / 10 ≤ ((ordinaryRatings digest run reviews task language).countP Value.passes : Rat) /
    (ordinaryRatings digest run reviews task language).length
  adverseHuman : ∀ r ∈ adverseRows run task language, (reviews r.id).passes = true
  run : ∀ r ∈ ordinaryRows run task language ++ adverseRows run task language,
    r.critical.truthy = false
  reviews : ∀ r ∈ seen, (reviews r.id).isCritical = false

theorem criticalErrors_zero {rows adverse : List Row} {rated : List Value} :
    criticalErrors rows adverse rated = 0 ↔
      (∀ r ∈ rows ++ adverse, r.critical.truthy = false) ∧ ∀ x ∈ rated, x.isCritical = false := by
  simp only [criticalErrors, Nat.add_eq_zero_iff, List.countP_eq_zero, Bool.not_eq_true]

section

variable {digest : String → Nat} {run : Run} {reviews : Reviews} {task language : String}

theorem isComplete_iff {sample : List Row} :
    isComplete sample (sample.map fun r => reviews r.id) = true ↔
      sample.length = 15 ∧ ∀ r ∈ sample, (reviews r.id).isRating = true := by
  rw [isComplete, Bool.and_eq_true, decide_eq_true_iff, List.all_map, List.all_eq_true]
  rfl

theorem adverseOk_iff {adverse : List Row} :
    adverseOk adverse = true ↔
      adverse.length = 5 ∧ ∀ r ∈ adverse, r.automaticPass.isTrue = true := by
  rw [adverseOk, Bool.and_eq_true, decide_eq_true_iff, List.all_eq_true]
  rfl

/-- Everything that is looked at vouches for a cell that passes. -/
theorem summarizeCell_passed_iff :
    (summarizeCell digest run reviews task language).quality = .passed ↔
      Vouched digest run reviews task language (cellSample digest run task language) := by
  show (judge _ _ = .passed ↔ _)
  rw [judge_passed]
  simp only [Bool.and_eq_true, decide_eq_true_iff, isComplete_iff, adverseOk_iff,
    criticalErrors_zero, List.all_eq_true, List.forall_mem_map]
  constructor
  · rintro ⟨⟨⟨⟨⟨⟨hcases, hsplit⟩, hrate⟩, ⟨hsampled, hrated⟩, hhuman⟩, hadverse, hpass⟩, -, hahuman⟩,
      hrun, hreviews⟩
    exact ⟨hsplit, hcases, hadverse, hrate, hpass, hsampled, hrated, of_decide_eq_true hhuman, hahuman,
      hrun, hreviews⟩
  · rintro ⟨hsplit, hcases, hadverse, hrate, hpass, hsampled, hrated, hhuman, hahuman, hrun, hreviews⟩
    exact ⟨⟨⟨⟨⟨⟨hcases, hsplit⟩, hrate⟩, ⟨hsampled, hrated⟩, decide_eq_true hhuman⟩, hadverse, hpass⟩,
      ⟨hsampled, hrated⟩, hahuman⟩, hrun, hreviews⟩

/-! ## Worse ratings -/

/-- A rating that is complete if the other one is, with no pass and no lack of critical errors
that the other one does not have. -/
structure Worse (x y : Value) : Prop where
  rating : y.isRating = x.isRating
  passes : y.passes = true → x.passes = true
  critical : x.isCritical = true → y.isCritical = true

theorem Worse.refl (x : Value) : Worse x x := ⟨rfl, id, id⟩

variable {reviews' : Reviews}

theorem isComplete_worse (h : ∀ id, Worse (reviews id) (reviews' id)) (sample : List Row) :
    isComplete sample (sample.map fun r => reviews' r.id) =
      isComplete sample (sample.map fun r => reviews r.id) := by
  have hrating : (fun r : Row => (reviews' r.id).isRating) = fun r : Row => (reviews r.id).isRating :=
    funext fun r => (h r.id).rating
  rw [isComplete, isComplete, List.all_map, List.all_map]
  show (_ && sample.all (fun r : Row => (reviews' r.id).isRating)) = _
  rw [hrating]
  rfl

theorem ratingsOk_worse (h : ∀ id, Worse (reviews id) (reviews' id)) (sample : List Row)
    (hok : ratingsOk (sample.map fun r => reviews' r.id) = true) :
    ratingsOk (sample.map fun r => reviews r.id) = true := by
  rw [ratingsOk, decide_eq_true_iff, ← List.map_take, List.length_map, List.countP_map] at hok ⊢
  refine le_trans hok (div_le_div_of_nonneg_right ?_ (Nat.cast_nonneg _))
  refine Nat.cast_le.mpr (List.countP_mono_left fun r _ hr => ?_)
  exact (h r.id).passes hr

theorem criticalErrors_worse (h : ∀ id, Worse (reviews id) (reviews' id)) (rows adverse sample : List Row) :
    criticalErrors rows adverse (sample.map fun r => reviews r.id) ≤
      criticalErrors rows adverse (sample.map fun r => reviews' r.id) := by
  rw [criticalErrors, criticalErrors, List.countP_map, List.countP_map]
  refine Nat.add_le_add_left (List.countP_mono_left fun r _ hr => ?_) _
  exact (h r.id).critical hr

theorem passes_worse (h : ∀ id, Worse (reviews id) (reviews' id)) {adverse : List Row}
    (hall : (adverse.all fun r => (reviews' r.id).passes) = true) :
    (adverse.all fun r => (reviews r.id).passes) = true := by
  rw [List.all_eq_true] at hall ⊢
  exact fun r hr => (h r.id).passes (hall r hr)

/-- Under worse reviews the status of a cell is not better. -/
theorem summarizeCell_mono (h : ∀ id, Worse (reviews id) (reviews' id)) :
    (summarizeCell digest run reviews' task language).quality.rank ≤
      (summarizeCell digest run reviews task language).quality.rank := by
  have hcomplete := isComplete_worse h (cellSample digest run task language)
  have hratings := ratingsOk_worse h (cellSample digest run task language)
  have hcritical := criticalErrors_worse h (ordinaryRows run task language)
    (adverseRows run task language) (cellSample digest run task language)
  have hpasses := @passes_worse reviews reviews' h (adverseRows run task language)
  refine judge_mono ?_ ?_
  · simp only [Bool.and_eq_true, decide_eq_true_iff]
    rintro ⟨⟨⟨⟨⟨henough, hrate⟩, hc, hok⟩, hadverse⟩, -, hall⟩, hzero⟩
    have hc' := hcomplete.symm.trans hc
    exact ⟨⟨⟨⟨⟨henough, hrate⟩, hc', hratings hok⟩, hadverse⟩, hc', hpasses hall⟩,
      Nat.le_zero.mp (Nat.le_trans hcritical (Nat.le_of_eq hzero))⟩
  · simp only [Bool.and_eq_true, Bool.or_eq_true, decide_eq_true_iff, Bool.not_eq_true',
      Bool.and_eq_false_iff]
    rintro ⟨hrows, ((hrate | hc) | hadverse) | ⟨hc, hfail⟩⟩
    · exact ⟨hrows, .inl (.inl (.inl hrate))⟩
    · refine ⟨hrows, .inl (.inl (.inr fun hzero => hc ?_))⟩
      exact Nat.le_zero.mp (Nat.le_trans hcritical (Nat.le_of_eq hzero))
    · exact ⟨hrows, .inl (.inr hadverse)⟩
    · have hc' := hcomplete.trans hc
      refine ⟨hrows, .inr ⟨hc', ?_⟩⟩
      rcases hfail with (hno | hno) | (hno | hno)
      · exact absurd (hno.symm.trans hc) (by decide)
      · exact .inl (.inr (Bool.eq_false_iff.mpr fun hok => Bool.eq_false_iff.mp hno (hratings hok)))
      · exact absurd (hno.symm.trans hc) (by decide)
      · exact .inr (.inr (Bool.eq_false_iff.mpr fun hall => Bool.eq_false_iff.mp hno (hpasses hall)))

end

/-! ## Fail-closed -/

/-- One complete review changes, at most from pass to fail and from non-critical to critical. -/
def Worsened (reviews reviews' : Reviews) : Prop :=
  ∃ id x, (reviews id).isRating = true ∧ x.isRating = true ∧ reviews' = Function.update reviews id x ∧
    (x.passes = true → (reviews id).passes = true) ∧
    ((reviews id).isCritical = true → x.isCritical = true)

theorem Worsened.worse {reviews reviews' : Reviews} (h : Worsened reviews reviews') (id : String) :
    Worse (reviews id) (reviews' id) := by
  obtain ⟨changed, x, hrating, hx, rfl, hpasses, hcritical⟩ := h
  by_cases hid : id = changed
  · rw [hid, Function.update_self]
    exact ⟨hx.trans hrating.symm, hpasses, hcritical⟩
  · rw [Function.update_of_ne hid]
    exact Worse.refl _

/-- A cell of the same task and language with a status that is not better. -/
structure NotBetter (c c' : Cell) : Prop where
  task : c'.task = c.task
  language : c'.language = c.language
  quality : c'.quality.rank ≤ c.quality.rank

/-- Every cell that passes is vouched for, whatever reviews were given for its rows, and a review
that gets worse makes no cell better. -/
structure FailClosed (digest : String → Nat) (run : Run) (reviews : Reviews) : Prop where
  passed : ∀ cells, summarize digest run reviews = some cells → ∀ c ∈ cells, c.quality = .passed →
    Vouched digest run reviews c.task c.language
      (ordinaryRows run c.task c.language ++ adverseRows run c.task c.language)
  monotone : ∀ reviews', Worsened reviews reviews' → ∀ cells cells',
    summarize digest run reviews = some cells → summarize digest run reviews' = some cells' →
    List.Forall₂ NotBetter cells cells'

/-- A row of the cell outside the sample whose review is marked critical. -/
def Overlooked (digest : String → Nat) (run : Run) (reviews : Reviews) (task language : String) :
    Prop :=
  ∃ r ∈ ordinaryRows run task language, r ∉ cellSample digest run task language ∧
    (reviews r.id).isCritical = true

section

variable {digest : String → Nat} {run : Run} {reviews : Reviews} {task language : String}

theorem mem_sample {r : Row} (h : r ∈ cellSample digest run task language) :
    r ∈ ordinaryRows run task language ++ adverseRows run task language := by
  rcases List.mem_append.mp h with h | h
  · exact List.mem_append_left _ (List.mem_mergeSort.mp (List.mem_of_mem_take h))
  · exact List.mem_append_right _ h

/-- To look at more rows is to ask for more. -/
theorem Vouched.seen {seen seen' : List Row} (h : Vouched digest run reviews task language seen)
    (hreviews : ∀ r ∈ seen', (reviews r.id).isCritical = false) :
    Vouched digest run reviews task language seen' :=
  { h with reviews := hreviews }

/-- What the sample does not say is whether a row outside of it is critical. -/
theorem vouched_all_iff :
    Vouched digest run reviews task language
        (ordinaryRows run task language ++ adverseRows run task language) ↔
      Vouched digest run reviews task language (cellSample digest run task language) ∧
        ¬ Overlooked digest run reviews task language := by
  constructor
  · intro h
    refine ⟨h.seen fun r hr => h.reviews r (mem_sample hr), ?_⟩
    rintro ⟨r, hr, -, hcritical⟩
    rw [h.reviews r (List.mem_append_left _ hr)] at hcritical
    cases hcritical
  · rintro ⟨h, hno⟩
    refine h.seen fun r hr => ?_
    by_cases hsample : r ∈ cellSample digest run task language
    · exact h.reviews r hsample
    · rcases List.mem_append.mp hr with hr | hr
      · by_contra hcritical
        exact hno ⟨r, hr, hsample, Bool.eq_true_of_not_eq_false hcritical⟩
      · exact absurd (List.mem_append_right _ hr) hsample

end

theorem mem_summarize {digest : String → Nat} {run : Run} {reviews : Reviews} {cells : List Cell}
    (h : summarize digest run reviews = some cells) (c : Cell) :
    c ∈ cells ↔ ∃ task ∈ POLICY.tasks, ∃ language ∈ POLICY.languages,
      c = summarizeCell digest run reviews task language := by
  unfold summarize at h
  split at h
  · cases h
    rw [List.mem_flatMap]
    constructor
    · rintro ⟨task, htask, hc⟩
      obtain ⟨language, hlanguage, rfl⟩ := List.mem_map.mp hc
      exact ⟨task, htask, language, hlanguage, rfl⟩
    · rintro ⟨task, htask, language, hlanguage, rfl⟩
      exact ⟨task, htask, List.mem_map.mpr ⟨language, hlanguage, rfl⟩⟩
  · cases h

/-- In every run a review that gets worse makes no cell better. -/
theorem summarize_mono {digest : String → Nat} {run : Run} {reviews reviews' : Reviews}
    (h : ∀ id, Worse (reviews id) (reviews' id)) {cells cells' : List Cell}
    (hs : summarize digest run reviews = some cells) (hs' : summarize digest run reviews' = some cells') :
    List.Forall₂ NotBetter cells cells' := by
  unfold summarize at hs hs'
  split at hs
  · next hids =>
      rw [if_pos hids] at hs'
      cases hs
      cases hs'
      refine List.rel_flatMap (List.forall₂_same.mpr fun task _ => rfl) ?_
      rintro task _ rfl
      rw [List.forall₂_map_left_iff, List.forall₂_map_right_iff, List.forall₂_same]
      exact fun language _ => ⟨rfl, rfl, summarizeCell_mono h⟩
  · cases hs

/-- If the evidence is fail-closed, a cell that its sample vouches for has no overlooked row. -/
theorem FailClosed.overlooked {digest : String → Nat} {run : Run} {reviews : Reviews}
    (h : FailClosed digest run reviews) (hids : (run.rows.map Row.id).Nodup) {task language : String}
    (htask : task ∈ POLICY.tasks) (hlanguage : language ∈ POLICY.languages)
    (hvouched : Vouched digest run reviews task language (cellSample digest run task language)) :
    ¬ Overlooked digest run reviews task language := by
  have hs : ∃ cells, summarize digest run reviews = some cells := ⟨_, if_pos hids⟩
  obtain ⟨cells, hs⟩ := hs
  have hmem := (mem_summarize hs _).mpr ⟨task, htask, language, hlanguage, rfl⟩
  have hall := h.passed cells hs _ hmem (summarizeCell_passed_iff.mpr hvouched)
  exact (vouched_all_iff.mp hall).2

/-- For every order of the rows, every run and all reviews: the evidence is fail-closed exactly if
no cell that its sample vouches for has an overlooked row. -/
theorem summarize_failClosed_iff (digest : String → Nat) (run : Run) (reviews : Reviews) :
    FailClosed digest run reviews ↔ ((run.rows.map Row.id).Nodup →
      ∀ task ∈ POLICY.tasks, ∀ language ∈ POLICY.languages,
        ¬ (Vouched digest run reviews task language (cellSample digest run task language) ∧
          Overlooked digest run reviews task language)) := by
  constructor
  · rintro h hids task htask language hlanguage ⟨hvouched, hover⟩
    exact h.overlooked hids htask hlanguage hvouched hover
  · intro h
    refine ⟨?_, fun reviews' hworse cells cells' hs hs' => summarize_mono hworse.worse hs hs'⟩
    intro cells hs c hc hpassed
    have hids : (run.rows.map Row.id).Nodup := by
      by_contra hno
      rw [summarize, if_neg hno] at hs
      cases hs
    obtain ⟨task, htask, language, hlanguage, rfl⟩ := (mem_summarize hs c).mp hc
    have hvouched := summarizeCell_passed_iff.mp hpassed
    exact vouched_all_iff.mpr ⟨hvouched, fun hover => h hids task htask language hlanguage ⟨hvouched, hover⟩⟩

/-! ## An overlooked row -/

def ordinaryRow (i : Nat) : Row :=
  { id := "rewrite-de-" ++ toString i, task := "rewrite", language := "de",
    automaticPass := .bool true, critical := .bool false }

def adverseRow (i : Nat) : Row :=
  { id := "adverse-rewrite-de-" ++ toString i, task := "rewrite", language := "de",
    adverse := .bool true, automaticPass := .bool true, critical := .bool false }

/-- A run with one full cell. -/
def fixture : Run :=
  { split := .str "acceptance",
    rows := (List.range 50).map ordinaryRow ++ (List.range 5).map adverseRow }

/-- A complete rating. -/
def rating (critical : Bool) : Value :=
  .dict [("pass", .bool true), ("critical", .bool critical), ("reason", .str "Meets the stated rubric")]

theorem fixture_ordinary : ordinaryRows fixture "rewrite" "de" = (List.range 50).map ordinaryRow := by
  have hkept : ∀ r ∈ (List.range 50).map ordinaryRow,
      (r.inCell "rewrite" "de" && !r.adverse.truthy) = true := by
    intro r hr
    obtain ⟨i, -, rfl⟩ := List.mem_map.mp hr
    rfl
  have hdropped : ∀ r ∈ (List.range 5).map adverseRow,
      ¬ (r.inCell "rewrite" "de" && !r.adverse.truthy) = true := by
    intro r hr
    obtain ⟨i, -, rfl⟩ := List.mem_map.mp hr
    exact Bool.false_ne_true
  show List.filter _ (_ ++ _) = _
  rw [List.filter_append, List.filter_eq_self.mpr hkept, List.filter_eq_nil_iff.mpr hdropped,
    List.append_nil]

theorem fixture_adverse : adverseRows fixture "rewrite" "de" = (List.range 5).map adverseRow := by
  have hdropped : ∀ r ∈ (List.range 50).map ordinaryRow,
      ¬ (r.inCell "rewrite" "de" && r.adverse.truthy) = true := by
    intro r hr
    obtain ⟨i, -, rfl⟩ := List.mem_map.mp hr
    exact Bool.false_ne_true
  have hkept : ∀ r ∈ (List.range 5).map adverseRow,
      (r.inCell "rewrite" "de" && r.adverse.truthy) = true := by
    intro r hr
    obtain ⟨i, -, rfl⟩ := List.mem_map.mp hr
    rfl
  show List.filter _ (_ ++ _) = _
  rw [List.filter_append, List.filter_eq_nil_iff.mpr hdropped, List.filter_eq_self.mpr hkept,
    List.nil_append]

theorem fixture_sample_length (digest : String → Nat) :
    (cellSample digest fixture "rewrite" "de").length = 15 := by
  rw [cellSample, fixture_ordinary, fixture_adverse, sampleRows, List.length_append, List.length_take,
    List.length_mergeSort, List.length_map, List.length_map]
  rfl

/-- Whatever the order is, ten of fifty rows are sampled. -/
theorem fixture_unsampled (digest : String → Nat) : ∃ u ∈ ordinaryRows fixture "rewrite" "de",
    u.id ∉ (cellSample digest fixture "rewrite" "de").map Row.id := by
  by_contra hno
  have hall : ∀ u ∈ ordinaryRows fixture "rewrite" "de",
      u.id ∈ (cellSample digest fixture "rewrite" "de").map Row.id := fun u hu => by
    by_contra hout
    exact hno ⟨u, hu, hout⟩
  have hids : ((ordinaryRows fixture "rewrite" "de").map Row.id).Nodup := by
    rw [fixture_ordinary]
    decide +kernel
  have hsubset : (ordinaryRows fixture "rewrite" "de").map Row.id ⊆
      (cellSample digest fixture "rewrite" "de").map Row.id := List.forall_mem_map.mpr hall
  have hlength := (hids.subperm hsubset).length_le
  rw [List.length_map, List.length_map, fixture_sample_length, fixture_ordinary, List.length_map,
    List.length_range] at hlength
  omega

theorem fixture_vouched (digest : String → Nat) {hidden : String}
    (hhidden : hidden ∉ (cellSample digest fixture "rewrite" "de").map Row.id) :
    Vouched digest fixture (fun id => rating (id == hidden)) "rewrite" "de"
      (cellSample digest fixture "rewrite" "de") := by
  have hrating : ∀ b, (rating b).isRating = true ∧ (rating b).passes = true := by decide +kernel
  have hratings : (ordinaryRatings digest fixture (fun id => rating (id == hidden)) "rewrite"
      "de").length = 10 := by
    rw [ordinaryRatings, List.length_take, List.length_map, fixture_sample_length]
    rfl
  refine ⟨rfl, by rw [fixture_ordinary]; rfl, by rw [fixture_adverse]; rfl, ?_, ?_,
    fixture_sample_length digest, fun r _ => (hrating _).1, ?_, fun r _ => (hrating _).2, ?_, ?_⟩
  · rw [fixture_ordinary]
    decide +kernel
  · intro r hr
    rw [fixture_adverse] at hr
    obtain ⟨i, -, rfl⟩ := List.mem_map.mp hr
    rfl
  · rw [List.countP_eq_length.mpr, hratings]
    · norm_num
    · intro x hx
      obtain ⟨r, -, rfl⟩ := List.mem_map.mp (List.mem_of_mem_take hx)
      exact (hrating _).2
  · intro r hr
    rw [fixture_ordinary, fixture_adverse] at hr
    rcases List.mem_append.mp hr with hr | hr
    · obtain ⟨i, -, rfl⟩ := List.mem_map.mp hr
      rfl
    · obtain ⟨i, -, rfl⟩ := List.mem_map.mp hr
      rfl
  · intro r hr
    have hother : (r.id == hidden) = false := by
      refine beq_eq_false_iff_ne.mpr fun heq => hhidden ?_
      exact heq ▸ List.mem_map_of_mem hr
    show (rating (r.id == hidden)).isCritical = false
    rw [hother]
    rfl

/-- In every order there is a row whose critical error is overlooked, and the cell passes. -/
theorem fixture_not_failClosed : ¬ ∃ digest : String → Nat, ∀ hidden ∈ fixture.rows.map Row.id,
    FailClosed digest fixture fun id => rating (id == hidden) := by
  rintro ⟨digest, h⟩
  obtain ⟨u, hu, hout⟩ := fixture_unsampled digest
  have hids : (fixture.rows.map Row.id).Nodup := by decide +kernel
  have hclosed := h u.id (List.mem_map_of_mem (List.mem_of_mem_filter hu))
  refine hclosed.overlooked hids (by decide) (by decide) (fixture_vouched digest hout) ⟨u, hu, ?_, ?_⟩
  · exact fun hsample => hout (List.mem_map_of_mem hsample)
  · show (rating (u.id == u.id)).isCritical = true
    rw [beq_self_eq_true]
    rfl

end GeistServe.Quality
