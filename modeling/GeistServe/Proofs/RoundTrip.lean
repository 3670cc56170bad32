import GeistServe.Proofs.RecordText

/-!
# A record comes back from its line

`record_json` and `parse` carry some fifty fields, in three objects. What comes back is
`restored`, field by field, and the fields that the text has are those of `serialized`.
Both are the same exactly for a `Normal` record.
-/

namespace GeistServe.Proofs

open GeistServe.Lib GeistServe.Geistd GeistServe.Json GeistServe.Perf

/-! ## What comes back -/

/-- The record that `parse` makes of a line. -/
def restored (r : PerfRecord) : PerfRecord :=
  { r with
    engine := if r.schema = 2 then restoredEngine r.engine else {}
    memory := restoredMemory r.memory
    firstNs := known r.firstNs
    firstAnswerNs := known r.firstAnswerNs
    prefillNs := known r.prefillNs
    loadNs := known r.loadNs
    rss := known r.rss
    peakRss := known r.peakRss
    cpuPercent := known r.cpuPercent }

/-- The doubles of a record. -/
def numbersOf (r : PerfRecord) : List Double :=
  [r.timestamp, r.generationNs, r.firstNs, r.firstAnswerNs, r.totalNs, r.prefillNs, r.loadNs,
    r.rss, r.peakRss, r.cpuPercent, r.temperature, r.topP] ++ MemoryRecord.numbers r.memory

/-- `valid`, test by test. -/
structure SoundRecord (now : Int) (r : PerfRecord) : Prop where
  engine : SoundEngine r.engine
  id : token 160 r.id = true
  artifact : token 65 r.artifact = true
  series : token 768 r.series = true
  backend : token 24 r.backend = true
  source : oneOf ["app", "api", "controlled_test", "legacy_last_reply"] r.source = true
  outcome : oneOf ["no_answer", "completed", "error", "interrupted", "disconnected",
    "cancelled"] r.outcome = true
  timestamp : withinAfter (now + 300) r.timestamp = true
  generationNs : within 0 HOUR_NS r.generationNs = true
  totalNs : within 0 HOUR_NS r.totalNs = true
  firstNs : withinTotal r.firstNs r.totalNs = true
  firstAnswerNs : withinTotal r.firstAnswerNs r.totalNs = true
  prefillNs : within (-1) HOUR_NS r.prefillNs = true
  loadNs : within (-1) HOUR_NS r.loadNs = true
  rss : within (-1) 1000000000000000 r.rss = true
  peakRss : within (-1) 1000000000000000 r.peakRss = true
  cpuPercent : within (-1) (10001 / 100) r.cpuPercent = true
  memory : SoundMemory r.memory
  input : r.input ≤ 1000000
  output : r.output ≤ 1000000
  reused : r.reused ≤ r.input
  temperature : within 0 10 r.temperature = true
  topP : within 0 1 r.topP = true
  samples : r.samples ≤ 3601

theorem soundRecord_iff {now : Int} {r : PerfRecord} : r.valid now = true ↔ SoundRecord now r := by
  simp only [PerfRecord.valid, Bool.and_eq_true, decide_eq_true_eq, soundEngine_iff,
    soundMemory_iff, and_assoc]
  constructor
  · rintro ⟨h₁, h₂, h₃, h₄, h₅, h₆, h₇, h₈, h₉, h₁₀, h₁₁, h₁₂, h₁₃, h₁₄, h₁₅, h₁₆, h₁₇, h₁₈,
      h₁₉, h₂₀, h₂₁, h₂₂, h₂₃, h₂₄⟩
    exact ⟨h₁, h₂, h₃, h₄, h₅, h₆, h₇, h₈, h₉, h₁₀, h₁₁, h₁₂, h₁₃, h₁₄, h₁₅, h₁₆, h₁₇, h₁₈,
      h₁₉, h₂₀, h₂₁, h₂₂, h₂₃, h₂₄⟩
  · rintro ⟨h₁, h₂, h₃, h₄, h₅, h₆, h₇, h₈, h₉, h₁₀, h₁₁, h₁₂, h₁₃, h₁₄, h₁₅, h₁₆, h₁₇, h₁₈,
      h₁₉, h₂₀, h₂₁, h₂₂, h₂₃, h₂₄⟩
    exact ⟨h₁, h₂, h₃, h₄, h₅, h₆, h₇, h₈, h₉, h₁₀, h₁₁, h₁₂, h₁₃, h₁₄, h₁₅, h₁₆, h₁₇, h₁₈,
      h₁₉, h₂₀, h₂₁, h₂₂, h₂₃, h₂₄⟩

theorem withinAfter_fin {hi : ℚ} {n : Double} :
    withinAfter hi n = true ↔ ∃ q, n = .fin q ∧ 0 < q ∧ q ≤ hi := by
  cases n with
  | fin q =>
      rw [withinAfter, Bool.and_eq_true, decide_eq_true_eq, decide_eq_true_eq]
      constructor
      · intro h
        exact ⟨q, rfl, h⟩
      · rintro ⟨q', hq, h⟩
        exact Double.fin.inj hq ▸ h
  | inf neg | nan =>
      constructor
      · intro h
        cases h
      · rintro ⟨q, hq, _⟩
        cases hq

theorem withinTotal_fin {n total : Double} :
    withinTotal n total = true ↔ ∃ q t, n = .fin q ∧ total = .fin t ∧ -1 ≤ q ∧ q ≤ t := by
  cases n with
  | fin q =>
      cases total with
      | fin t =>
          rw [withinTotal, Bool.and_eq_true, decide_eq_true_eq, decide_eq_true_eq]
          constructor
          · intro h
            exact ⟨q, t, rfl, rfl, h⟩
          · rintro ⟨q', t', hq, ht, h⟩
            rw [Double.fin.inj hq, Double.fin.inj ht]
            exact h
      | inf neg | nan =>
          constructor
          · intro h
            cases h
          · rintro ⟨_, _, _, ht, _⟩
            cases ht
  | inf neg | nan =>
      constructor
      · intro h
        cases total <;> cases h
      · rintro ⟨_, _, hq, _⟩
        cases hq

theorem withinTotal_known {n total : Double} {hi : ℚ} (htotal : within 0 hi total = true)
    (h : withinTotal n total = true) : withinTotal (known n) total = true := by
  obtain ⟨q, t, rfl, rfl, hlo, hle⟩ := withinTotal_fin.mp h
  obtain ⟨t', ht, h0, _⟩ := within_fin.mp htotal
  obtain rfl := Double.fin.inj ht
  rw [known, orElse]
  split
  · exact withinTotal_fin.mpr ⟨-1, t, rfl, rfl, le_refl _, by linarith⟩
  · exact withinTotal_fin.mpr ⟨q, t, rfl, rfl, hlo, hle⟩

theorem soundEngine_empty : SoundEngine {} := soundEngine_iff.mp (by decide)

/-- What comes back is valid, and stays so. -/
theorem SoundRecord.restored {now now' : Int} {r : PerfRecord} (h : SoundRecord now r)
    (hnow : now ≤ now') : SoundRecord now' (Proofs.restored r) := by
  have hhour : (0 : ℚ) ≤ HOUR_NS := by
    rw [HOUR_NS]
    norm_num
  have htimestamp : withinAfter (now' + 300) r.timestamp = true := by
    obtain ⟨q, hq, hpos, hle⟩ := withinAfter_fin.mp h.timestamp
    have hcast : (now : ℚ) ≤ now' := by exact_mod_cast hnow
    exact withinAfter_fin.mpr ⟨q, hq, hpos, by linarith⟩
  have hengine : SoundEngine (Proofs.restored r).engine := by
    show SoundEngine (if r.schema = 2 then restoredEngine r.engine else {})
    split
    · exact h.engine.restored
    · exact soundEngine_empty
  exact { h with
    engine := hengine
    timestamp := htimestamp
    firstNs := withinTotal_known h.totalNs h.firstNs
    firstAnswerNs := withinTotal_known h.totalNs h.firstAnswerNs
    prefillNs := within_known hhour h.prefillNs
    loadNs := within_known hhour h.loadNs
    rss := within_known (by norm_num) h.rss
    peakRss := within_known (by norm_num) h.peakRss
    cpuPercent := within_known (by norm_num) h.cpuPercent
    memory := h.memory.restored }

/-! ## The readers, one after the other -/

section
variable {j : Doc} {r : PerfRecord} {now : Int}

/-- A key of the tail is not found in front of it. -/
theorem lookup_tail {key : String} {t : Tree}
    (hkey : lit key ∉ [lit "schema", lit "reasoning", lit "engine"])
    (h : lookup (lit key) (tailMembers r) = some t) :
    lookup (lit key) (recordMembers r) = some t := by
  simp only [List.mem_cons, List.not_mem_nil, or_false, not_or] at hkey
  rw [recordMembers, headMembers, List.cons_append, lookup_cons_ne _ _ (Ne.symm hkey.1),
    List.cons_append, lookup_cons_ne _ _ (Ne.symm hkey.2.1), List.nil_append, engineMember]
  split
  · rw [List.cons_append, lookup_cons_ne _ _ (Ne.symm hkey.2.2), List.nil_append, h]
  · exact h

theorem schema_read (h : Shows j 0 (.obj (recordMembers r)))
    (hschema : r.schema = 1 ∨ r.schema = 2) : readSchema j = some r.schema := by
  have hl : lookup (lit "schema") (recordMembers r) =
      some (.prim (if r.schema = 1 then lit "1" else lit "2")) := rfl
  have hone : strtod (lit "1") = .fin 1 := by
    have h := strtod_digits (s := lit "1") (by decide) (by decide) (by decide)
    rwa [show ofDigits (lit "1") = 1 by decide, Nat.cast_one] at h
  have htwo : strtod (lit "2") = .fin 2 := by
    have h := strtod_digits (s := lit "2") (by decide) (by decide) (by decide)
    rwa [show ofDigits (lit "2") = 2 by decide, Nat.cast_ofNat] at h
  rw [readSchema, num_member h hl]
  rcases hschema with hs | hs
  · rw [if_pos hs, numOf_written (written_digits (by decide) (by decide)), hone, hs]
    exact if_pos rfl
  · rw [if_neg (by omega), numOf_written (written_digits (by decide) (by decide)), htwo, hs]
    dsimp only
    rw [if_neg (by norm_num), if_pos rfl]

theorem engine_member_read (h : Shows j 0 (.obj (recordMembers r))) (hr : SoundRecord now r)
    (hshape : r.Shaped) : readEngine j r.schema =
      some (if r.schema = 2 then restoredEngine r.engine else {}) := by
  rw [readEngine]
  split
  · next hschema =>
      have hl : lookup (lit "engine") (recordMembers r) =
          some (.obj (engineMembers r.engine)) := by
        rw [recordMembers, engineMember, if_pos (by omega)]
        rfl
      obtain ⟨k, hk, hobject, hshows⟩ := object_member h hl
      rw [hk, Option.bind_some]
      exact engine_read hshows hr.engine hshape.version hshape.revision hshape.sourceState
        hshape.payload hobject
  · rfl

theorem memory_member_read (h : Shows j 0 (.obj (recordMembers r))) (hr : SoundRecord now r)
    (hshape : r.Shaped) (hdoubles : ∀ x ∈ numbersOf r, IsDouble x) :
    appMemoryParse j (j.get 0 (lit "memory")) = some (restoredMemory r.memory) := by
  obtain ⟨k, hk, hobject, hshows⟩ :=
    object_member h (@lookup_tail r "memory"
      (.obj (memoryMembers r.memory r.rss r.peakRss r.samples)) (by decide) rfl)
  rw [hk]
  exact memory_read hshows hr.memory hshape.generation
    (fun x hx => hdoubles x (List.mem_append_right _ hx)) hobject

/-- The two counts that `valid` does not look at. -/
def Countable (r : PerfRecord) : Prop := r.maxTokens ≤ 1000000 ∧ r.threads ≤ 1000000

/-- `parse` makes `restored` of a line, unless one of the two counts is too large. -/
theorem record_read (h : Shows j 0 (.obj (recordMembers r))) (hr : SoundRecord now r)
    (hshape : r.Shaped) (hdoubles : ∀ x ∈ numbersOf r, IsDouble x)
    (hschema : r.schema = 1 ∨ r.schema = 2) :
    (Countable r → readRecord j = some (restored r)) ∧
      (¬ Countable r → readRecord j = none) := by
  have htext : ∀ (cap : Nat) (key : String) (s : CStr), CString cap s →
      lit key ∉ [lit "schema", lit "reasoning", lit "engine"] →
      lookup (lit key) (tailMembers r) = some (quoteTree s) → readText j 0 cap key = some s := by
    intro cap key s hs hkey hl
    exact readText_member h (lookup_tail hkey hl) hs
  have hnum : ∀ (key : String) (n : Double), IsDouble n →
      lit key ∉ [lit "schema", lit "reasoning", lit "engine"] →
      lookup (lit key) (tailMembers r) = some (numberTree n) →
      j.num (j.get 0 (lit key)) (.fin (-1)) = known n := by
    intro key n hn hkey hl
    exact number_member h (lookup_tail hkey hl) hn _
  have hcount : ∀ (key : String) (n : Nat), n < 2 ^ 53 →
      lit key ∉ [lit "schema", lit "reasoning", lit "engine"] →
      lookup (lit key) (tailMembers r) = some (countTree n) →
      readCount (j.num (j.get 0 (lit key)) (.fin (-1))) =
        if n ≤ 1000000 then some n else none := by
    intro key n hn hkey hl
    exact count_member h (lookup_tail hkey hl) hn _
  have hflag : ∀ (key : String) (b : Bool),
      lit key ∉ [lit "schema", lit "reasoning", lit "engine"] →
      lookup (lit key) (tailMembers r) = some (truthTree b) →
      j.bool (j.get 0 (lit key)) false = b := by
    intro key b hkey hl
    exact truth_member h (lookup_tail hkey hl) _
  have hwords := schema_read h hschema
  have hengine := engine_member_read h hr hshape
  have hmemory := memory_member_read h hr hshape hdoubles
  simp only [numbersOf, List.cons_append, List.nil_append, List.forall_mem_cons] at hdoubles
  obtain ⟨hd₁, hd₂, hd₃, hd₄, hd₅, hd₆, hd₇, hd₈, hd₉, hd₁₀, hd₁₁, hd₁₂, _⟩ := hdoubles
  have htime : known r.timestamp = r.timestamp := by
    obtain ⟨q, hq, hpos, _⟩ := withinAfter_fin.mp hr.timestamp
    rw [hq]
    exact if_neg (not_lt.mpr (le_of_lt hpos))
  have hsame : ∀ {hi : ℚ} {n : Double}, within 0 hi n = true → known n = n :=
    fun h => orElse_within (le_refl 0) h _
  have hreasoning : j.bool (j.get 0 (lit "reasoning")) false = r.reasoning :=
    truth_member h rfl _
  have hinput := hcount "input" r.input (by have := hr.input; omega) (by decide) rfl
  have houtput := hcount "output" r.output (by have := hr.output; omega) (by decide) rfl
  have hreused := hcount "reused" r.reused (by have := hr.reused; have := hr.input; omega)
    (by decide) rfl
  have hsamples := hcount "samples" r.samples (by have := hr.samples; omega) (by decide) rfl
  have hmax := hcount "max_tokens" r.maxTokens (by have := hshape.maxTokens; omega)
    (by decide) rfl
  have hthreads := hcount "threads" r.threads (by have := hshape.threads; omega) (by decide) rfl
  rw [if_pos hr.input] at hinput
  rw [if_pos hr.output] at houtput
  rw [if_pos (le_trans hr.reused hr.input)] at hreused
  rw [if_pos (le_trans hr.samples (by decide))] at hsamples
  have hread : readRecord j =
      (if r.maxTokens ≤ 1000000 then some r.maxTokens else none).bind fun _ =>
        (if r.threads ≤ 1000000 then some r.threads else none).bind fun _ =>
          some (restored r) := by
    unfold readRecord
    simp only [hwords, hengine, hmemory, hreasoning, hinput, houtput, hreused, hsamples, hmax,
      hthreads, Option.bind_some,
      htext 160 "id" _ hshape.id (by decide) rfl,
      htext 65 "model" _ hshape.model (by decide) rfl,
      htext 65 "artifact" _ hshape.artifact (by decide) rfl,
      htext 32 "quantization" _ hshape.quantization (by decide) rfl,
      htext 768 "series" _ hshape.series (by decide) rfl,
      htext 24 "backend" _ hshape.backend (by decide) rfl,
      htext 24 "source" _ hshape.source (by decide) rfl,
      htext 24 "outcome" _ hshape.outcome (by decide) rfl,
      htext 16 "finish" _ hshape.finish (by decide) rfl,
      htext 80 "run" _ hshape.run (by decide) rfl,
      hnum "timestamp" _ hd₁ (by decide) rfl, htime,
      hnum "generation_ns" _ hd₂ (by decide) rfl, hsame hr.generationNs,
      hnum "first_ns" _ hd₃ (by decide) rfl,
      hnum "first_answer_ns" _ hd₄ (by decide) rfl,
      hnum "total_ns" _ hd₅ (by decide) rfl, hsame hr.totalNs,
      hnum "prefill_ns" _ hd₆ (by decide) rfl, hnum "load_ns" _ hd₇ (by decide) rfl,
      hnum "rss" _ hd₈ (by decide) rfl, hnum "peak_rss" _ hd₉ (by decide) rfl,
      hnum "cpu_percent" _ hd₁₀ (by decide) rfl,
      hnum "temperature" _ hd₁₁ (by decide) rfl, hsame hr.temperature,
      hnum "top_p" _ hd₁₂ (by decide) rfl, hsame hr.topP,
      hflag "cold" _ (by decide) rfl, hflag "contention" _ (by decide) rfl,
      hflag "warmup" _ (by decide) rfl]
    by_cases hm : r.maxTokens ≤ 1000000
    · by_cases ht : r.threads ≤ 1000000
      · rw [if_pos hm, if_pos ht]
        rfl
      · rw [if_pos hm, if_neg ht]
        rfl
    · rw [if_neg hm]
      rfl
  rw [hread]
  constructor
  · rintro ⟨hm, ht⟩
    rw [if_pos hm, if_pos ht]
    rfl
  · intro hc
    by_cases hm : r.maxTokens ≤ 1000000
    · rw [if_pos hm, if_neg fun ht => hc ⟨hm, ht⟩]
      rfl
    · rw [if_neg hm]
      rfl

end

/-! ## What the text has of a record -/

/-- The sequence of the memory samples is not written. -/
def unsequenced (m : MemoryRecord) : MemoryRecord := { m with lastSequence := 0 }

/-- The fields that are written. Schema 1 has no engine. -/
def serialized (r : PerfRecord) : PerfRecord :=
  { r with
    engine := if r.schema = 2 then r.engine else {}
    memory := unsequenced r.memory }

/-- The line is read back as a record with the same fields. -/
def RoundTrips (now : Int) (r : PerfRecord) : Prop :=
  ∃ r', parse now (recordJson r) = some r' ∧ serialized r' = serialized r

/-- A number that may be unknown: it is -1 then. -/
def Sayable (n : Double) : Prop := n = .fin (-1) ∨ ∃ q, n = .fin q ∧ 0 ≤ q

/-- The record says nothing that its text cannot say. -/
structure Normal (r : PerfRecord) : Prop where
  state : r.schema = 2 → r.engine.sourceState ≠ []
  firstNs : Sayable r.firstNs
  firstAnswerNs : Sayable r.firstAnswerNs
  prefillNs : Sayable r.prefillNs
  loadNs : Sayable r.loadNs
  rss : Sayable r.rss
  peakRss : Sayable r.peakRss
  cpuPercent : Sayable r.cpuPercent
  gpuAgeMs : Sayable r.memory.gpuAgeMs
  rssAgeMs : Sayable r.memory.rssAgeMs
  gpuEnd : r.memory.status ≠ 1 → r.memory.gpuEnd = .fin (-1)
  gpuPeak : r.memory.gpuSamples = 0 → r.memory.gpuPeak = .fin (-1)
  unified : r.memory.source ≠ 1 → r.memory.unified = false
  maxTokens : r.maxTokens ≤ 1000000
  threads : r.threads ≤ 1000000

theorem known_eq_iff {n : Double} : known n = n ↔ Sayable n := by
  cases n with
  | fin q =>
      rw [known, orElse, Sayable]
      split
      · next hneg =>
          constructor
          · intro h
            exact .inl h.symm
          · rintro (h | ⟨q', hq, hle⟩)
            · exact h.symm
            · exact absurd (Double.fin.inj hq ▸ hle) (not_le.mpr hneg)
      · next hpos => exact ⟨fun _ => .inr ⟨q, rfl, not_lt.mp hpos⟩, fun _ => rfl⟩
  | inf neg | nan =>
      constructor
      · intro h
        cases h
      · rintro (h | ⟨_, h, _⟩) <;> cases h

theorem restoredEngine_eq_iff {e : Perf.AppEngine} : restoredEngine e = e ↔ e.sourceState ≠ [] := by
  rw [restoredEngine]
  constructor
  · intro h hnil
    have hstate : (if e.sourceState.isEmpty then lit "unknown" else e.sourceState) =
        e.sourceState := congrArg Perf.AppEngine.sourceState h
    rw [hnil] at hstate
    exact absurd hstate (by decide)
  · intro h
    rw [if_neg fun hempty => h (List.isEmpty_iff.mp hempty)]

section
variable {r : PerfRecord} {now now' : Int}

theorem restored_memory_iff (hm : SoundMemory r.memory) :
    unsequenced (restoredMemory r.memory) = unsequenced r.memory ↔
      Sayable r.memory.gpuAgeMs ∧ Sayable r.memory.rssAgeMs ∧
      (r.memory.status ≠ 1 → r.memory.gpuEnd = .fin (-1)) ∧
      (r.memory.gpuSamples = 0 → r.memory.gpuPeak = .fin (-1)) ∧
      (r.memory.source ≠ 1 → r.memory.unified = false) := by
  have hend : (if r.memory.status = 1 then known r.memory.gpuEnd else .fin (-1)) =
      r.memory.gpuEnd ↔ (r.memory.status ≠ 1 → r.memory.gpuEnd = .fin (-1)) := by
    split
    · next hlive =>
        have hpos := ((hm.live).resolve_left (not_not.mpr hlive)).2.1
        exact ⟨fun _ hne => absurd hlive hne, fun _ => orElse_within (le_refl 0) hpos _⟩
    · next hlive => exact ⟨fun h _ => h.symm, fun h => (h hlive).symm⟩
  have hpeak : (if r.memory.gpuSamples ≠ 0 then known r.memory.gpuPeak else .fin (-1)) =
      r.memory.gpuPeak ↔ (r.memory.gpuSamples = 0 → r.memory.gpuPeak = .fin (-1)) := by
    split
    · next hsome =>
        have hpos := (hm.sampled.resolve_left hsome).2
        exact ⟨fun _ hzero => absurd hzero hsome, fun _ => orElse_within (le_refl 0) hpos _⟩
    · next hnone =>
        rw [not_not] at hnone
        exact ⟨fun h _ => h.symm, fun h => (h hnone).symm⟩
  have hunified : (if r.memory.source = 1 then r.memory.unified else false) =
      r.memory.unified ↔ (r.memory.source ≠ 1 → r.memory.unified = false) := by
    split
    · next hone => exact ⟨fun _ hne => absurd hone hne, fun _ => rfl⟩
    · next hone => exact ⟨fun h _ => h.symm, fun h => (h hone).symm⟩
  rw [← known_eq_iff, ← known_eq_iff, ← hend, ← hpeak, ← hunified]
  simp only [unsequenced, restoredMemory, MemoryRecord.mk.injEq, true_and, and_true]
  tauto

theorem serialized_restored_iff (hr : SoundRecord now r) (hcount : Countable r) :
    serialized (restored r) = serialized r ↔ Normal r := by
  have hengine : (if r.schema = 2 then (if r.schema = 2 then restoredEngine r.engine else {})
      else {}) = (if r.schema = 2 then r.engine else {}) ↔
        (r.schema = 2 → r.engine.sourceState ≠ []) := by
    split
    · next hs => rw [restoredEngine_eq_iff, forall_prop_of_true hs]
    · next hs => exact ⟨fun _ h => absurd h hs, fun _ => rfl⟩
  have hmemory := restored_memory_iff hr.memory
  have hall : serialized (restored r) = serialized r ↔
      unsequenced (restoredMemory r.memory) = unsequenced r.memory ∧
      (if r.schema = 2 then (if r.schema = 2 then restoredEngine r.engine else {}) else {}) =
        (if r.schema = 2 then r.engine else {}) ∧
      known r.firstNs = r.firstNs ∧ known r.firstAnswerNs = r.firstAnswerNs ∧
      known r.prefillNs = r.prefillNs ∧ known r.loadNs = r.loadNs ∧ known r.rss = r.rss ∧
      known r.peakRss = r.peakRss ∧ known r.cpuPercent = r.cpuPercent := by
    simp only [serialized, restored, PerfRecord.mk.injEq, true_and, and_true]
    exact Iff.rfl
  rw [hall, hmemory, hengine]
  simp only [known_eq_iff]
  constructor
  · rintro ⟨⟨hage, hrssAge, hend, hpeak, hunified⟩, hstate, h₁, h₂, h₃, h₄, h₅, h₆, h₇⟩
    exact ⟨hstate, h₁, h₂, h₃, h₄, h₅, h₆, h₇, hage, hrssAge, hend, hpeak, hunified, hcount.1,
      hcount.2⟩
  · rintro ⟨hstate, h₁, h₂, h₃, h₄, h₅, h₆, h₇, hage, hrssAge, hend, hpeak, hunified, _, _⟩
    exact ⟨⟨hage, hrssAge, hend, hpeak, hunified⟩, hstate, h₁, h₂, h₃, h₄, h₅, h₆, h₇⟩

/-- What `parse` makes of a line that `record_json` has written. -/
theorem parse_recordJson (hvalid : r.valid now = true) (hnow : now ≤ now')
    (hschema : r.schema = 1 ∨ r.schema = 2) (hshape : r.Shaped)
    (hdoubles : ∀ x ∈ numbersOf r, IsDouble x) :
    (Countable r → parse now' (recordJson r) = some (restored r)) ∧
      (¬ Countable r → parse now' (recordJson r) = none) := by
  have hr := soundRecord_iff.mp hvalid
  obtain ⟨j, hj, hshows⟩ := recordJson_parses r
  obtain ⟨hread, hnone⟩ := record_read hshows hr hshape hdoubles hschema
  constructor
  · intro hc
    rw [parse, hj, Option.bind_some, hread hc]
    exact if_pos (soundRecord_iff.mpr (hr.restored hnow))
  · intro hc
    rw [parse, hj, Option.bind_some, hnone hc]
    rfl

/-- A record comes back from its line exactly when it is normal. -/
theorem record_round_trips (hvalid : r.valid now = true) (hnow : now ≤ now')
    (hschema : r.schema = 1 ∨ r.schema = 2) (hshape : r.Shaped)
    (hdoubles : ∀ x ∈ numbersOf r, IsDouble x) : RoundTrips now' r ↔ Normal r := by
  obtain ⟨hread, hnone⟩ := parse_recordJson hvalid hnow hschema hshape hdoubles
  constructor
  · rintro ⟨r', hr', hsame⟩
    have hcount : Countable r := by
      by_contra hc
      rw [hnone hc] at hr'
      cases hr'
    obtain rfl := Option.some.inj ((hread hcount).symm.trans hr')
    exact (serialized_restored_iff (soundRecord_iff.mp hvalid) hcount).mp hsame
  · intro h
    have hcount : Countable r := ⟨h.maxTokens, h.threads⟩
    exact ⟨_, hread hcount,
      (serialized_restored_iff (soundRecord_iff.mp hvalid) hcount).mpr h⟩

end

/-! ## Two records -/

theorem isDouble_nat {n : Nat} (hn : n < 2 ^ 53) : IsDouble (.fin n) := by
  have hholds := Format.holds_nat (f := DOUBLE) hn (by decide)
  have hlt : (n : ℚ) < 2 ^ 1024 := by
    have h53 : (n : ℚ) < 2 ^ 53 := by exact_mod_cast hn
    exact h53.trans (pow_lt_pow_right₀ (by norm_num) (by norm_num))
  rw [IsDouble, abs_of_nonneg (Nat.cast_nonneg n)]
  exact ⟨hholds, hlt⟩

/-- A reply of an engine whose source state is `state`. -/
def replyOf (state : CStr) : PerfRecord where
  schema := 2
  memory := {}
  engine := { sourceState := state, payloadSha256 := List.replicate 64 97 }
  id := lit "1-1"
  model := lit "m"
  artifact := lit "m"
  series := lit "s"
  backend := lit "cpu"
  source := lit "app"
  outcome := lit "completed"
  finish := lit "stop"
  timestamp := .fin 1700000000
  generationNs := .fin 1000000
  firstNs := .fin (-1)
  firstAnswerNs := .fin (-1)
  totalNs := .fin 2000000
  prefillNs := .fin (-1)
  loadNs := .fin (-1)
  rss := .fin (-1)
  peakRss := .fin (-1)
  cpuPercent := .fin (-1)
  output := 10

theorem replyOf_doubles (state : CStr) : ∀ x ∈ numbersOf (replyOf state), IsDouble x := by
  have hzero : IsDouble (.fin 0) := by exact_mod_cast isDouble_nat (n := 0) (by norm_num)
  have hms : IsDouble (.fin 1000000) := by
    exact_mod_cast isDouble_nat (n := 1000000) (by norm_num)
  have htotal : IsDouble (.fin 2000000) := by
    exact_mod_cast isDouble_nat (n := 2000000) (by norm_num)
  have htime : IsDouble (.fin 1700000000) := by
    exact_mod_cast isDouble_nat (n := 1700000000) (by norm_num)
  have hnone := isDouble_neg_one
  simp only [numbersOf, MemoryRecord.numbers, replyOf, List.cons_append, List.nil_append,
    List.forall_mem_cons]
  exact ⟨htime, hms, hnone, hnone, htotal, hnone, hnone, hnone, hnone, hnone, hzero, hzero,
    hzero, hnone, hnone, hnone, hnone, fun _ h => absurd h List.not_mem_nil⟩

theorem replyOf_shaped {state : CStr} (h : CString 16 state) : (replyOf state).Shaped := by
  have hempty : (replyOf []).Shaped := by decide
  exact { hempty with sourceState := h }

theorem record_round_trips_modified :
    RoundTrips 1700000001 (replyOf (lit "modified")) ↔ Normal (replyOf (lit "modified")) :=
  record_round_trips (r := replyOf (lit "modified")) (by decide +kernel) (Int.le_refl 1700000001)
    (.inr rfl) (replyOf_shaped (by decide)) (replyOf_doubles _)

/-- An engine that has not told its source state has one behind the restart. -/
theorem record_round_trips_legacy : ¬ ∀ (now now' : Int) (r : PerfRecord),
    r.valid now = true → now ≤ now' → r.schema = 1 ∨ r.schema = 2 → r.Shaped →
    (∀ x ∈ numbersOf r, IsDouble x) → (recordJson r).length < LINE_CAP →
    RoundTrips now' r := by
  intro h
  have hvalid : (replyOf []).valid 1700000001 = true := by decide +kernel
  have hshort : (recordJson (replyOf [])).length < LINE_CAP := by decide +kernel
  obtain ⟨r', hread, hsame⟩ := h 1700000001 1700000001 (replyOf []) hvalid (le_refl _) (.inr rfl)
    (replyOf_shaped (by decide)) (replyOf_doubles _) hshort
  have hback := (parse_recordJson hvalid (le_refl _) (.inr rfl) (replyOf_shaped (by decide))
    (replyOf_doubles _)).1 ⟨by decide, by decide⟩
  obtain rfl := Option.some.inj (hback.symm.trans hread)
  have hstate : (serialized (restored (replyOf []))).engine.sourceState =
      (serialized (replyOf [])).engine.sourceState := by rw [hsame]
  exact absurd hstate (by decide)

end GeistServe.Proofs
