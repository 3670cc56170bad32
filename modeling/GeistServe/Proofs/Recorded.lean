import Mathlib.Algebra.Order.Ring.Rat
import Mathlib.Tactic.Linarith
import Mathlib.Tactic.Positivity
import GeistServe.App.Observe
import GeistServe.Proofs.Retention

/-!
# Which requests are recorded

Everything that `observation_begin` and the samples put into a record is in the
ranges of `valid` (`RecordInRange`), and so is what the proxy measures against the
request's own clock. What is left are the bounds that nothing enforces: the
length of the request, of the load before a cold one, what the daemon reports,
and how many samples were taken. The limit of one hour is one of them: it ends a
request only when the hour is over, and then its record is refused.
-/

namespace GeistServe.Proofs

open GeistServe.Lib GeistServe.Geistd GeistServe.Perf GeistServe.Observe

/-! ## Ranges -/

theorem within_iff {lo hi q : Rat} : Perf.within lo hi (.fin q) = true ↔ lo ≤ q ∧ q ≤ hi := by
  rw [Perf.within, Bool.and_eq_true, decide_eq_true_eq, decide_eq_true_eq]

theorem withinTotal_iff {x total : Rat} :
    withinTotal (.fin x) (.fin total) = true ↔ -1 ≤ x ∧ x ≤ total := by
  rw [withinTotal, Bool.and_eq_true, decide_eq_true_eq, decide_eq_true_eq]

theorem within_mono {lo lo' hi : Rat} {x : Double} (hlo : lo' ≤ lo) (h : within lo hi x = true) :
    within lo' hi x = true := by
  cases x with
  | fin q =>
      rw [within_iff] at h ⊢
      exact ⟨le_trans hlo h.1, h.2⟩
  | inf _ => cases h
  | nan => cases h

theorem token_fit {cap : Nat} {s : CStr} (hcap : 1 < cap) (h : s ≠ []) :
    token cap (fit cap s) = true := by
  have hlen := List.length_pos_iff.mpr h
  rw [token, fit, List.length_take, Bool.and_eq_true, decide_eq_true_eq, decide_eq_true_eq]
  omega

/-! ## The memory -/

/-- What `app_memory_valid` asks of a memory record, but for the number of its
samples. -/
structure MemoryInRange (m : MemoryRecord) : Prop where
  generation : m.generation.length < 112
  status : m.status ≤ 4
  source : m.source ≤ 1
  rssSource : m.rssSource ≤ 2
  gpuEnd : within (-1) 1000000000000000 m.gpuEnd = true
  gpuPeak : within (-1) 1000000000000000 m.gpuPeak = true
  gpuAge : within (-1) 1000000000000 m.gpuAgeMs = true
  rssAge : within (-1) 1000000000000 m.rssAgeMs = true
  sampledAt : within 0 1000000000000 m.sampledAt = true
  peaked : m.gpuSamples = 0 ∨ m.source = 1 ∧ within 0 1000000000000000 m.gpuPeak = true
  live : m.status = 1 → m.source = 1 ∧ within 0 1000000000000000 m.gpuEnd = true ∧
    within 0 6000 m.gpuAgeMs = true

theorem memoryValid_iff {m : MemoryRecord} (h : MemoryInRange m) :
    memoryValid m = true ↔ m.gpuSamples ≤ 1000000 := by
  have hlive : (decide (m.status ≠ 1) || (decide (m.source = 1) &&
      within 0 1000000000000000 m.gpuEnd && within 0 6000 m.gpuAgeMs)) = true := by
    by_cases hs : m.status = 1
    · obtain ⟨h1, h2, h3⟩ := h.live hs
      rw [h2, h3, decide_eq_true h1, Bool.and_self, Bool.and_self, Bool.or_true]
    · rw [decide_eq_true hs, Bool.true_or]
  have hpeak : (decide (m.gpuSamples = 0) ||
      (decide (m.source = 1) && within 0 1000000000000000 m.gpuPeak)) = true := by
    rcases h.peaked with h0 | ⟨h1, h2⟩
    · rw [decide_eq_true h0, Bool.true_or]
    · rw [h2, decide_eq_true h1, Bool.and_self, Bool.or_true]
  simp only [memoryValid, hlive, hpeak, h.generation, h.status, h.source, h.rssSource, h.gpuEnd,
    h.gpuPeak, h.gpuAge, h.rssAge, h.sampledAt, decide_true, Bool.true_and, Bool.and_true,
    decide_eq_true_eq]

theorem MemoryInRange.setStatus {m : MemoryRecord} (h : MemoryInRange m) {k : Nat} (hle : k ≤ 4)
    (hne : k ≠ 1) : MemoryInRange { m with status := k } :=
  { h with status := hle, live := fun hk => absurd hk hne }

theorem takeMemory_ok {m : MemoryRecord} {s : GpuSample} {nowNs : Nat} (h : MemoryInRange m)
    (htaken : s.taken m nowNs = true) (hnow : nowNs ≤ 1000000000000000000) :
    MemoryInRange (takeMemory m s nowNs) := by
  simp only [GpuSample.taken, Bool.and_eq_true, decide_eq_true_eq] at htaken
  obtain ⟨⟨⟨⟨⟨_, _⟩, hst⟩, hsrc⟩, _⟩, halloc⟩ := htaken
  obtain ⟨age, hdef⟩ : ∃ age, age = ((nowNs - s.sampledNs : Nat) : Rat) / 1000000 := ⟨_, rfl⟩
  have hage0 : 0 ≤ age := by
    rw [hdef]
    positivity
  have hage : age ≤ 1000000000000 := by
    have hle : ((nowNs - s.sampledNs : Nat) : Rat) ≤ 1000000000000000000 := by
      exact_mod_cast Nat.le_trans (Nat.sub_le _ _) hnow
    rw [hdef, div_le_iff₀ (by norm_num)]
    linarith
  have hbytes : (0 : Rat) ≤ s.allocatedBytes ∧ (s.allocatedBytes : Rat) ≤ 1000000000000000 :=
    ⟨by positivity, by exact_mod_cast halloc⟩
  -- the record behind the age and the source, with a status that asks for nothing
  have hbase : MemoryInRange { m with
      lastSequence := s.sequence, gpuAgeMs := .fin age, status := 0
      source := if s.source ≠ 0 then s.source else m.source
      unified := if s.source ≠ 0 then s.unified else m.unified } :=
    { h with
      status := Nat.zero_le 4
      source := by
        show (if s.source ≠ 0 then s.source else m.source) ≤ 1
        split
        · exact hsrc
        · exact h.source
      gpuAge := within_iff.mpr ⟨by linarith, hage⟩
      peaked := h.peaked.imp id fun ⟨hone, hp⟩ => by
        refine ⟨?_, hp⟩
        show (if s.source ≠ 0 then s.source else m.source) = 1
        split
        · omega
        · exact hone
      live := fun hs => absurd hs Nat.zero_ne_one }
  have hset : ∀ {k : Nat}, (if s.source ≠ 0 then
      { m with lastSequence := s.sequence, gpuAgeMs := .fin age, status := k, source := s.source
               unified := s.unified }
      else { m with lastSequence := s.sequence, gpuAgeMs := .fin age, status := k }) =
      ({ m with
        lastSequence := s.sequence, gpuAgeMs := .fin age, status := k
        source := if s.source ≠ 0 then s.source else m.source
        unified := if s.source ≠ 0 then s.unified else m.unified } : MemoryRecord) := by
    intro k
    split <;> rfl
  obtain ⟨st, hstale⟩ : ∃ st, st = if 6000 < age then 4 else s.status := ⟨_, rfl⟩
  have hst4 : st ≤ 4 := by
    rw [hstale]
    split <;> omega
  simp only [takeMemory, ← hdef, ← hstale, hset]
  split
  · exact hbase.setStatus (by decide) (by decide)
  · next hfailed =>
      split
      · next hother => exact hbase.setStatus hst4 hother
      · next hlive =>
          have hlive : st = 1 := not_not.mp hlive
          have hone : s.source = 1 := by
            by_contra hne
            exact hfailed ⟨hlive, hne⟩
          have hnew : age ≤ 6000 := by
            by_contra hlt
            rw [if_pos (not_le.mp hlt)] at hstale
            omega
          have hsource : (if s.source ≠ 0 then s.source else m.source) = 1 := by
            rw [if_pos (by omega), hone]
          have hend : within 0 1000000000000000 (.fin (s.allocatedBytes : Rat)) = true :=
            within_iff.mpr hbytes
          split
          · -- the peak takes the new value when it is higher
            have hpeak : within 0 1000000000000000
                (if Double.lt m.gpuPeak (.fin (s.allocatedBytes : Rat)) then
                  .fin (s.allocatedBytes : Rat) else m.gpuPeak) = true := by
              split
              · exact hend
              · next hlow =>
                  have hwas := h.gpuPeak
                  cases hp : m.gpuPeak with
                  | fin q =>
                      rw [hp] at hlow hwas
                      simp only [Double.lt, decide_eq_true_eq, not_lt] at hlow
                      exact within_iff.mpr ⟨le_trans hbytes.1 hlow, (within_iff.mp hwas).2⟩
                  | inf _ =>
                      rw [hp] at hwas
                      cases hwas
                  | nan =>
                      rw [hp] at hwas
                      cases hwas
            exact { hbase with
              status := hst4
              gpuEnd := within_mono (by norm_num) hend
              gpuPeak := within_mono (by norm_num) hpeak
              peaked := .inr ⟨hsource, hpeak⟩
              live := fun _ => ⟨hsource, hend, within_iff.mpr ⟨hage0, hnew⟩⟩ }
          · exact { hbase with
              status := hst4
              gpuEnd := within_mono (by norm_num) hend
              live := fun _ => ⟨hsource, hend, within_iff.mpr ⟨hage0, hnew⟩⟩ }

theorem appMemoryObserve_ok {m : MemoryRecord} {s : Option GpuSample} {nowNs : Nat} {wall : Int}
    (h : MemoryInRange m) (hnow : nowNs ≤ 1000000000000000000) (hwall : 0 ≤ wall ∧ wall ≤ 1000000000000) :
    MemoryInRange (appMemoryObserve m s nowNs wall) := by
  have hempty : MemoryInRange { m with
      gpuEnd := .fin (-1), status := 0, gpuAgeMs := .fin (-1), sampledAt := .fin wall } := by
    have hneg : within (-1) 1000000000000000 (.fin (-1)) = true := by decide +kernel
    have hage : within (-1) 1000000000000 (.fin (-1)) = true := by decide +kernel
    have hat : within 0 1000000000000 (.fin (wall : Rat)) = true := by
      rw [within_iff]
      exact ⟨by exact_mod_cast hwall.1, by exact_mod_cast hwall.2⟩
    exact { h with
      status := Nat.zero_le 4, gpuEnd := hneg, gpuAge := hage, sampledAt := hat
      live := fun hs => absurd hs Nat.zero_ne_one }
  cases s with
  | none => exact hempty
  | some s =>
      simp only [appMemoryObserve]
      split
      · next htaken => exact takeMemory_ok hempty htaken hnow
      · exact hempty

/-! ## Samples -/

theorem unknown_within {hi : Rat} (h : 0 ≤ hi) : within (-1) hi (.fin (-1)) = true :=
  within_iff.mpr ⟨le_refl _, by linarith⟩

theorem zero_within {hi : Rat} (h : 0 ≤ hi) : within (-1) hi (.fin 0) = true :=
  within_iff.mpr ⟨by norm_num, h⟩

/-- A share of the processors that is known is a percentage. -/
def WindowOk (w : Window) : Prop := w.cpuKnown = true → 0 ≤ w.cpuPercent ∧ w.cpuPercent ≤ 100

theorem appResourceUpdate_ok {w : Window} {p : ProcessSample} {n : Nat} (h : WindowOk w) :
    WindowOk (appResourceUpdate w p n) := by
  simp only [appResourceUpdate]
  split
  · exact fun hk => nomatch hk
  · split
    · exact fun hk => nomatch hk
    · next hsame =>
        split
        · exact h
        · next hlong =>
            intro _
            have helapsed : 0 < p.monotonicMs - w.previous.monotonicMs := by linarith
            have hpercent : 0 ≤ ((p.cpuNs - w.previous.cpuNs : Nat) : Rat) / 1000000 /
                (p.monotonicMs - w.previous.monotonicMs) / n * 100 := by positivity
            constructor
            · dsimp only
              split
              · norm_num
              · exact hpercent
            · dsimp only
              split
              · exact le_refl _
              · next hle => exact not_lt.mp hle

/-- What `valid` asks of a record, less what `observation_end` fills in and what
depends on how long the request ran. -/
structure RecordInRange (r : Record) : Prop where
  engine : engineValid r.engine = true
  id : token 160 r.id = true
  artifact : token 65 r.artifact = true
  series : token 768 r.series = true
  backend : token 24 r.backend = true
  timestamp : 0 < r.timestamp
  rss : within (-1) 1000000000000000 r.rss = true
  peakRss : within (-1) 1000000000000000 r.peakRss = true
  cpu : within (-1) (10001 / 100) r.cpuPercent = true
  memory : MemoryInRange r.memory
  temperature : within 0 10 r.temperature = true
  topP : within 0 1 r.topP = true

/-- The sums of the samples. -/
structure SumsOk (o : AppObserve) : Prop where
  window : WindowOk o.window
  nonneg : 0 ≤ o.cpuSum
  bound : o.cpuSum ≤ 100 * (o.cpuSamples : Rat)

theorem sampleProcess_ok {o : AppObserve} {r : Record} {p : ProcessSample} {cpus : Option Nat}
    (ho : SumsOk o) (hr : RecordInRange r) (hrss : p.rss ≤ 1000000000000000) :
    SumsOk (sampleProcess o r p cpus) ∧
      ∃ r', (sampleProcess o r p cpus).record = some r' ∧ RecordInRange r' ∧ r'.id = r.id ∧
        r'.timestamp = r.timestamp := by
  have hbytes : within 0 1000000000000000 (.fin (p.rss : Rat)) = true :=
    within_iff.mpr ⟨by positivity, by exact_mod_cast hrss⟩
  have hneg : within (-1) 1000000000000000 (.fin (p.rss : Rat)) = true :=
    within_mono (by norm_num) hbytes
  have hr' : RecordInRange { r with
      rss := .fin (p.rss : Rat), memory := { r.memory with rssAgeMs := .fin 0 }
      peakRss := if Double.lt r.peakRss (.fin (p.rss : Rat)) then .fin (p.rss : Rat) else r.peakRss
      samples := (r.samples + 1) % 2 ^ 32 } :=
    { hr with
      rss := hneg
      peakRss := by
        show Perf.within _ _ (if _ then _ else _) = true
        split
        · exact hneg
        · exact hr.peakRss
      memory := { hr.memory with rssAge := zero_within (by norm_num) } }
  have hw : WindowOk (appResourceUpdate o.window p (cpus.getD 0)) := appResourceUpdate_ok ho.window
  cases cpus with
  | none => exact ⟨⟨ho.window, ho.nonneg, ho.bound⟩, _, rfl, hr', rfl, rfl⟩
  | some n =>
      simp only [sampleProcess]
      split
      · next hknown =>
          obtain ⟨h0, h100⟩ := hw hknown
          have hsum0 : 0 ≤ o.cpuSum + (appResourceUpdate o.window p n).cpuPercent :=
            add_nonneg ho.nonneg h0
          have hsum : o.cpuSum + (appResourceUpdate o.window p n).cpuPercent ≤
              100 * ((o.cpuSamples + 1 : Nat) : Rat) := by
            have hb := ho.bound
            push_cast
            have h100 : (appResourceUpdate o.window p n).cpuPercent ≤ 100 := h100
            linarith
          have hpos : (0 : Rat) < ((o.cpuSamples + 1 : Nat) : Rat) := by positivity
          refine ⟨⟨hw, hsum0, hsum⟩, _, rfl, { hr' with cpu := within_iff.mpr ⟨?_, ?_⟩ }, rfl, rfl⟩
          · have := div_nonneg hsum0 hpos.le
            linarith
          · rw [div_le_iff₀ hpos]
            linarith
      · exact ⟨⟨hw, ho.nonneg, ho.bound⟩, _, rfl, hr', rfl, rfl⟩

/-- A sample keeps the record in its ranges. -/
theorem sampleNow_ok {o : AppObserve} {r : Record} {clock : Rat} {wall : Int} {x : Reading}
    (ho : SumsOk o) (hr : RecordInRange r) (hx : x.Plausible) (hwall : 0 ≤ wall ∧ wall ≤ 1000000000000) :
    SumsOk (sampleNow clock wall x o r) ∧
      ∃ r', (sampleNow clock wall x o r).record = some r' ∧ RecordInRange r' ∧ r'.id = r.id ∧
        r'.timestamp = r.timestamp := by
  have hmem : MemoryInRange (appMemoryObserve { r.memory with rssSource := RSS_SOURCE } x.gpu x.nowNs
      wall) :=
    appMemoryObserve_ok { hr.memory with rssSource := Nat.le_refl 2 } hx.1 hwall
  have hage : within (-1) 1000000000000 (if x.alive then .fin 0 else .fin (-1)) = true := by
    split
    · exact zero_within (by norm_num)
    · exact unknown_within (by norm_num)
  have hr' : RecordInRange { r with
      memory := { appMemoryObserve { r.memory with rssSource := RSS_SOURCE } x.gpu x.nowNs wall with
        rssAgeMs := if x.alive then .fin 0 else .fin (-1) }
      rss := .fin (-1) } :=
    { hr with
      memory := { hmem with rssAge := hage }
      rss := unknown_within (by norm_num) }
  have ho' : SumsOk { o with sampleMs := clock } := ⟨ho.window, ho.nonneg, ho.bound⟩
  simp only [sampleNow]
  split
  · exact ⟨⟨ho.window, ho.nonneg, ho.bound⟩, _, rfl, hr', rfl, rfl⟩
  · next p hp =>
      refine sampleProcess_ok ho' hr' (hx.2 p ?_)
      split at hp
      · exact hp
      · cases hp

theorem observationSample_ok {force : Bool} {o : AppObserve} {r : Record} {clock : Rat} {wall : Int}
    {x : Reading} (ho : SumsOk o) (hor : o.record = some r) (hr : RecordInRange r) (hx : x.Plausible)
    (hwall : 0 ≤ wall ∧ wall ≤ 1000000000000) :
    SumsOk (observationSample force clock wall x o) ∧
      ∃ r', (observationSample force clock wall x o).record = some r' ∧ RecordInRange r' ∧
        r'.id = r.id ∧ r'.timestamp = r.timestamp := by
  simp only [observationSample, hor]
  split
  · exact ⟨ho, r, hor, hr, rfl, rfl⟩
  · exact sampleNow_ok ho hr hx hwall

theorem observationSample_none {force : Bool} {o : AppObserve} {clock : Rat} {wall : Int}
    {x : Reading} (hor : o.record = none) : observationSample force clock wall x o = o := by
  simp only [observationSample, hor]

/-! ## The record at its begin -/

theorem engineValid_payload {e : AppEngine} {payload : CStr} (h : engineValid e = true)
    (hp : (payload.isEmpty || (decide (payload.length = 64) && hex payload)) = true) :
    engineValid { e with payloadSha256 := payload } = true := by
  simp only [engineValid, Bool.and_eq_true] at h ⊢
  obtain ⟨⟨⟨h1, _⟩, h2⟩, h3⟩ := h
  exact ⟨⟨⟨h1, hp⟩, h2⟩, h3⟩

theorem engineValid.payload {e : AppEngine} (h : engineValid e = true) :
    (e.payloadSha256.isEmpty || (decide (e.payloadSha256.length = 64) && hex e.payloadSha256)) =
      true := by
  simp only [engineValid, Bool.and_eq_true] at h
  obtain ⟨⟨⟨_, hp⟩, _⟩, _⟩ := h
  exact hp

theorem spawn_engine {c : Child} (h : engineValid c.packaged = true) {clock : Rat}
    {model : Option ModelEntry} {id : CStr} {backend : Observe.Backend} {threads : Nat}
    {digest : Option Digest} :
    engineValid (c.spawn clock model id backend threads digest).engine = true := by
  refine engineValid_payload h ?_
  cases digest with
  | none => exact engineValid.payload h
  | some d =>
      show (d.text.isEmpty || (decide (d.text.length = 64) && hex d.text)) = true
      rw [d.length, d.hex, decide_eq_true rfl, Bool.and_self, Bool.or_true]

theorem identify_engine {c c' : Child} (h : engineValid c.engine = true) {clock : Rat}
    {identity : AppEngine} (hid : c.identify clock identity = some c') :
    engineValid c'.engine = true := by
  unfold Child.identify at hid
  split at hid
  · next hv =>
      cases hid
      exact engineValid_payload hv (engineValid.payload h)
  · cases hid

theorem lit_ne_nil {s : String} (h : s.toList ≠ []) : lit s ≠ [] := by
  intro hnil
  rw [lit, List.flatMap_eq_nil_iff] at hnil
  obtain ⟨c, hc⟩ := List.exists_mem_of_ne_nil _ h
  have hpos := Char.utf8Size_pos c
  have hlen := String.length_utf8EncodeChar c
  rw [hnil c hc, List.length_nil] at hlen
  omega

theorem beginRecord_inRange {boot number : Nat} {wall : Int} {inst host : CStr} {c : Child}
    {source : Source} {q : Asked} {contention : Bool} (hengine : engineValid c.engine = true)
    (hwall : 0 < wall) :
    RecordInRange (beginRecord boot number wall inst (fit 768 (lit "v1;engine=" ++ host)) c source q
      contention) where
  engine := hengine
  id := token_fit (by decide) (by simp [recordName])
  artifact := by
    refine token_fit (by decide) ?_
    cases c.model with
    | none => exact lit_ne_nil (by decide)
    | some m =>
        intro hnil
        have hlen := m.sha256.length
        have hnil : m.sha256.text = [] := hnil
        rw [hnil] at hlen
        cases hlen
  series := by
    refine token_fit (by decide) ?_
    cases c.model with
    | none => exact lit_ne_nil (by decide)
    | some m =>
        have hfull : lit "v1;engine=" ++ host ≠ [] :=
          List.append_ne_nil_of_left_ne_nil (lit_ne_nil (by decide)) host
        have htoken : token 768 (fit 768 (lit "v1;engine=" ++ host)) = true :=
          token_fit (by decide) hfull
        intro hnil
        have hnil : fit 768 (lit "v1;engine=" ++ host) = [] := hnil
        rw [hnil] at htoken
        cases htoken
  backend := by
    refine token_fit (by decide) ?_
    cases c.backend <;> exact lit_ne_nil (by decide)
  timestamp := hwall
  rss := unknown_within (by norm_num)
  peakRss := unknown_within (by norm_num)
  cpu := unknown_within (by norm_num)
  memory := {
    generation := by
      show (fit 112 _).length < 112
      rw [fit, List.length_take]
      omega
    status := Nat.zero_le 4
    source := Nat.zero_le 1
    rssSource := Nat.zero_le 2
    gpuEnd := unknown_within (by norm_num)
    gpuPeak := unknown_within (by norm_num)
    gpuAge := unknown_within (by norm_num)
    rssAge := unknown_within (by norm_num)
    sampledAt := within_iff.mpr ⟨le_refl _, by norm_num⟩
    peaked := .inl rfl
    live := fun hs => absurd hs Nat.zero_ne_one }
  temperature := within_iff.mpr ⟨q.warm.1, by linarith [q.warm.2]⟩
  topP := within_iff.mpr ⟨q.nucleus.1.le, q.nucleus.2⟩

/-! ## The record at its end -/

/-- What nothing in the app keeps a request from leaving: the hour, for the request
and for the load before it, the times and the counts of the daemon's last frame,
and the numbers of the samples. -/
def Bounded (total : Rat) (st : RunStats) (r : Record) : Prop :=
  total ≤ HOUR_MS ∧ within (-1) HOUR_NS r.loadNs = true ∧
    within 0 HOUR_NS st.generationNs = true ∧ within (-1) HOUR_NS st.prefillNs = true ∧
    st.promptTokens ≤ 1000000 ∧ st.tokens ≤ 1000000 ∧
    r.samples ≤ 3601 ∧ r.memory.gpuSamples ≤ 1000000

instance (total : Rat) (st : RunStats) (r : Record) : Decidable (Bounded total st r) := by
  unfold Bounded
  infer_instance

/-- What the proxy has measured after `t` milliseconds of the request. -/
structure Timed (p : Proxy) (st : RunStats) (t : Rat) : Prop where
  nonneg : 0 ≤ t
  first : p.first ≤ t
  answer : p.firstAnswer ≤ t
  noted : st.firstAnswerNs = .fin (-1) ∨
    ∃ q, st.firstAnswerNs = .fin (q * 1000000) ∧ 0 ≤ q ∧ q ≤ t
  reused : st.reused ≤ st.promptTokens
  expired : p.expired = true → HOUR_MS < t

theorem Timed.later {p : Proxy} {st : RunStats} {t t' : Rat} (h : Timed p st t) (hle : t ≤ t') :
    Timed p st t' where
  nonneg := le_trans h.nonneg hle
  first := le_trans h.first hle
  answer := le_trans h.answer hle
  noted := h.noted.imp id fun ⟨q, heq, h0, hq⟩ => ⟨q, heq, h0, le_trans hq hle⟩
  reused := h.reused
  expired := fun he => lt_of_lt_of_le (h.expired he) hle

/-- The record of a request is valid exactly if it is in the bounds. -/
theorem valid_fill_iff {r : Record} {now : Int} {rc : Int} {p : Proxy} {st : RunStats} {total : Rat}
    (hr : RecordInRange r) (hnow : r.timestamp ≤ now) (ht : Timed p st total) :
    valid now (fillRecord r rc p.first total st) = true ↔ Bounded total st r := by
  have hfirst : withinTotal (if 0 < p.first then .fin (p.first * 1000000) else .fin (-1))
      (.fin (total * 1000000)) = true := by
    have h0 := ht.nonneg
    split
    · next hpos => exact withinTotal_iff.mpr ⟨by linarith, by linarith [ht.first]⟩
    · exact withinTotal_iff.mpr ⟨le_refl _, by linarith⟩
  have hanswer : withinTotal st.firstAnswerNs (.fin (total * 1000000)) = true := by
    have h0 := ht.nonneg
    rcases ht.noted with heq | ⟨q, heq, hq0, hq⟩
    · rw [heq]
      exact withinTotal_iff.mpr ⟨le_refl _, by linarith⟩
    · rw [heq]
      exact withinTotal_iff.mpr ⟨by linarith, by linarith⟩
  have htotal : within 0 HOUR_NS (.fin (total * 1000000)) = true ↔ total ≤ HOUR_MS := by
    have h0 := ht.nonneg
    rw [within_iff, HOUR_NS, HOUR_MS]
    constructor
    · intro h
      linarith [h.2]
    · intro h
      exact ⟨by linarith, by linarith⟩
  have hlate : r.timestamp ≤ now + 300 := by omega
  simp only [valid, fillRecord, hr.engine, hr.id, hr.artifact, hr.series, hr.backend,
    hr.timestamp, hlate, hfirst, hanswer, hr.rss, hr.peakRss, hr.cpu, hr.temperature, hr.topP,
    ht.reused, decide_true, Bool.true_and, Bool.and_true, Bool.and_eq_true,
    htotal, memoryValid_iff hr.memory, Bounded]
  constructor
  · rintro ⟨⟨⟨⟨⟨⟨⟨h1, h2⟩, h3⟩, h4⟩, h5⟩, h6⟩, h7⟩, h8⟩
    exact ⟨h2, h4, h1, h3, of_decide_eq_true h6, of_decide_eq_true h7, of_decide_eq_true h8, h5⟩
  · rintro ⟨h2, h4, h1, h3, h6, h7, h8, h5⟩
    exact ⟨⟨⟨⟨⟨⟨⟨h1, h2⟩, h3⟩, h4⟩, h5⟩, decide_eq_true h6⟩, decide_eq_true h7⟩,
      decide_eq_true h8⟩

end GeistServe.Proofs
