import Mathlib.Tactic.MkIffOfInductiveProp
import GeistServe.Perf.Record

/-!
# Every field of a performance record

`Record` is what a request of this app puts into a record. What a journal can hold
is more: texts that no request writes, a comparison's run, a warm-up, a time with a
fraction. `PerfRecord` is the whole of `struct perf_record` for that, its `char`
arrays as C strings and its doubles as `Double`. A zeroed record is the default.
-/

namespace GeistServe.Perf

open GeistServe.Lib GeistServe.Geistd

/-- `struct perf_record`, less the epoch and the switch that go with it (`Entry`). -/
structure PerfRecord where
  schema : Nat := 0
  memory : MemoryRecord :=
    { sampledAt := .fin 0, gpuAgeMs := .fin 0, gpuEnd := .fin 0, gpuPeak := .fin 0
      rssAgeMs := .fin 0 }
  engine : AppEngine := {}
  id : CStr := []
  model : CStr := []
  artifact : CStr := []
  quantization : CStr := []
  series : CStr := []
  backend : CStr := []
  source : CStr := []
  outcome : CStr := []
  finish : CStr := []
  run : CStr := []
  timestamp : Double := .fin 0
  generationNs : Double := .fin 0
  firstNs : Double := .fin 0
  firstAnswerNs : Double := .fin 0
  totalNs : Double := .fin 0
  prefillNs : Double := .fin 0
  loadNs : Double := .fin 0
  rss : Double := .fin 0
  peakRss : Double := .fin 0
  cpuPercent : Double := .fin 0
  input : Nat := 0
  output : Nat := 0
  reused : Nat := 0
  maxTokens : Nat := 0
  threads : Nat := 0
  samples : Nat := 0
  temperature : Double := .fin 0
  topP : Double := .fin 0
  cold : Bool := false
  contention : Bool := false
  warmup : Bool := false
  reasoning : Bool := false
  deriving DecidableEq

/-- `isfinite(x) && x > 0 && x <= hi`. -/
def withinAfter (hi : Rat) : Double → Bool
  | .fin q => decide (0 < q) && decide (q ≤ hi)
  | _ => false

/-- A string out of a list. -/
def oneOf (names : List String) (s : CStr) : Bool := names.any fun n => decide (s = lit n)

/-- `valid`. -/
def PerfRecord.valid (now : Int) (r : PerfRecord) : Bool :=
  engineValid r.engine && token 160 r.id && token 65 r.artifact && token 768 r.series &&
  token 24 r.backend &&
  oneOf ["app", "api", "controlled_test", "legacy_last_reply"] r.source &&
  oneOf ["no_answer", "completed", "error", "interrupted", "disconnected", "cancelled"]
    r.outcome &&
  withinAfter (now + 300) r.timestamp &&
  within 0 HOUR_NS r.generationNs && within 0 HOUR_NS r.totalNs &&
  withinTotal r.firstNs r.totalNs && withinTotal r.firstAnswerNs r.totalNs &&
  within (-1) HOUR_NS r.prefillNs && within (-1) HOUR_NS r.loadNs &&
  within (-1) 1000000000000000 r.rss && within (-1) 1000000000000000 r.peakRss &&
  within (-1) (10001 / 100) r.cpuPercent && memoryValid r.memory &&
  decide (r.input ≤ 1000000) && decide (r.output ≤ 1000000) && decide (r.reused ≤ r.input) &&
  within 0 10 r.temperature && within 0 1 r.topP && decide (r.samples ≤ 3601)

/-- The bytes of a C string in an array of `cap`. -/
def CString (cap : Nat) (s : CStr) : Prop := s.length < cap ∧ 0 ∉ s

instance (cap : Nat) (s : CStr) : Decidable (CString cap s) := by
  unfold CString
  infer_instance

/-- What the type of the struct gives: every text ends in its array, and an unsigned
number is no larger than its type. -/
@[mk_iff] structure PerfRecord.Shaped (r : PerfRecord) : Prop where
  version : CString 64 r.engine.version
  revision : CString 65 r.engine.revision
  sourceState : CString 16 r.engine.sourceState
  payload : CString 65 r.engine.payloadSha256
  generation : CString 112 r.memory.generation
  id : CString 160 r.id
  model : CString 65 r.model
  artifact : CString 65 r.artifact
  quantization : CString 32 r.quantization
  series : CString 768 r.series
  backend : CString 24 r.backend
  source : CString 24 r.source
  outcome : CString 24 r.outcome
  finish : CString 16 r.finish
  run : CString 80 r.run
  schema : r.schema < 2 ^ 32
  maxTokens : r.maxTokens < 2 ^ 32
  threads : r.threads < 2 ^ 32

instance (r : PerfRecord) : Decidable r.Shaped := decidable_of_iff' _ (PerfRecord.shaped_iff r)

/-! ## The records of a request -/

def Source.name : Source → CStr
  | .app => lit "app"
  | .api => lit "api"
  | .controlledTest => lit "controlled_test"
  | .legacyLastReply => lit "legacy_last_reply"

def Outcome.name : Outcome → CStr
  | .noAnswer => lit "no_answer"
  | .completed => lit "completed"
  | .error => lit "error"
  | .interrupted => lit "interrupted"
  | .disconnected => lit "disconnected"
  | .cancelled => lit "cancelled"

def Finish.name : Finish → CStr
  | .unknown => lit "unknown"
  | .length => lit "length"
  | .stop => lit "stop"

/-- The record of a request, with all its fields. -/
def Record.fields (r : Record) : PerfRecord where
  schema := r.schema
  memory := r.memory
  engine := r.engine
  id := r.id
  model := r.model
  artifact := r.artifact
  quantization := r.quantization
  series := r.series
  backend := r.backend
  source := r.source.name
  outcome := r.outcome.name
  finish := r.finish.name
  timestamp := .fin r.timestamp
  generationNs := r.generationNs
  firstNs := r.firstNs
  firstAnswerNs := r.firstAnswerNs
  totalNs := r.totalNs
  prefillNs := r.prefillNs
  loadNs := r.loadNs
  rss := r.rss
  peakRss := r.peakRss
  cpuPercent := r.cpuPercent
  input := r.input
  output := r.output
  reused := r.reused
  maxTokens := r.maxTokens
  threads := r.threads
  samples := r.samples
  temperature := r.temperature
  topP := r.topP
  cold := r.cold
  contention := r.contention
  reasoning := r.reasoning

/-- Both forms of `valid` agree on it. -/
theorem Record.fields_valid (now : Int) (r : Record) : r.fields.valid now = valid now r := by
  have hsource : oneOf ["app", "api", "controlled_test", "legacy_last_reply"] r.source.name =
      true := by
    cases r.source <;> decide
  have houtcome : oneOf ["no_answer", "completed", "error", "interrupted", "disconnected",
      "cancelled"] r.outcome.name = true := by
    cases r.outcome <;> decide
  have htime : withinAfter ((now : Rat) + 300) (.fin (r.timestamp : Rat)) =
      (decide (0 < r.timestamp) && decide (r.timestamp ≤ now + 300)) := by
    have hpos : (0 : Rat) < r.timestamp ↔ 0 < r.timestamp := by exact_mod_cast Iff.rfl
    have hle : (r.timestamp : Rat) ≤ now + 300 ↔ r.timestamp ≤ now + 300 := by
      exact_mod_cast Iff.rfl
    rw [withinAfter, decide_eq_decide.mpr hpos, decide_eq_decide.mpr hle]
  simp only [PerfRecord.valid, Record.fields, hsource, houtcome, htime, valid, Bool.and_true,
    Bool.and_assoc]
  rfl

end GeistServe.Perf
