import Mathlib.Data.Nat.Digits.Lemmas
import GeistServe.Geistd.Wire
import GeistServe.Perf.Service

/-!
# A performance record

`struct perf_record` with what it holds of the engine and of the memory, and
`valid`, which every record has to pass that is submitted or read from a
segment. Two of its texts come from fixed lists and are enumerations here, so
the tests of `valid` that they are in the list have nothing left to ask. The
text of a line (`record_json`, `parse`) stays a parameter, as in the store.
-/

namespace GeistServe.Perf

open GeistServe.Lib GeistServe.Geistd

/-- `snprintf` of `%s` into a buffer of `cap` bytes. -/
def fit (cap : Nat) (s : CStr) : CStr := s.take (cap - 1)

/-- `isfinite(x) && x >= lo && x <= hi`. -/
def within (lo hi : Rat) : Double → Bool
  | .fin q => decide (lo ≤ q) && decide (q ≤ hi)
  | _ => false

/-- `isfinite(x) && x >= -1 && x <= total`. -/
def withinTotal (x total : Double) : Bool :=
  match x, total with
  | .fin x, .fin total => decide (-1 ≤ x) && decide (x ≤ total)
  | _, _ => false

/-- One hour in nanoseconds, and in milliseconds. -/
def HOUR_NS : Rat := 3600000000000

def HOUR_MS : Rat := 3600000

/-! ## The engine -/

/-- `struct app_engine`. -/
structure AppEngine where
  version : CStr := []
  revision : CStr := []
  sourceState : CStr := []
  payloadSha256 : CStr := []
  deriving DecidableEq

/-- `hex`, of the whole text. -/
def hex (s : CStr) : Bool :=
  s.all fun c => decide (48 ≤ c ∧ c ≤ 57) || decide (97 ≤ c ∧ c ≤ 102)

/-- `isalnum`, or one of `.-+_`. -/
def versionChar (c : UInt8) : Bool :=
  decide (48 ≤ c ∧ c ≤ 57) || decide (65 ≤ c ∧ c ≤ 90) || decide (97 ≤ c ∧ c ≤ 122) ||
    (lit ".-+_").contains c

/-- `app_engine_valid`. -/
def engineValid (e : AppEngine) : Bool :=
  decide (e.sourceState.length < 16) &&
  !(decide (e.sourceState = lit "clean") && e.revision.isEmpty) &&
  decide (e.version.length < 64) &&
  (e.revision.isEmpty || (decide (e.revision.length = 40 ∨ e.revision.length = 64) &&
    hex e.revision)) &&
  (e.payloadSha256.isEmpty || (decide (e.payloadSha256.length = 64) && hex e.payloadSha256)) &&
  e.version.all versionChar &&
  (e.sourceState.isEmpty || decide (e.sourceState = lit "clean") ||
    decide (e.sourceState = lit "modified") || decide (e.sourceState = lit "unknown"))

/-! ## Memory -/

/-- `struct app_memory_record`. -/
structure MemoryRecord where
  generation : CStr := []
  sampledAt : Double := .fin 0
  gpuAgeMs : Double := .fin (-1)
  gpuEnd : Double := .fin (-1)
  gpuPeak : Double := .fin (-1)
  rssAgeMs : Double := .fin (-1)
  gpuSamples : Nat := 0
  status : Nat := 0
  source : Nat := 0
  rssSource : Nat := 0
  unified : Bool := false
  lastSequence : Nat := 0
  deriving DecidableEq

/-- `struct lifecycle_memory`, as it is read from the child's page. -/
structure GpuSample where
  sequence : Nat
  sampledNs : Nat
  allocatedBytes : Nat
  status : Nat
  source : Nat
  unified : Bool
  deriving DecidableEq

/-- What `app_memory_observe` asks of a sample before it takes it. -/
def GpuSample.taken (m : MemoryRecord) (nowNs : Nat) (s : GpuSample) : Bool :=
  decide (s.sampledNs ≠ 0) && decide (s.sampledNs ≤ nowNs) && decide (s.status ≤ 3) &&
    decide (s.source ≤ 1) && decide (m.lastSequence ≤ s.sequence) &&
    decide (s.allocatedBytes ≤ 1000000000000000)

/-- `app_memory_observe`, of a sample that it takes. -/
def takeMemory (m : MemoryRecord) (s : GpuSample) (nowNs : Nat) : MemoryRecord :=
  let isFresh := decide (m.lastSequence ≠ s.sequence)
  let age : Rat := ((nowNs - s.sampledNs : Nat) : Rat) / 1000000
  let status := if 6000 < age then 4 else s.status
  let m := { m with lastSequence := s.sequence, gpuAgeMs := .fin age, status := status }
  let m := if s.source ≠ 0 then { m with source := s.source, unified := s.unified } else m
  if status = 1 ∧ s.source ≠ 1 then { m with status := 3 }
  else if status ≠ 1 then m
  else
    let m := { m with gpuEnd := .fin s.allocatedBytes }
    if isFresh then
      { m with
        gpuSamples := (m.gpuSamples + 1) % 2 ^ 32
        gpuPeak := if Double.lt m.gpuPeak m.gpuEnd then m.gpuEnd else m.gpuPeak }
    else m

/-- `app_memory_observe`. -/
def appMemoryObserve (m : MemoryRecord) (s : Option GpuSample) (nowNs : Nat) (timestamp : Int) :
    MemoryRecord :=
  let m := { m with gpuEnd := .fin (-1), status := 0, gpuAgeMs := .fin (-1),
                    sampledAt := .fin timestamp }
  match s with
  | none => m
  | some s => if s.taken m nowNs then takeMemory m s nowNs else m

/-- `app_memory_valid`. -/
def memoryValid (m : MemoryRecord) : Bool :=
  decide (m.generation.length < 112) && decide (m.status ≤ 4) && decide (m.source ≤ 1) &&
  decide (m.rssSource ≤ 2) && decide (m.gpuSamples ≤ 1000000) &&
  within (-1) 1000000000000000 m.gpuEnd && within (-1) 1000000000000000 m.gpuPeak &&
  within (-1) 1000000000000 m.gpuAgeMs && within (-1) 1000000000000 m.rssAgeMs &&
  within 0 1000000000000 m.sampledAt &&
  (decide (m.gpuSamples = 0) ||
    (decide (m.source = 1) && within 0 1000000000000000 m.gpuPeak)) &&
  (decide (m.status ≠ 1) ||
    (decide (m.source = 1) && within 0 1000000000000000 m.gpuEnd && within 0 6000 m.gpuAgeMs))

/-! ## The record -/

inductive Source where
  | app | api | controlledTest | legacyLastReply
  deriving DecidableEq

inductive Outcome where
  | noAnswer | completed | error | interrupted | disconnected | cancelled
  deriving DecidableEq

inductive Finish where
  | unknown | length | stop
  deriving DecidableEq

/-- `struct perf_record`, less the epoch and the switch that go with it (`Entry`). -/
structure Record where
  schema : Nat := 2
  memory : MemoryRecord := {}
  engine : AppEngine := {}
  id : CStr
  model : CStr := []
  artifact : CStr := []
  quantization : CStr := []
  series : CStr := []
  backend : CStr := []
  source : Source := .app
  outcome : Outcome := .completed
  finish : Finish := .unknown
  timestamp : Int
  generationNs : Double := .fin 0
  firstNs : Double := .fin (-1)
  firstAnswerNs : Double := .fin (-1)
  totalNs : Double := .fin 0
  prefillNs : Double := .fin (-1)
  loadNs : Double := .fin (-1)
  rss : Double := .fin (-1)
  peakRss : Double := .fin (-1)
  cpuPercent : Double := .fin (-1)
  input : Nat := 0
  output : Nat := 0
  reused : Nat := 0
  maxTokens : Nat := 0
  threads : Nat := 0
  samples : Nat := 0
  temperature : Double := .fin 0
  topP : Double := .fin 0
  cold : Bool := false
  contention : Bool := false
  reasoning : Bool := false
  deriving DecidableEq

/-- `token`. -/
def token (cap : Nat) (s : CStr) : Bool := decide (0 < s.length) && decide (s.length < cap)

/-- `valid`. -/
def valid (now : Int) (r : Record) : Bool :=
  engineValid r.engine && token 160 r.id && token 65 r.artifact && token 768 r.series &&
  token 24 r.backend && decide (0 < r.timestamp) && decide (r.timestamp ≤ now + 300) &&
  within 0 HOUR_NS r.generationNs && within 0 HOUR_NS r.totalNs &&
  withinTotal r.firstNs r.totalNs && withinTotal r.firstAnswerNs r.totalNs &&
  within (-1) HOUR_NS r.prefillNs && within (-1) HOUR_NS r.loadNs &&
  within (-1) 1000000000000000 r.rss && within (-1) 1000000000000000 r.peakRss &&
  within (-1) (10001 / 100) r.cpuPercent && memoryValid r.memory &&
  decide (r.input ≤ 1000000) && decide (r.output ≤ 1000000) && decide (r.reused ≤ r.input) &&
  within 0 10 r.temperature && within 0 1 r.topP && decide (r.samples ≤ 3601)

/-- The records with their text. -/
def recordCodec (line : Record → Bytes) (decode : Bytes → Option Record) : Codec where
  Rec := Record
  decEq := inferInstance
  id := Record.id
  timestamp := Record.timestamp
  line := line
  decode := decode
  valid := valid

/-! ## Names -/

/-- `%llu`. -/
def decimal (n : Nat) : CStr :=
  if n = 0 then [48] else (Nat.digits 10 n).reverse.map fun d => UInt8.ofNat (48 + d)

/-- A digit of `%016llx`. -/
def hexChar (n : Nat) : UInt8 := if n < 10 then UInt8.ofNat (48 + n) else UInt8.ofNat (87 + n)

/-- `%016llx` of 64 bits. -/
def hex16 (n : Nat) : CStr := (List.range 16).reverse.map fun i => hexChar (n / 16 ^ i % 16)

/-- The name that `perf_begin` gives to the `n`-th record of a boot. -/
def recordName (boot n : Nat) : CStr := hex16 boot ++ 45 :: decimal n

/-- The digits are read back. -/
theorem digits_read (n : Nat) :
    ((Nat.digits 10 n).reverse.map fun d => UInt8.ofNat (48 + d)).map (fun b => b.toNat - 48) =
      (Nat.digits 10 n).reverse := by
  rw [List.map_map]
  conv_rhs => rw [← List.map_id (Nat.digits 10 n).reverse]
  refine List.map_congr_left fun d hd => ?_
  have hlt : d < 10 := Nat.digits_lt_base (by decide) (List.mem_reverse.mp hd)
  show (UInt8.ofNat (48 + d)).toNat - 48 = d
  rw [UInt8.toNat_ofNat', Nat.mod_eq_of_lt (by omega)]
  omega

/-- The number behind the digits. -/
theorem decimal_value (n : Nat) :
    Nat.ofDigits 10 ((decimal n).map fun b => b.toNat - 48).reverse = n := by
  rw [decimal]
  split
  · next h =>
      rw [h]
      rfl
  · rw [digits_read, List.reverse_reverse]
    exact Nat.ofDigits_digits 10 n

theorem decimal_inj {m n : Nat} (h : decimal m = decimal n) : m = n := by
  rw [← decimal_value m, h, decimal_value]

theorem decimal_length {n : Nat} (h : n < 2 ^ 64) : (decimal n).length ≤ 20 := by
  rw [decimal]
  split
  · decide
  · rw [List.length_map, List.length_reverse]
    exact (Nat.digits_length_le_iff (by decide) n).mpr (Nat.lt_trans h (by decide))

/-- Only digits. -/
theorem decimal_bytes (n : Nat) : ∀ b ∈ decimal n, 48 ≤ b.toNat ∧ b.toNat ≤ 57 := by
  intro b hb
  rw [decimal] at hb
  split at hb
  · rw [List.mem_singleton.mp hb]
    decide
  · obtain ⟨d, hd, rfl⟩ := List.mem_map.mp hb
    have hlt : d < 10 := Nat.digits_lt_base (by decide) (List.mem_reverse.mp hd)
    rw [UInt8.toNat_ofNat', Nat.mod_eq_of_lt (by omega)]
    omega

theorem hex16_length (n : Nat) : (hex16 n).length = 16 := by
  rw [hex16, List.length_map, List.length_reverse, List.length_range]

theorem recordName_inj {boot m n : Nat} (h : recordName boot m = recordName boot n) : m = n :=
  decimal_inj (List.cons_inj_right _ |>.mp (List.append_cancel_left h))

end GeistServe.Perf
