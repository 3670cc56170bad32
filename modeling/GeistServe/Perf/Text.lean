import GeistServe.Json.Number
import GeistServe.Perf.Fields

/-!
# The text of a performance record

`record_json` with the writers of the engine and of the memory, and `parse` with their
readers. A number is written with the 17 digits that tell every double apart, and as
`null` when it is below zero, which is how an unknown one is kept.
-/

namespace GeistServe.Perf

open GeistServe.Lib GeistServe.Geistd GeistServe.Json

/-! ## Writing -/

/-- `app_quote`. It escapes what the client's `gd_put_json` escapes. -/
def appQuote (s : CStr) : Bytes := gdPutJson s

def truth (b : Bool) : Bytes := if b then lit "true" else lit "false"

/-- `number`, and `numeric` of memory.c. -/
def number : Double → Bytes
  | .fin q => if q < 0 then lit "null" else generalText 17 q
  | _ => lit "null"

/-- `x >= lo`. -/
def atLeast (lo : Rat) : Double → Bool
  | .fin q => decide (lo ≤ q)
  | .inf neg => !neg
  | .nan => false

/-- A member that stands behind another one. -/
def member (key : String) (text : Bytes) : Bytes := lit ",\"" ++ lit key ++ lit "\":" ++ text

/-- `value`. -/
def value (s : CStr) : Bytes := if s.isEmpty then lit "null" else appQuote s

/-- `app_engine_json`. -/
def appEngineJson (e : AppEngine) : Bytes :=
  lit "\x7b\"geistlib\":\x7b\"version\":" ++ value e.version ++
  member "revision" (value e.revision) ++
  member "source_state"
    (appQuote (if e.sourceState.isEmpty then lit "unknown" else e.sourceState)) ++
  lit "\x7d" ++
  member "payload_sha256" (value e.payloadSha256) ++
  member "unavailable_reason"
    (if e.version.isEmpty || e.revision.isEmpty then appQuote (lit "not_reported")
      else lit "null") ++
  lit "\x7d"

/-- `reasons`. -/
def reasons : List CStr :=
  [lit "not_collected", lit "", lit "unsupported", lit "query_failed", lit "stale"]

def rssSourceName (n : Nat) : CStr :=
  if n = 1 then lit "macos.proc_pid_rusage.ri_resident_size"
  else if n = 2 then lit "linux.proc_pid_stat.rss"
  else lit "legacy_process_rss"

/-- `app_memory_json`. -/
def appMemoryJson (m : MemoryRecord) (rss peakRss : Double) (rssSamples : Nat) : Bytes :=
  lit "\x7b\"process_generation\":" ++ value m.generation ++
  member "sampled_at" (number (if Double.lt (.fin 0) m.sampledAt then m.sampledAt else .fin (-1))) ++
  member "process_rss_bytes" (number rss) ++
  member "process_rss_sampled_peak_bytes" (number peakRss) ++
  member "process_rss_sample_age_ms" (number m.rssAgeMs) ++
  member "rss_unavailable_reason"
    (if atLeast 0 rss then lit "null"
      else appQuote (if Double.lt (.fin 6000) m.rssAgeMs then lit "stale"
        else if atLeast 0 m.rssAgeMs then lit "query_failed" else lit "not_collected")) ++
  member "rss_source" (appQuote (rssSourceName m.rssSource)) ++
  member "rss_samples" (decimal rssSamples) ++
  member "sample_interval_ms" (lit "2000") ++
  member "status" (decimal m.status) ++
  member "source" (decimal m.source) ++
  member "gpu_samples" (decimal m.gpuSamples) ++
  member "gpu_allocated_bytes" (number (if m.status = 1 then m.gpuEnd else .fin (-1))) ++
  member "gpu_allocated_sampled_peak_bytes"
    (number (if m.gpuSamples ≠ 0 then m.gpuPeak else .fin (-1))) ++
  member "gpu_sample_age_ms" (number m.gpuAgeMs) ++
  member "gpu_source"
    (if m.source = 1 then appQuote (lit "metal.MTLDevice.currentAllocatedSize")
      else lit "null") ++
  member "gpu_unavailable_reason"
    (if m.status = 1 then lit "null"
      else appQuote (reasons.getD (if m.status ≤ 4 then m.status else 0) [])) ++
  member "unified_memory" (if m.source = 1 then truth m.unified else lit "null") ++
  member "process_physical_footprint_bytes" (lit "null") ++
  member "total_unique_physical_bytes" (lit "null") ++
  lit "\x7d"

/-- `record_json`. -/
def recordJson (r : PerfRecord) : Bytes :=
  lit "\x7b\"schema\":" ++ (if r.schema = 1 then lit "1" else lit "2") ++
  member "reasoning" (truth r.reasoning) ++
  (if r.schema ≠ 1 then member "engine" (appEngineJson r.engine) else []) ++
  member "id" (appQuote r.id) ++
  member "model" (appQuote r.model) ++
  member "artifact" (appQuote r.artifact) ++
  member "quantization" (appQuote r.quantization) ++
  member "series" (appQuote r.series) ++
  member "backend" (appQuote r.backend) ++
  member "source" (appQuote r.source) ++
  member "outcome" (appQuote r.outcome) ++
  member "finish" (appQuote r.finish) ++
  member "run" (appQuote r.run) ++
  member "timestamp" (number r.timestamp) ++
  member "generation_ns" (number r.generationNs) ++
  member "first_ns" (number r.firstNs) ++
  member "first_answer_ns" (number r.firstAnswerNs) ++
  member "total_ns" (number r.totalNs) ++
  member "prefill_ns" (number r.prefillNs) ++
  member "load_ns" (number r.loadNs) ++
  member "rss" (number r.rss) ++
  member "peak_rss" (number r.peakRss) ++
  member "cpu_percent" (number r.cpuPercent) ++
  member "temperature" (number r.temperature) ++
  member "top_p" (number r.topP) ++
  member "input" (decimal r.input) ++
  member "output" (decimal r.output) ++
  member "reused" (decimal r.reused) ++
  member "max_tokens" (decimal r.maxTokens) ++
  member "threads" (decimal r.threads) ++
  member "samples" (decimal r.samples) ++
  member "sample_interval_ms" (lit "2000") ++
  member "cold" (truth r.cold) ++
  member "contention" (truth r.contention) ++
  member "warmup" (truth r.warmup) ++
  member "gpu_memory" (lit "null") ++
  member "unavailable_reason" (lit "\"legacy_field_use_memory_scopes\"") ++
  member "memory" (appMemoryJson r.memory r.rss r.peakRss r.samples) ++
  lit "\x7d\n"

/-! ## Reading -/

/-- A string of an object that fits its array. -/
def readText (j : Doc) (obj cap : Nat) (key : String) : Option CStr :=
  (j.strdup (j.get obj (lit key))).filter fun s => decide (s.length < cap)

/-- A number that counts something. -/
def readCount (n : Double) : Option Nat :=
  match n with
  | .fin q =>
    if 0 ≤ q ∧ q ≤ 1000000 ∧ (q.floor : Rat) = q then some q.floor.toNat else none
  | _ => none

/-- `json_get`, where there may be no object. -/
def under (j : Doc) (obj : Option Nat) (key : String) : Option Nat :=
  obj.bind fun o => j.get o (lit key)

def isObject (j : Doc) (t : Nat) : Bool := (j.tok[t]?).any (·.type == .object)

/-- A byte of a plain token. -/
def plainByte (c : UInt8) : Bool := decide (32 ≤ c ∧ c ≤ 126 ∧ c ≠ 92)

/-- `field`. -/
def field (cap : Nat) (j : Doc) (obj : Option Nat) (key : String) : Option CStr :=
  let t := under j obj key
  match t.bind (j.tok[·]?) with
  | none => some []
  | some tok =>
    if tok.type = .primitive ∧ j.text tok = lit "null" then some []
    else if tok.type ≠ .string then none
    else if !(j.text tok).all plainByte then none
    else (j.strdup t).filter fun s => decide (s.length < cap)

/-- `app_engine_parse`. -/
def appEngineParse (j : Doc) (obj : Option Nat) : Option AppEngine :=
  match obj with
  | none => some {}
  | some o =>
    if !isObject j o then none
    else
      let geistlib := j.get o (lit "geistlib")
      if geistlib.any fun l => !isObject j l then none
      else
        (field 64 j geistlib "version").bind fun version =>
        (field 65 j geistlib "revision").bind fun revision =>
        (field 16 j geistlib "source_state").bind fun sourceState =>
        (field 65 j (some o) "payload_sha256").bind fun payload =>
        (some (⟨version, revision, sourceState, payload⟩ : AppEngine)).filter engineValid

def rssSourceOf (name : Option CStr) : Nat :=
  if name = some (lit "macos.proc_pid_rusage.ri_resident_size") then 1
  else if name = some (lit "linux.proc_pid_stat.rss") then 2
  else 0

/-- `app_memory_parse`. -/
def appMemoryParse (j : Doc) (index : Option Nat) : Option MemoryRecord :=
  match index with
  | none => some {}
  | some i =>
    let num := fun (key : String) (dflt : Rat) => j.num (j.get i (lit key)) (.fin dflt)
    let generation := (j.strdup (j.get i (lit "process_generation"))).getD []
    if !isObject j i then none
    else if 112 ≤ generation.length then none
    else
      (readCount (num "status" 0)).bind fun status =>
      (readCount (num "source" 0)).bind fun source =>
      (readCount (num "gpu_samples" 0)).bind fun gpuSamples =>
      (some
        { generation := generation
          sampledAt := num "sampled_at" 0
          gpuAgeMs := num "gpu_sample_age_ms" (-1)
          rssAgeMs := num "process_rss_sample_age_ms" (-1)
          gpuEnd := num "gpu_allocated_bytes" (-1)
          gpuPeak := num "gpu_allocated_sampled_peak_bytes" (-1)
          rssSource := rssSourceOf (j.strdup (j.get i (lit "rss_source")))
          status := status
          source := source
          gpuSamples := gpuSamples
          unified := j.bool (j.get i (lit "unified_memory")) false }).filter memoryValid

/-- The engine of a record: a schema 2 record must have one. -/
def readEngine (j : Doc) (schema : Nat) : Option AppEngine :=
  if schema = 2 then (j.get 0 (lit "engine")).bind fun t => appEngineParse j (some t)
  else some {}

/-- The schema, 1 or 2. -/
def readSchema (j : Doc) : Option Nat :=
  match j.num (j.get 0 (lit "schema")) (.fin 0) with
  | .fin q => if q = 1 then some 1 else if q = 2 then some 2 else none
  | _ => none

/-- The record of a document, up to its last test. -/
def readRecord (j : Doc) : Option PerfRecord :=
  let num := fun (key : String) => j.num (j.get 0 (lit key)) (.fin (-1))
  let flag := fun (key : String) => j.bool (j.get 0 (lit key)) false
  (readSchema j).bind fun schema =>
  (readEngine j schema).bind fun engine =>
  (readText j 0 160 "id").bind fun id =>
  (readText j 0 65 "model").bind fun model =>
  (readText j 0 65 "artifact").bind fun artifact =>
  (readText j 0 32 "quantization").bind fun quantization =>
  (readText j 0 768 "series").bind fun series =>
  (readText j 0 24 "backend").bind fun backend =>
  (readText j 0 24 "source").bind fun source =>
  (readText j 0 24 "outcome").bind fun outcome =>
  (readText j 0 16 "finish").bind fun finish =>
  (readText j 0 80 "run").bind fun run =>
  (readCount (num "input")).bind fun input =>
  (readCount (num "output")).bind fun output =>
  (readCount (num "reused")).bind fun reused =>
  (readCount (num "max_tokens")).bind fun maxTokens =>
  (readCount (num "threads")).bind fun threads =>
  (readCount (num "samples")).bind fun samples =>
  (appMemoryParse j (j.get 0 (lit "memory"))).bind fun memory =>
  some
    { schema := schema, engine := engine, reasoning := flag "reasoning", id := id
      model := model, artifact := artifact, quantization := quantization, series := series
      backend := backend, source := source, outcome := outcome, finish := finish, run := run
      timestamp := num "timestamp", generationNs := num "generation_ns"
      firstNs := num "first_ns", firstAnswerNs := num "first_answer_ns"
      totalNs := num "total_ns", prefillNs := num "prefill_ns", loadNs := num "load_ns"
      rss := num "rss", peakRss := num "peak_rss", cpuPercent := num "cpu_percent"
      temperature := num "temperature", topP := num "top_p"
      input := input, output := output, reused := reused, maxTokens := maxTokens
      threads := threads, samples := samples
      cold := flag "cold", contention := flag "contention", warmup := flag "warmup"
      memory := memory }

/-- `parse` of a C string. -/
def parse (now : Int) (line : CStr) : Option PerfRecord :=
  ((jsonParse line).bind readRecord).filter (PerfRecord.valid now)

end GeistServe.Perf
