import GeistServe.Perf.Record

/-!
# Observing a request

`observe.c` around a request that was admitted: `observation_begin` under
app.mutex, the samples of the monitor while the request runs, and
`observation_end`, which fills the record and submits it. The other half are the
two handlers of `chat.c`, as far as they decide what is in the record: the times
and the flags of the proxy, the statistics of the daemon client, the code of the
answer, and where on their way out they call `observation_end`.
-/

namespace GeistServe.Observe

open GeistServe.Lib GeistServe.Geistd GeistServe.Perf

/-! ## Samples -/

/-- `struct app_process_sample`. -/
structure ProcessSample where
  pid : Nat := 0
  identity : Nat := 0
  cpuNs : Nat := 0
  rss : Nat := 0
  monotonicMs : Rat := 0
  deriving DecidableEq

/-- `struct app_resource_window`. -/
structure Window where
  previous : ProcessSample := {}
  cpuPercent : Rat := 0
  intervalMs : Rat := 0
  cpuKnown : Bool := false
  deriving DecidableEq

/-- `app_resource_update`, of a sample. -/
def appResourceUpdate (w : Window) (sample : ProcessSample) (logicalCpus : Nat) : Window :=
  if logicalCpus = 0 then {}
  else
    let elapsed := sample.monotonicMs - w.previous.monotonicMs
    if sample.pid ≠ w.previous.pid ∨ sample.identity ≠ w.previous.identity ∨
        sample.cpuNs < w.previous.cpuNs ∨ elapsed < 0 ∨ 10000 < elapsed then
      { previous := sample }
    else if elapsed < 500 then w
    else
      let percent := ((sample.cpuNs - w.previous.cpuNs : Nat) : Rat) / 1000000 / elapsed /
        logicalCpus * 100
      { previous := sample, cpuPercent := if 100 < percent then 100 else percent,
        intervalMs := elapsed, cpuKnown := true }

/-- What one look at the child and at the machine finds: the memory page, if it
is of the record's own child, the process, if there is one, and the processors. -/
structure Reading where
  gpu : Option GpuSample := none
  alive : Bool := true
  process : Option ProcessSample := none
  cpus : Option Nat := none
  nowNs : Nat := 0

def Reading.Plausible (x : Reading) : Prop :=
  x.nowNs ≤ 1000000000000000000 ∧ ∀ p ∈ x.process, p.rss ≤ 1000000000000000

/-- `app.observe`, with the record that it points to. -/
structure AppObserve where
  record : Option Record := none
  window : Window := {}
  sampleMs : Rat := 0
  cpuSum : Rat := 0
  cpuSamples : Nat := 0

/-- The `rss_source` of a build for Linux. -/
def RSS_SOURCE : Nat := 2

/-- What a sample finds of the process goes into the record. -/
def sampleProcess (o : AppObserve) (r : Record) (p : ProcessSample) (cpus : Option Nat) : AppObserve :=
  let rss : Double := .fin p.rss
  let r := { r with
    rss := rss
    memory := { r.memory with rssAgeMs := .fin 0 }
    peakRss := if Double.lt r.peakRss rss then rss else r.peakRss
    samples := (r.samples + 1) % 2 ^ 32 }
  match cpus with
  | none => { o with record := some r }
  | some n =>
      let w := appResourceUpdate o.window p n
      if w.cpuKnown then
        { o with
          window := w
          cpuSum := o.cpuSum + w.cpuPercent
          cpuSamples := o.cpuSamples + 1
          record := some { r with
            cpuPercent := .fin ((o.cpuSum + w.cpuPercent) / ((o.cpuSamples + 1 : Nat) : Rat)) } }
      else { o with window := w, record := some r }

/-- `observation_sample`, of a record that is sampled now. -/
def sampleNow (clock : Rat) (wall : Int) (x : Reading) (o : AppObserve) (r : Record) : AppObserve :=
  let o := { o with sampleMs := clock }
  let m := appMemoryObserve { r.memory with rssSource := RSS_SOURCE } x.gpu x.nowNs wall
  let r := { r with
    memory := { m with rssAgeMs := if x.alive then .fin 0 else .fin (-1) }
    rss := .fin (-1) }
  match if x.alive then x.process else none with
  | none => { o with record := some r }
  | some p => sampleProcess o r p x.cpus

/-- `observation_sample`. -/
def observationSample (force : Bool) (clock : Rat) (wall : Int) (x : Reading) (o : AppObserve) :
    AppObserve :=
  match o.record with
  | none => o
  | some r => if !force && decide (clock - o.sampleMs < 2000) then o else sampleNow clock wall x o r

/-! ## The child -/

/-- The processors' names. -/
inductive Backend where
  | cpuNeon | cpuX86 | cpuScalar | metal | vulkan
  deriving DecidableEq

def Backend.name : Backend → CStr
  | .cpuNeon => lit "cpu_neon"
  | .cpuX86 => lit "cpu_x86"
  | .cpuScalar => lit "cpu_scalar"
  | .metal => lit "metal"
  | .vulkan => lit "vulkan"

/-- The digest of a file, in hex. -/
structure Digest where
  text : CStr
  length : text.length = 64
  hex : hex text = true

/-- What `observation_begin` takes from an entry of the catalog. -/
structure ModelEntry where
  sha256 : Digest
  quantization : CStr

/-- What it takes from `app.child` and `app.backend`. -/
structure Child where
  packaged : AppEngine
  engine : AppEngine
  model : Option ModelEntry
  activeId : CStr
  backend : Backend
  threads : Nat
  requests : Nat
  generation : Nat
  ready : Bool
  loadingStarted : Rat
  loadedMs : Rat

/-- The start of a child in `start_child_mode_impl`: the packaged engine until the
child reports its own, with the digest of the program file if it can be read. -/
def Child.spawn (c : Child) (clock : Rat) (model : Option ModelEntry) (id : CStr)
    (backend : Backend) (threads : Nat) (digest : Option Digest) : Child :=
  { c with
    engine := { c.packaged with
      payloadSha256 := (digest.map Digest.text).getD c.packaged.payloadSha256 }
    model := model
    activeId := id
    backend := backend
    threads := threads
    requests := 0
    generation := c.generation + 1
    ready := false
    loadingStarted := clock }

/-- The handshake in `poll_child`: `app_engine_parse` lets through what is valid. -/
def Child.identify (c : Child) (clock : Rat) (identity : AppEngine) : Option Child :=
  if engineValid identity then
    some { c with
      engine := { identity with payloadSha256 := c.engine.payloadSha256 }
      ready := true
      loadedMs := clock - c.loadingStarted }
  else none

/-! ## The request -/

inductive Stage where
  | connect | «open» | prefill | generate
  deriving DecidableEq

/-- `struct app_run_stats`, as far as it goes into the record. -/
structure RunStats where
  limited : Bool := false
  reasoning : Bool := false
  noAnswer : Bool := false
  maxTokens : Nat := 0
  stage : Stage := .connect
  firstAnswerNs : Double := .fin (-1)
  tokens : Nat := 0
  promptTokens : Nat := 0
  reused : Nat := 0
  generationNs : Double := .fin 0
  prefillNs : Double := .fin (-1)

/-- `struct proxy`, as far as it goes into the record. -/
structure Proxy where
  start : Rat
  first : Rat := 0
  firstAnswer : Rat := 0
  started : Bool := false
  disconnected : Bool := false
  expired : Bool := false
  reasoning : Bool := false
  visible : Bool := false

/-- Where a request came from, and whether the API's client wants a stream. -/
inductive Kind where
  | app
  | api (stream : Bool)
  deriving DecidableEq

/-- What `proxy_cancel` meets: whether the app is closing, whether the client has
gone, whether what is due to be sent can be sent, and whether that opens the
answer. -/
structure Look where
  closing : Bool := false
  gone : Bool := false
  keepalive : Bool := true
  opens : Bool := false

/-- The times and flags of `proxy_cancel`, and its answer. -/
def proxyCancel (p : Proxy) (clock : Rat) (cancelled : Bool) (x : Look) : Proxy × Bool :=
  let p := { p with disconnected := x.gone, expired := decide (HOUR_MS < clock - p.start) }
  if x.closing || cancelled || p.expired || p.disconnected then (p, true)
  else if x.keepalive then ({ p with started := p.started || x.opens }, false)
  else ({ p with disconnected := true, started := p.started || x.opens }, true)

/-- One part of the text: thinking or answer, empty, only white space, and whether
what is sent of it opens the answer. -/
structure Part where
  thinking : Bool := false
  empty : Bool := false
  blank : Bool := false
  opens : Bool := false

/-- The times and flags of `proxy_part` behind `proxy_cancel`, and of the `send`
that it calls. -/
def notePart (p : Proxy) (clock : Rat) (t : Part) : Proxy :=
  let p := if !t.empty && decide (p.first = 0) then { p with first := clock - p.start } else p
  let p := { p with started := p.started || t.opens }
  if t.thinking then { p with reasoning := true }
  else if t.empty then p
  else
    { p with
      visible := p.visible || !t.blank
      firstAnswer := if !t.blank && decide (p.firstAnswer = 0) then clock - p.start
        else p.firstAnswer }

/-- The times and flags of `proxy_part`. -/
def proxyPart (p : Proxy) (clock : Rat) (cancelled : Bool) (x : Look) (t : Part) : Proxy :=
  let looked := proxyCancel p clock cancelled x
  if looked.2 then looked.1 else notePart looked.1 clock t

/-- What `chat_part` notes before it hands the part on. -/
def chatPart (st : RunStats) (sinkStart clock : Rat) : RunStats :=
  if st.stage = .prefill then
    { st with prefillNs := .fin ((clock - sinkStart) * 1000000), stage := .generate }
  else st

/-- How the last frame says the answer ended. -/
inductive Finished where
  | stop | length | context | client | other
  deriving DecidableEq

/-- The last frame of a `chat_send`, as `geistd_chat_send` reads it. -/
structure Report where
  finish : Finished
  inputTokens : Nat
  contextTokens : Nat
  outputTokens : Nat
  prefillMs : Double
  generationMs : Double

/-- `x * 1e6`. -/
def toNs : Double → Double
  | .fin q => .fin (q * 1000000)
  | x => x

/-- How `app_daemon_chat` ends: it could not send, which `errno` tells apart, it
refused or was refused the input, or it has the last frame. -/
inductive Returned where
  | failed
  | timedOut
  | cancelled
  | refused
  | sent (r : Report)

/-- The code of `app_daemon_chat`. -/
def Returned.code : Returned → Int
  | .failed => 502
  | .timedOut => 504
  | .cancelled => 499
  | .refused => 400
  | .sent r =>
      match r.finish with
      | .client => 499
      | .other => 502
      | _ => 0

/-- The statistics of `app_daemon_chat`; `capacity` and `max` are the context and
the limit of the request. -/
def Returned.stats (st : RunStats) (capacity max : Nat) : Returned → RunStats
  | .sent r =>
      if r.finish = .client ∨ r.finish = .other then st
      else
        let prompt := (r.contextTokens + 2 ^ 64 - r.outputTokens) % 2 ^ 64
        let room := if prompt + 1 < capacity then capacity - prompt - 1 else 0
        { st with
          promptTokens := prompt
          reused := if r.inputTokens < prompt then prompt - r.inputTokens else 0
          maxTokens := if max ≠ 0 ∧ max < room then max else room
          limited := decide (r.finish ≠ .stop)
          tokens := r.outputTokens
          generationNs := toNs r.generationMs
          prefillNs := if Double.lt st.prefillNs (.fin 0) then toNs r.prefillMs else st.prefillNs }
  | _ => st

/-- What `completions` makes of the code before `proxy_finish`. -/
def completionCode (p : Proxy) (textFailed : Bool) (rc : Int) : Int :=
  let rc := if textFailed then 502 else rc
  if rc = 0 ∧ !p.visible then 422 else rc

/-- `proxy_finish`. -/
def proxyFinish (p : Proxy) (st : RunStats) (rc : Int) : RunStats × Int :=
  ({ st with
     reasoning := p.reasoning
     noAnswer := !p.visible
     firstAnswerNs := if p.visible && decide (0 < p.firstAnswer) then
       .fin (p.firstAnswer * 1000000) else .fin (-1) },
   if p.expired then 504 else rc)

/-! ## The way out -/

/-- What a handler does behind `proxy_finish`, in order. -/
inductive Call where
  | respond
  | observationEnd (rc : Int)
  deriving DecidableEq

/-- Which of the last bytes could be sent: the empty part that opens an answer
without text, and the last event or the whole answer; and whether that fits its
buffer. -/
structure Sends where
  opening : Bool := true
  fits : Bool := true
  last : Bool := true

/-- The end of `generate`. -/
def generateTail (p : Proxy) (rc : Int) (x : Sends) : List Call :=
  let rc := if rc = 0 ∧ !p.started ∧ !x.opening then 502 else rc
  let rc := if rc = 0 ∧ !x.last then 498 else rc
  [.respond, .observationEnd (if p.disconnected then 498 else rc)]

/-- The end of `completions`. -/
def completionsTail (p : Proxy) (stream : Bool) (rc : Int) (x : Sends) : List Call :=
  let rc := if rc = 0 ∧ stream ∧ !p.started ∧ !x.opening then 502 else rc
  if rc = 0 ∧ !p.disconnected then [.observationEnd 0, .respond]
  else
    let rc := if rc ≠ 0 then rc else if !x.fits then 502 else if !x.last then 498 else 0
    [.respond, .observationEnd (if p.disconnected then 498 else rc)]

def Kind.tail (k : Kind) (p : Proxy) (rc : Int) (x : Sends) : List Call :=
  match k with
  | .app => generateTail p rc x
  | .api stream => completionsTail p stream rc x

/-! ## observation_begin and observation_end -/

/-- `outcome` of `observation_end`. -/
def outcomeOf (rc : Int) (noAnswer : Bool) : Outcome :=
  if rc = 499 then .cancelled
  else if rc = 498 then .disconnected
  else if rc = 422 ∧ noAnswer then .noAnswer
  else if rc = 400 then .error
  else if rc ≠ 0 then .interrupted
  else if noAnswer then .noAnswer
  else .completed

/-- The part of `observation_end` that fills the record. -/
def fillRecord (r : Record) (rc : Int) (first total : Rat) (st : RunStats) : Record :=
  { r with
    generationNs := st.generationNs
    firstNs := if 0 < first then .fin (first * 1000000) else .fin (-1)
    firstAnswerNs := st.firstAnswerNs
    reasoning := st.reasoning
    maxTokens := if st.maxTokens ≠ 0 then st.maxTokens else r.maxTokens
    totalNs := .fin (total * 1000000)
    prefillNs := st.prefillNs
    input := st.promptTokens
    output := st.tokens
    reused := st.reused
    outcome := outcomeOf rc st.noAnswer
    finish := if rc ≠ 0 then .unknown else if st.limited then .length else .stop }

/-- What a request asks for; the ranges are those of `app_chat_parse`, and the
fixed values of the app's own tasks are in them. -/
structure Asked where
  max : Nat
  temperature : Rat
  topP : Rat
  capacity : Nat
  warm : 0 ≤ temperature ∧ temperature ≤ 2
  nucleus : 0 < topP ∧ topP ≤ 1

/-- The first texts of `observation_begin`, and its numbers; `series` is the app's
`profile_series`. -/
def beginRecord (boot number : Nat) (wall : Int) (inst series : CStr) (c : Child) (source : Source)
    (q : Asked) (contention : Bool) : Record where
  id := fit 160 (recordName boot number)
  timestamp := wall
  memory := { generation := fit 112 (inst ++ 58 :: decimal c.generation) }
  engine := c.engine
  model := fit 65 c.activeId
  artifact := fit 65 (match c.model with
    | some m => m.sha256.text
    | none => lit "unknown-custom-artifact")
  quantization := fit 32 (match c.model with
    | some m => m.quantization
    | none => [])
  backend := fit 24 c.backend.name
  series := fit 768 (match c.model with
    | some _ => series
    | none => lit "unknown-custom-series")
  source := source
  threads := c.threads
  maxTokens := q.max
  temperature := .fin q.temperature
  topP := .fin q.topP
  cold := decide (c.requests = 0)
  loadNs := if c.requests = 0 then .fin (c.loadedMs * 1000000) else .fin (-1)
  contention := contention

/-! ## The watched request -/

/-- Where the handler of the request is. `finish` is behind `app_daemon_chat`,
`ending` waits for the lock of `observation_end` with its arguments, `submitting`
is behind its first section and `leaving` behind `perf_submit`. -/
inductive Phase where
  | chat
  | finish (rc : Int)
  | tail (calls : List Call)
  | ending (rc : Int) (total : Rat) (rest : List Call)
  | submitting (rc : Int) (total : Rat) (record : Record) (rest : List Call)
  | leaving (rest : List Call)

/-- The request that holds the model. `number` is that of its record, `epoch` and
`enabled` are what the record was begun under; `sinkStart` is `start` of the
client's sink. -/
structure Request where
  number : Nat
  epoch : Nat
  enabled : Bool
  kind : Kind
  asked : Asked
  proxy : Proxy
  stats : RunStats := {}
  sinkStart : Rat := 0
  phase : Phase := .chat

/-- The app, as far as requests are observed. `clock` is `monotonic_ms`, `wall` is
`time`. `admitted` and `ended` are kept for the proofs: the requests that were
admitted, and the calls of `observation_end`. `tails` is what a handler still has
to do when it no longer holds the model. -/
structure Watch (line : Record → Bytes) (decode : Bytes → Option Record) where
  clock : Rat
  wall : Int
  boot : Nat
  inst : CStr
  host : CStr
  perf : Service (recordCodec line decode)
  child : Child
  observe : AppObserve := {}
  cancelled : Bool := false
  request : Option Request := none
  tails : List (Nat × List Call) := []
  admitted : List Nat := []
  ended : List Nat := []

variable {line : Record → Bytes} {decode : Bytes → Option Record}

/-- The app's `profile_series`. -/
def Watch.series (s : Watch line decode) : CStr := fit 768 (lit "v1;engine=" ++ s.host)

inductive Event where
  | tick (ms : Rat) (seconds : Nat)
  | spawn (model : Option ModelEntry) (id : CStr) (backend : Backend) (threads : Nat)
      (digest : Option Digest)
  | identify (identity : AppEngine)
  | monitor (x : Reading)
  | cancel
  | measured (r : Record) (epoch : Nat) (enabled : Bool)
  | settings (enabled : Bool) (days : Nat) (stored : Bool)
  | «export»
  | clear
  | written
  | admitted (kind : Kind) (waited : Rat) (q : Asked) (contention : Bool) (x : Reading)
  | «open»
  | prefill (bytes : Nat)
  | poll (x : Look)
  | part (x : Look) (t : Part)
  | returned (r : Returned)
  | finished (textFailed : Bool) (x : Sends)
  | call
  | endSection (x : Reading)
  | submit
  | leave
  | late (i : Nat)

/-- `observation_begin`, under the lock in which the request is admitted; `waited`
is how long before it the API's handler has started its clock. -/
def Watch.begin (s : Watch line decode) (kind : Kind) (waited : Rat) (q : Asked)
    (contention : Bool) (x : Reading) : Watch line decode :=
  let (perf, number, epoch, enabled) := s.perf.begin
  let source := if kind = .app then .app else .api
  let r := beginRecord s.boot number s.wall s.inst s.series s.child source q contention
  let o := observationSample true s.clock s.wall x
    { s.observe with record := some r, window := {}, cpuSum := 0, cpuSamples := 0 }
  { s with
    perf := perf
    child := { s.child with requests := s.child.requests + 1 }
    cancelled := false
    observe := o
    request := some {
      number := number, epoch := epoch, enabled := enabled, kind := kind, asked := q
      proxy := { start := s.clock - if kind = .app then 0 else waited } }
    admitted := s.admitted ++ [number] }

/-- The first section of `observation_end`. -/
def Watch.endSection (s : Watch line decode) (q : Request) (rc : Int) (total : Rat)
    (rest : List Call) (x : Reading) : Watch line decode :=
  let o := observationSample true s.clock s.wall x s.observe
  let rc := if rc = 498 ∧ s.cancelled then 499 else rc
  { s with
    observe := { o with record := none }
    request := some { q with phase :=
      match o.record with
      | some r => .submitting rc total (fillRecord r rc q.proxy.first total q.stats) rest
      | none => .leaving rest } }

/-- The handler of the request takes a step. -/
def Watch.handle (s : Watch line decode) (q : Request) : Event → Option (Watch line decode)
  | .open =>
      match q.phase with
      | .chat => some { s with request := some { q with stats := { q.stats with stage := .open } } }
      | _ => none
  | .prefill bytes =>
      match q.phase with
      | .chat => some { s with request := some { q with
          stats := { q.stats with promptTokens := bytes / 4 + 1, stage := .prefill }
          sinkStart := s.clock } }
      | _ => none
  | .poll x =>
      match q.phase with
      | .chat => some { s with request := some { q with
          proxy := (proxyCancel q.proxy s.clock s.cancelled x).1 } }
      | _ => none
  | .part x t =>
      match q.phase with
      | .chat => some { s with request := some { q with
          stats := chatPart q.stats q.sinkStart s.clock
          proxy := proxyPart q.proxy s.clock s.cancelled x t } }
      | _ => none
  | .returned r =>
      match q.phase with
      | .chat => some { s with request := some { q with
          stats := r.stats q.stats q.asked.capacity q.asked.max
          phase := .finish r.code } }
      | _ => none
  | .finished textFailed x =>
      match q.phase with
      | .finish rc =>
          let rc := if q.kind = .app then rc else completionCode q.proxy textFailed rc
          let done := proxyFinish q.proxy q.stats rc
          some { s with request := some { q with
            stats := done.1, phase := .tail (q.kind.tail q.proxy done.2 x) } }
      | _ => none
  | .call =>
      match q.phase with
      | .tail (.respond :: rest) => some { s with request := some { q with phase := .tail rest } }
      | .tail (.observationEnd rc :: rest) =>
          some { s with
            request := some { q with phase := .ending rc (s.clock - q.proxy.start) rest }
            ended := s.ended ++ [q.number] }
      | _ => none
  | .endSection x =>
      match q.phase with
      | .ending rc total rest => some (s.endSection q rc total rest x)
      | _ => none
  | .submit =>
      match q.phase with
      | .submitting _ _ r rest =>
          some { s with
            perf := s.perf.submit s.wall ⟨r, q.enabled, q.epoch⟩
            request := some { q with phase := .leaving rest } }
      | _ => none
  | .leave =>
      match q.phase with
      | .leaving rest => some { s with request := none, tails := s.tails ++ [(q.number, rest)] }
      | _ => none
  | _ => none

/-- A handler that has released the model goes on. -/
def Watch.late (s : Watch line decode) (i : Nat) : Option (Watch line decode) :=
  match s.tails[i]? with
  | some (n, c :: rest) =>
      some { s with
        tails := s.tails.set i (n, rest)
        ended := s.ended ++ match c with
          | .respond => []
          | .observationEnd _ => [n] }
  | _ => none

def Watch.step (s : Watch line decode) (e : Event) : Option (Watch line decode) :=
  match e with
  | .tick ms seconds =>
      if 0 ≤ ms then some { s with clock := s.clock + ms, wall := s.wall + seconds } else none
  | .spawn model id backend threads digest =>
      some { s with child := s.child.spawn s.clock model id backend threads digest }
  | .identify identity =>
      (s.child.identify s.clock identity).map fun c => { s with child := c }
  | .monitor x =>
      some { s with observe := observationSample false s.clock s.wall x s.observe }
  | .cancel => some { s with cancelled := true }
  | .measured r epoch enabled =>
      -- the record of a comparison, which holds the model meanwhile
      if s.request.isNone then
        let p := s.perf.begin.1
        let r := { r with id := fit 160 (recordName s.boot p.sequence) }
        some { s with perf := p.submit s.wall ⟨r, enabled, epoch⟩ }
      else none
  | .settings enabled days stored =>
      if Retention days then some { s with perf := s.perf.settings enabled days stored } else none
  | .export => some { s with perf := (s.perf.export s.wall).1 }
  | .clear => some { s with perf := s.perf.clear }
  | .written => some { s with perf := { s.perf with queue := s.perf.queue.tail } }
  | .admitted kind waited q contention x =>
      if s.child.ready ∧ s.request.isNone ∧ 0 ≤ waited then
        some (s.begin kind waited q contention x)
      else none
  | .late i => s.late i
  | e => s.request.bind fun q => s.handle q e

/-- The runs of the app, from a start with the packaged engine and whatever the
load has found: records of other boots. -/
def watchMachine (line : Record → Bytes) (decode : Bytes → Option Record) :
    Machine (Watch line decode) Event where
  init s :=
    s.observe = {} ∧ s.request = none ∧ s.tails = [] ∧ s.admitted = [] ∧ s.ended = [] ∧
    s.perf.sequence = 0 ∧ s.child.ready = false ∧ engineValid s.child.packaged = true ∧
    engineValid s.child.engine = true ∧ s.child.loadingStarted ≤ s.clock ∧ 0 ≤ s.child.loadedMs ∧
    0 < s.wall ∧ s.wall ≤ 1000000000000 ∧
    ∀ r ∈ s.perf.st.recs, ∀ n, (r : Record).id ≠ fit 160 (recordName s.boot n)
  step := Watch.step

/-- What the machine under the app is taken to do: no process has a petabyte of
memory, no clock runs for 30 years without a start, the calendar ends in the year
33658, and no boot begins 2^64 records. -/
def Plausible (s : Watch line decode) : Event → Prop
  | .tick _ seconds => s.wall + seconds ≤ 1000000000000
  | .monitor x | .endSection x => x.Plausible
  | .admitted _ _ _ _ x => x.Plausible ∧ s.perf.sequence + 1 < 2 ^ 64
  | .measured _ _ _ => s.perf.sequence + 1 < 2 ^ 64
  | _ => True

instance (x : Reading) : Decidable x.Plausible := by
  unfold Reading.Plausible
  infer_instance

instance (s : Watch line decode) (e : Event) : Decidable (Plausible s e) := by
  cases e <;> unfold Plausible <;> infer_instance

end GeistServe.Observe
