import GeistServe.App.Held
import GeistServe.Json.Writer

/-!
# The way of an answer to the client: `generate` and `completions`

The parts that `app_daemon_chat` delivers go out by one of three ways: the events
of the app's own page, the chunks of a streamed completion, or the one body of a
completion that is not streamed. All three share the callback for a part and the
one that looks for a reason to stop, and each has its own way to send a text and
to end the response.

Times, the client and the state of the app are met as they come: a `Moment` is
what one callback finds.
-/

namespace GeistServe.App

open GeistServe.Lib GeistServe.Geistd GeistServe.Json

/-! ## Buffers and sending -/

/-- `struct app_buffer`. -/
structure Buffer where
  cap : Nat
  data : Bytes := []
  failed : Bool := false

/-- `app_put`, and `app_printf` of what it prints. -/
def Buffer.put (b : Buffer) (s : Bytes) : Buffer :=
  if b.failed ∨ b.cap ≤ b.data.length + s.length then { b with failed := true }
  else { b with data := b.data ++ s }

def Buffer.puts (b : Buffer) (xs : List Bytes) : Buffer := xs.foldl Buffer.put b

/-- `app_quote`: byte by byte, with the escapes of `gd_put_json`. -/
def Buffer.quote (b : Buffer) (s : Bytes) : Buffer := ((b.put [34]).puts (s.map gdEscape)).put [34]

/-- `%zu` and `%llu`. -/
def decimal (n : Nat) : Bytes := lit (toString (n % 2 ^ 64))

/-- What a client has been sent. `room` is how much more its connection takes before it
fails, `none` when it stays connected. -/
structure Fd where
  sent : Bytes := []
  room : Option Nat := none

/-- `send_bytes`. A connection that has failed takes nothing any more. -/
def Fd.send (fd : Fd) (data : Bytes) : Fd × Bool :=
  match fd.room with
  | none => (⟨fd.sent ++ data, none⟩, true)
  | some n =>
      if data.length ≤ n then (⟨fd.sent ++ data, some (n - data.length)⟩, true)
      else (⟨fd.sent ++ data.take n, some 0⟩, false)

/-- The header of `response`. -/
def responseHead (status : Nat) (type : Bytes) (n : Nat) : Bytes :=
  lit "HTTP/1.1 " ++ decimal status ++ lit " Response\r\nContent-Type: " ++ type ++
    lit "\r\nContent-Length: " ++ decimal n ++
    lit ("\r\nConnection: close\r\nCache-Control: no-store\r\n" ++
      "X-Content-Type-Options: nosniff\r\nReferrer-Policy: no-referrer\r\n" ++
      "Content-Security-Policy: default-src 'none'; script-src 'self'; style-src 'self'; " ++
      "connect-src 'self'; img-src 'self' data:; base-uri 'none'; frame-ancestors 'none'; " ++
      "form-action 'self'\r\n\r\n")

/-- `response`. -/
def Fd.response (fd : Fd) (status : Nat) (type body : Bytes) : Fd × Bool :=
  let header := responseHead status type body.length
  if header.length < 1024 then
    match fd.send header with
    | (fd, true) => fd.send body
    | (fd, false) => (fd, false)
  else (fd, false)

/-- `error_response`. -/
def Fd.errorResponse (fd : Fd) (code : Nat) (message : Bytes) : Fd :=
  let b := ({ cap := 1024 } : Buffer) |>.put (lit "\x7b\"error\":") |>.quote message
    |>.put (lit "\x7d")
  (fd.response code (lit "application/json") b.data).1

/-- `api_error`. -/
def Fd.apiError (fd : Fd) (code : Nat) (message : Bytes) : Fd :=
  let b := ({ cap := 1024 } : Buffer) |>.put (lit "\x7b\"error\":\x7b\"message\":") |>.quote message
    |>.put (lit ",\"type\":\"invalid_request_error\",\"code\":" ++ decimal code ++ lit "\x7d\x7d")
  (fd.response code (lit "application/json") b.data).1

/-! ## The proxy -/

/-- The app's own page, a streamed completion, a completion in one body. -/
inductive Api where
  | app | stream | whole
  deriving DecidableEq

/-- What a callback finds: a request to stop, a client that has gone, the end of the
hour; whether the prefill has taken a second, of how many tokens, whether ten seconds
have passed since the last heartbeat, and one since the last progress; the time since
the start, in nanoseconds, and the date. -/
structure Moment where
  cancelled : Bool := false
  gone : Bool := false
  late : Bool := false
  slow : Bool := false
  promptTokens : Nat := 0
  quiet : Bool := false
  second : Bool := false
  elapsed : Nat := 0
  date : Nat := 0

/-- `struct proxy`, with `struct completion_proxy` around it. Times are 0 before they
are taken. -/
structure Proxy where
  api : Api
  id : Bytes
  model : Bytes
  fd : Fd
  text : Buffer := { cap := 32768 }
  started : Bool := false
  disconnected : Bool := false
  expired : Bool := false
  preparing : Bool := false
  reading : Bool := false
  visible : Bool := false
  reasoning : Bool := false
  thinkingNow : Bool := false
  first : Nat := 0
  firstAnswer : Nat := 0
  thought : Nat := 0

/-- `send_bytes` to the client of the proxy. -/
def Proxy.emit (p : Proxy) (data : Bytes) : Proxy × Bool :=
  let (fd, ok) := p.fd.send data
  ({ p with fd := fd }, ok)

/-- `text[strspn(text, " \t\r\n")]`: there is more than white space. -/
def hasText (text : Bytes) : Bool := text.any fun c => !decide (c = 32 ∨ c = 9 ∨ c = 13 ∨ c = 10)

def Proxy.noteAnswer (p : Proxy) (m : Moment) (text : Bytes) : Proxy :=
  if hasText text ∧ p.firstAnswer = 0 then { p with firstAnswer := m.elapsed } else p

/-! ## The app's events -/

def ndjsonHead : Bytes :=
  lit ("HTTP/1.1 200 OK\r\nContent-Type: application/x-ndjson\r\nCache-Control: no-store\r\n" ++
    "Connection: close\r\nX-Content-Type-Options: nosniff\r\n\r\n")

/-- `proxy_head`. -/
def proxyHead (p : Proxy) : Proxy × Bool :=
  if p.started then (p, true)
  else
    let (p, ok) := p.emit ndjsonHead
    ({ p with started := ok }, ok)

/-- `proxy_event`. -/
def proxyEvent (p : Proxy) (json : Bytes) : Proxy × Bool :=
  match proxyHead p with
  | (p, true) => p.emit json
  | (p, false) => (p, false)

/-- `proxy_thinking`. -/
def proxyThinking (p : Proxy) (text : Bytes) : Proxy × Bool :=
  let b := ({ cap := 4096 } : Buffer) |>.put (lit "\x7b\"thinking\":") |>.quote text
    |>.put (lit "\x7d\n")
  if b.failed then (p, false) else proxyEvent p b.data

/-- `proxy_send`. -/
def proxySend (p : Proxy) (m : Moment) (text : Bytes) : Proxy × Bool :=
  match proxyHead (p.noteAnswer m text) with
  | (p, false) => (p, false)
  | (p, true) =>
      let b := ({ cap := 16384 } : Buffer) |>.put (lit "\x7b\"response\":") |>.quote text
        |>.put (lit ",\"done\":false\x7d\n")
      if b.failed then (p, false) else p.emit b.data

/-- `proxy_keepalive`. -/
def proxyKeepalive (p : Proxy) (m : Moment) : Proxy × Bool :=
  let beat (p : Proxy) : Proxy × Bool :=
    p.emit (if p.thinkingNow ∧ p.firstAnswer = 0 then lit "\x7b\"phase\":\"preparing\"\x7d\n"
      else lit "\x7b\"heartbeat\":true\x7d\n")
  if p.started then beat p
  else
    match proxySend p m [] with
    | (p, false) => (p, false)
    | (p, true) => beat p

/-! ## Completions -/

/-- `completion_prefix`. -/
def completionPrefix (b : Buffer) (p : Proxy) (chunk : Bool) (date : Nat) : Buffer :=
  b.put (lit "\x7b\"id\":") |>.quote p.id
    |>.put (lit ",\"object\":\"chat.completion" ++ (if chunk then lit ".chunk" else []) ++
        lit "\",\"created\":" ++ decimal date ++ lit ",\"model\":")
    |>.quote p.model

def sseHead : Bytes :=
  lit ("HTTP/1.1 200 OK\r\nContent-Type: text/event-stream\r\nCache-Control: no-store\r\n" ++
    "Connection: close\r\nX-Content-Type-Options: nosniff\r\n\r\n")

/-- The header of a stream in `completion_send`. -/
def completionHead (p : Proxy) : Proxy × Bool :=
  if p.started then (p, true)
  else
    match p.emit sseHead with
    | (p, false) => (p, false)
    | (p, true) => ({ p with started := true }, true)

/-- `completion_send`. -/
def completionSend (p : Proxy) (m : Moment) (decoded : Bytes) : Proxy × Bool :=
  let p := p.noteAnswer m decoded
  if p.api = .whole then
    let text := p.text.put decoded
    ({ p with text := text }, !text.failed)
  else
    match completionHead p with
    | (p, false) => (p, false)
    | (p, true) =>
        let b := completionPrefix (({ cap := 16384 } : Buffer).put (lit "data: ")) p true m.date
          |>.put (lit (",\"choices\":[\x7b\"index\":0,\"delta\":\x7b\"role\":\"assistant\"," ++
              "\"content\":"))
          |>.quote decoded
          |>.put (lit "\x7d,\"finish_reason\":null\x7d]\x7d\n\n")
        if b.failed then (p, false) else p.emit b.data

/-- `completion_keepalive`. -/
def completionKeepalive (p : Proxy) (m : Moment) : Proxy × Bool :=
  if p.api = .whole then (p, true)
  else if p.started then p.emit (lit ": preparing\n\n")
  else
    match completionSend p m [] with
    | (p, false) => (p, false)
    | (p, true) => p.emit (lit ": preparing\n\n")

/-! ## The callbacks -/

/-- `p->send`. -/
def Proxy.send (p : Proxy) (m : Moment) (text : Bytes) : Proxy × Bool :=
  if p.api = .app then proxySend p m text else completionSend p m text

/-- `p->keepalive`. -/
def Proxy.keepalive (p : Proxy) (m : Moment) : Proxy × Bool :=
  if p.api = .app then proxyKeepalive p m else completionKeepalive p m

/-- Announce a long prefill, once. -/
def Proxy.announce (p : Proxy) (m : Moment) : Proxy × Bool :=
  if p.api = .app ∧ p.reading = false ∧ m.slow then
    proxyEvent { p with reading := true }
      (lit "\x7b\"phase\":\"prefill\",\"tokens\":" ++ decimal m.promptTokens ++ lit "\x7d\n")
  else (p, true)

/-- `proxy_cancel`: whether to stop. -/
def proxyCancel (p : Proxy) (m : Moment) : Proxy × Bool :=
  let p := { p with disconnected := m.gone, expired := m.late }
  if m.cancelled ∨ p.expired ∨ p.disconnected then (p, true)
  else
    match p.announce m with
    | (p, false) => ({ p with disconnected := true }, true)
    | (p, true) =>
        if m.quiet then
          match p.keepalive m with
          | (p, false) => ({ p with disconnected := true }, true)
          | (p, true) => (p, false)
        else (p, false)

/-- What a part is to the proxy: a text to think over, or one to send. -/
def Proxy.take (p : Proxy) (m : Moment) (thinking : Bool) (text : Bytes) : Proxy × Bool :=
  if thinking then
    let p := { p with reasoning := true, thinkingNow := !p.visible }
    if p.api = .app ∧ text ≠ [] then proxyThinking p text else (p, true)
  else if text ≠ [] then
    let p := { p with thinkingNow := false, visible := p.visible || hasText text }
    p.send m text
  else (p, true)

/-- The first sign of thinking is told once. -/
def Proxy.prepare (p : Proxy) (m : Moment) : Proxy × Bool :=
  if p.reasoning ∧ p.preparing = false then
    let (p, ok) := p.keepalive m
    ({ p with preparing := true }, ok)
  else (p, true)

/-- While the model thinks, the app gets a count, about once a second. -/
def Proxy.progress (p : Proxy) (m : Moment) (text : Bytes) : Proxy × Bool :=
  if p.api = .app ∧ p.thinkingNow ∧ text ≠ [] then
    let p := { p with thought := p.thought + 1 }
    if m.second then
      proxyEvent p
        (lit "\x7b\"phase\":\"preparing\",\"tokens\":" ++ decimal p.thought ++ lit "\x7d\n")
    else (p, true)
  else (p, true)

/-- `proxy_part`: whether to go on. -/
def proxyPart (p : Proxy) (m : Moment) (thinking : Bool) (text : Bytes) : Proxy × Bool :=
  match proxyCancel p m with
  | (p, true) => (p, false)
  | (p, false) =>
      let p := if text ≠ [] ∧ p.first = 0 then { p with first := m.elapsed } else p
      match p.take m thinking text with
      | (p, false) => (p, false)
      | (p, true) =>
          match p.prepare m with
          | (p, false) => (p, false)
          | (p, true) => p.progress m text

/-- When the callbacks come: the looks for a reason to stop before each part and behind
the last one, the parts themselves, and the end. -/
structure Timing where
  polls : Nat → List Moment := fun _ => []
  part : Nat → Moment := fun _ => {}
  after : List Moment := []
  last : Moment := {}

def Proxy.polls (p : Proxy) (ms : List Moment) : Proxy := ms.foldl (fun p m => (proxyCancel p m).1) p

/-- The proxy over the parts from number `n` on, with its answer to each. -/
def Proxy.parts (t : Timing) : Nat → Proxy → List (Bool × CStr) → Proxy × List Bool
  | _, p, [] => (p, [])
  | n, p, (thinking, text) :: rest =>
      let (p, ok) := proxyPart (p.polls (t.polls n)) (t.part n) thinking text
      let (p, oks) := Proxy.parts t (n + 1) p rest
      (p, ok :: oks)

/-! ## Requests -/

/-- An error that a request is answered with before the model is asked. -/
structure Refusal where
  code : Nat
  message : Bytes
  deriving DecidableEq

/-- The errors of `app_chat_parse`. -/
def chatRefusals : List Refusal :=
  let invalid := lit "Invalid chat request. Expected a model and text messages."
  [⟨503, invalid⟩, ⟨400, invalid⟩,
   ⟨422, lit ("This endpoint supports text chat only. Tools, structured output and multimodal " ++
      "requests are not supported.")⟩,
   ⟨422, lit "Tool-call history is not supported by this text-chat endpoint."⟩,
   ⟨422, lit "Only text content parts are supported."⟩,
   ⟨422, lit "Only one completion per request is supported."⟩]

/-- The errors of `generate`. -/
def generateRefusals : List Refusal :=
  chatRefusals ++
  [⟨503, lit "Request memory budget exhausted."⟩,
   ⟨400, lit "A text prompt is required."⟩,
   ⟨400, lit "Choose an available task and its current version."⟩,
   ⟨503, lit "Cannot allocate prompt."⟩,
   ⟨400, lit "The input is empty or exceeds this task's byte limit."⟩,
   ⟨400, lit "Choose English or German for this task."⟩,
   ⟨400, lit "Use alternating user and assistant messages ending with the current input."⟩,
   ⟨400, lit "Use alternating nonempty user and assistant messages."⟩,
   ⟨400, lit "The final message must match the current input."⟩,
   ⟨409, lit "Wait until the model is ready and idle."⟩,
   ⟨409, lit "The loaded model changed. Clear the chat to continue with the new model."⟩,
   ⟨409, lit ("This task/model/language is experimental. " ++
      "Enable experimental use explicitly.")⟩]

/-- The errors of `completions`. -/
def completionRefusals : List Refusal :=
  chatRefusals ++
  [⟨503, lit "Request memory budget exhausted."⟩,
   ⟨503, lit "Select and load a model in geisten first."⟩,
   ⟨404, lit "Requested model is not loaded. Refresh /v1/models after changing models."⟩,
   ⟨429, lit "The shared model is busy. Retry after the current request completes."⟩]

/-- A request, and what its response depends on beside the answer: the connection, an
error of its own, the running model, the number of the completion, the option for the
usage, when the callbacks come, and the two durations that the daemon tells, in
nanoseconds. -/
structure Request where
  api : Api
  fd : Option Nat
  refused : Option Refusal
  known : ∀ r ∈ refused, r ∈ if api = .app then generateRefusals else completionRefusals
  model : Bytes
  pid : Nat
  sequence : Nat
  includeUsage : Bool
  timing : Timing
  generationNs : Nat
  totalNs : Nat

/-- The proxy at the start: `id` and `model` are cut to their arrays. -/
def Request.proxy (q : Request) : Proxy where
  api := q.api
  id := (lit "chatcmpl-geist-" ++ decimal q.pid ++ lit "-" ++ decimal q.sequence).take 63
  model := q.model.take 159
  fd := { room := q.fd }

/-- The proxy when `app_daemon_chat` has returned, and its answers. -/
def Request.served (q : Request) (parts : List (Bool × CStr)) : Proxy × List Bool :=
  let (p, oks) := q.proxy.parts q.timing 0 parts
  (p.polls q.timing.after, oks)

/-- The code and the text behind `proxy_finish`. -/
def proxyFinish (p : Proxy) (rc : Nat) (error : Bytes) : Nat × Bytes :=
  if p.expired then
    (504, lit "The one-hour request limit was reached. Shorten the conversation or select GPU.")
  else (rc, error)

/-! ## The end of a response -/

def flag (b : Bool) : Bytes := if b then lit "true" else lit "false"

/-- `%.0f` of a time that may not have been taken. -/
def taken (n : Nat) : Bytes := if n = 0 then lit "-1" else decimal n

/-- The last event of a successful `generate`. -/
def finalEvent (q : Request) (p : Proxy) (s : RunStats) : Bytes :=
  lit "\x7b\"done\":true,\"eval_count\":" ++ decimal s.tokens ++
  lit ",\"eval_duration\":" ++ decimal q.generationNs ++
  lit ",\"total_duration\":" ++ decimal q.totalNs ++
  lit ",\"prompt_eval_count\":" ++ decimal s.promptTokens ++
  lit ",\"reused\":" ++ decimal s.reused ++
  lit ",\"limited\":" ++ flag s.limited ++
  lit ",\"reasoning\":" ++ flag p.reasoning ++
  lit ",\"no_answer\":" ++ flag (!p.visible) ++
  lit ",\"max_tokens\":" ++ decimal s.maxTokens ++
  lit ",\"first_model_text_ns\":" ++ taken p.first ++
  lit ",\"first_answer_ns\":" ++ (if p.visible then taken p.firstAnswer else lit "-1") ++
  lit "\x7d\n"

/-- `generate` behind its checks: the client's bytes and the code. `final` holds 512
bytes. -/
def generate (q : Request) (out : Outcome) : Fd × Nat :=
  let p := (q.served out.parts).1
  let (rc, error) := proxyFinish p out.rc out.error
  let (p, rc) :=
    if rc = 0 ∧ p.started = false then
      match proxySend p q.timing.last [] with
      | (p, true) => (p, 0)
      | (p, false) => (p, 502)
    else (p, rc)
  if p.started = false then (p.fd.errorResponse (if rc = 0 then 502 else rc) error, rc)
  else if rc ≠ 0 then
    let b := ({ cap := 1024 } : Buffer) |>.put (lit "\x7b\"error\":") |>.quote error
      |>.put (lit "\x7d\n")
    (if b.failed then p.fd else (p.fd.send b.data).1, rc)
  else
    match p.fd.send ((finalEvent q p out.stats).take 511) with
    | (fd, true) => (fd, 0)
    | (fd, false) => (fd, 498)

/-- The usage of a completion. -/
def usage (s : RunStats) : Bytes :=
  lit ",\"usage\":\x7b\"prompt_tokens\":" ++ decimal s.promptTokens ++
  lit ",\"completion_tokens\":" ++ decimal s.tokens ++
  lit ",\"total_tokens\":" ++ decimal (s.promptTokens + s.tokens) ++ lit "\x7d"

def finishReason (s : RunStats) : Bytes := if s.limited then lit "length" else lit "stop"

/-- The end of a stream: its last chunk, the usage if it was asked for, and the mark. -/
def streamEnd (q : Request) (p : Proxy) (s : RunStats) : Buffer :=
  let date := q.timing.last.date
  let b := completionPrefix (({ cap := 65536 } : Buffer).put (lit "data: ")) p true date
    |>.put (lit ",\"choices\":[\x7b\"index\":0,") |>.put (lit "\"delta\":\x7b\x7d,")
    |>.put (lit "\"finish_reason\":") |>.quote (finishReason s)
    |>.put (lit "\x7d]") |>.put (lit "\x7d") |>.put (lit "\n\n")
  let b := if q.includeUsage then
      completionPrefix (b.put (lit "data: ")) p true date
        |>.put (lit ",\"choices\":[]" ++ usage s ++ lit "\x7d\n\n")
    else b
  b.put (lit "data: [DONE]\n\n")

/-- The body of a completion that is not streamed. -/
def wholeBody (q : Request) (p : Proxy) (s : RunStats) : Buffer :=
  completionPrefix { cap := 65536 } p false q.timing.last.date
    |>.put (lit ",\"choices\":[\x7b\"index\":0,")
    |>.put (lit "\"message\":\x7b\"role\":\"assistant\",\"content\":") |>.quote p.text.data
    |>.put (lit "\x7d,")
    |>.put (lit "\"finish_reason\":") |>.quote (finishReason s)
    |>.put (lit "\x7d]") |>.put (usage s) |>.put (lit "\x7d")

/-- The code and the text of `completions` before `proxy_finish`. -/
def completionCode (p : Proxy) (out : Outcome) : Nat × Bytes :=
  let (rc, error) :=
    if p.text.failed then (502, lit "The model produced invalid or oversized text.")
    else (out.rc, out.error)
  if rc = 0 ∧ p.visible = false then
    (422, lit "The model produced no answer. Try again or allow more output tokens.")
  else (rc, error)

/-- `completions` behind its checks. -/
def completions (q : Request) (out : Outcome) : Fd × Nat :=
  let p := (q.served out.parts).1
  let (rc, error) := completionCode p out
  let (rc, error) := proxyFinish p rc error
  let (p, rc) :=
    if rc = 0 ∧ q.api = .stream ∧ p.started = false then
      match completionSend p q.timing.last [] with
      | (p, true) => (p, 0)
      | (p, false) => (p, 502)
    else (p, rc)
  if rc ≠ 0 then
    if p.started = false then (p.fd.apiError rc error, rc)
    else
      let b := ({ cap := 65536 } : Buffer) |>.put (lit "data: \x7b\"error\":\x7b\"message\":")
        |>.quote error |>.put (lit "\x7d\x7d\n\n")
      ((p.fd.send b.data).1, rc)
  else if q.api = .stream then
    let b := streamEnd q p out.stats
    if b.failed then (p.fd, 502)
    else
      match p.fd.send b.data with
      | (fd, true) => (fd, 0)
      | (fd, false) => (fd, 498)
  else
    let b := wholeBody q p out.stats
    if b.failed then (p.fd.apiError 502 (lit "Completion exceeds response capacity."), 502)
    else
      match p.fd.response 200 (lit "application/json") b.data with
      | (fd, true) => (fd, 0)
      | (fd, false) => (fd, 498)

/-- The response to a request: the client's bytes and the code. -/
def respond (q : Request) (out : Outcome) : Fd × Nat :=
  match q.refused, q.api with
  | some r, .app => (({ room := q.fd } : Fd).errorResponse r.code r.message, r.code)
  | some r, _ => (({ room := q.fd } : Fd).apiError r.code r.message, r.code)
  | none, .app => generate q out
  | none, _ => completions q out

end GeistServe.App
