import GeistServe.Geistd.Framing
import GeistServe.Geistd.Main
import GeistServe.Json.Number
import GeistServe.Lib.Numeral
import GeistServe.Lib.Peer
import GeistServe.Lib.Search

/-!
# The app's own HTTP: `read_request`, `authorized` and the dispatch of `handle`

A request arrives in pieces. Its head is searched for the blank line while it arrives; then
the lines of the head are read in place, each cut off at its end, and the rest of the body is
received. The head is a C string all the while: what stands behind a NUL is not searched.

What a request runs is an `Endpoint`; the sections of the endpoints are the supervisor's.
-/

namespace GeistServe.Http

open GeistServe.Lib GeistServe.Geistd

def REQUEST_CAP : Nat := 32768
def HEADER_CAP : Nat := 8192

/-- How `request_recv` ends when nothing more comes: with the deadline, or with a connection
that is closed or fails. -/
inductive Gone where
  | timeout | closed
  deriving DecidableEq

/-- `struct request`. The body is there once all of it has arrived. -/
structure Request where
  method : CStr := []
  path : CStr := []
  host : CStr := []
  origin : CStr := []
  auth : CStr := []
  body : CStr := []
  deriving DecidableEq

/-! ## The request line -/

/-- One `%<width>s` of `sscanf`. -/
def scanWord (width : Nat) (s : CStr) : Option (CStr × CStr) :=
  let s := s.dropWhile isSpace
  let word := (s.takeWhile fun c => !isSpace c).take width
  if word = [] then none else some (word, s.drop word.length)

/-- `sscanf(head, "%7s %255s %15s %c", ..) == 3`. -/
def scanLine (s : CStr) : Option (CStr × CStr × CStr) :=
  match scanWord 7 s with
  | none => none
  | some (method, s) =>
      match scanWord 255 s with
      | none => none
      | some (path, s) =>
          match scanWord 15 s with
          | none => none
          | some (version, s) =>
              if s.dropWhile isSpace = [] then some (method, path, version) else none

/-! ## The header lines -/

def blank (c : UInt8) : Bool := c == 32 || c == 9

/-- `strncasecmp(line, name, strlen(name)) == 0`. -/
def named (name : String) (line : CStr) : Bool :=
  (line.take (lit name).length).map Json.lower == (lit name).map Json.lower

/-- Without the blanks around it. -/
def trimmed (s : CStr) : CStr := ((s.dropWhile blank).reverse.dropWhile blank).reverse

/-- `header_value`: `out` is what the field has already. -/
def headerValue (out : CStr) (cap : Nat) (s : CStr) : Option CStr :=
  if cap ≤ (trimmed s).length ∨ out ≠ [] then none else some (trimmed s)

/-- The digits of Content-Length, behind `length`. -/
def lengthDigits (length : Nat) : CStr → Except Nat Nat
  | [] => .ok length
  | c :: p =>
      if isDigit c then
        let length := length * 10 + (c.toNat - 48)
        if REQUEST_CAP < length then .error 413 else lengthDigits length p
      else .error 400

/-- The value of Content-Length, behind its colon. -/
def contentLength (s : CStr) : Except Nat Nat :=
  let p := s.dropWhile (· == 32)
  if p = [] then .error 400 else lengthDigits 0 p

/-- What the header lines have said so far. -/
structure Header where
  host : CStr := []
  origin : CStr := []
  auth : CStr := []
  length : Option Nat := none
  deriving DecidableEq

/-- One line of the loop. -/
def headerLine (h : Header) (line : CStr) : Except Nat Header :=
  if named "Host:" line then
    match headerValue h.host 128 (line.drop 5) with
    | none => .error 400
    | some v => .ok { h with host := v }
  else if named "Origin:" line then
    match headerValue h.origin 160 (line.drop 7) with
    | none => .error 400
    | some v => .ok { h with origin := v }
  else if named "Authorization:" line then
    match headerValue h.auth 128 (line.drop 14) with
    | none => .error 400
    | some v => .ok { h with auth := v }
  else if named "Transfer-Encoding:" line then .error 400
  else if named "Content-Length:" line then
    if h.length.isSome then .error 400
    else match contentLength (line.drop 15) with
      | .error e => .error e
      | .ok n => .ok { h with length := some n }
  else .ok h

/-- The loop over the header lines: `line` is the text from the next one on, and `stop` bytes
of the text are from `end` on. -/
def headerLines (stop : Nat) : Nat → CStr → Header → Except Nat Header
  | 0, _, h => .ok h
  | fuel + 1, line, h =>
      if line.length ≤ stop then .ok h
      else match find [13, 10] line with
        | none => .error 400
        | some n =>
            match headerLine h (line.take n) with
            | .error e => .error e
            | .ok h => headerLines stop fuel (line.drop (n + 2)) h

/-! ## The request -/

/-- The digits of a port, behind `value`. -/
def portDigits (value : Nat) : CStr → Option Nat
  | [] => some value
  | c :: port =>
      if !isDigit c || 6553 < value then none else portDigits (value * 10 + (c.toNat - 48)) port

/-- `loopback_host`. -/
def loopbackHost (host : CStr) : Bool :=
  if (lit "127.0.0.1:").isPrefixOf host || (lit "localhost:").isPrefixOf host then
    let port := host.drop 10
    if port = [] then false
    else match portDigits 0 port with
      | none => false
      | some value => decide (0 < value ∧ value ≤ 65535)
  else false

/-- `strstr(head, "\r\n\r\n")`, of what has arrived. -/
def headEnd (got : Bytes) : Option Nat := find [13, 10, 13, 10] (cstr got)

/-- What the request line and the headers say together. -/
def requestLine (first : CStr) (headers : Except Nat Header) :
    Except Nat (CStr × CStr × Header) :=
  match scanLine first with
  | none => .error 400
  | some (method, path, version) =>
      if version ≠ lit "HTTP/1.1" ∧ version ≠ lit "HTTP/1.0" then .error 400
      else headers.map fun h => (method, path, h)

/-- The head, once its end is at `stop`. -/
def readHead (head : CStr) (stop : Nat) : Except Nat (CStr × CStr × Header) :=
  match find [13, 10] head with
  | none => .error 400
  | some n =>
      let line := head.drop (n + 2)
      requestLine (head.take n) (headerLines (head.length - stop) line.length line {})

/-- The checks that a browser cannot pass from another site. -/
def guarded (unixSocket : Bool) (h : Header) : Bool :=
  unixSocket || (loopbackHost h.host && (h.origin == [] || h.origin == lit "http://" ++ h.host))

/-- The request behind its head, when `receive` gives the body. -/
def readBody (unixSocket : Bool) (head : CStr × CStr × Header)
    (receive : Nat → Except Nat Bytes) : Except Nat Request :=
  let (method, path, h) := head
  if guarded unixSocket h then
    match receive (h.length.getD 0) with
    | .error e => .error e
    | .ok body =>
        if 0 ∈ body then .error 400
        else .ok
          { method := method, path := path, host := h.host, origin := h.origin, auth := h.auth,
            body := body }
  else .error 403

/-- The status of a request that does not arrive; `none` is a head that is too long. -/
def missing : Option Gone → Nat
  | none => 431
  | some .timeout => 408
  | some .closed => 400

/-- The body that the last loop has received. -/
def received : Except (Option Gone) (Bytes × Peer UInt8 (Option Gone)) → Except Nat Bytes
  | .error gone => .error (missing gone)
  | .ok (body, _) => .ok body

/-- `read_request`. -/
def readRequest (unixSocket : Bool) (peer : Peer UInt8 Gone) : Except Nat Request :=
  match readUntil headEnd HEADER_CAP none (peer.stream.length + 1) []
      ⟨peer.stream, peer.cuts, some peer.gone⟩ with
  | .error gone => .error (missing gone)
  | .ok (stop, got, peer) =>
      match readHead (cstr got) stop with
      | .error e => .error e
      | .ok head =>
          readBody unixSocket head fun length =>
            received (readFull length (peer.stream.length + 1)
              ((got.drop (stop + 4)).take length) peer)

/-- `app.token`: `app_key` reads or makes a key of 64 hexadecimal digits. -/
structure Token where
  text : CStr
  length : text.length = 64

/-- `authorized`. The buffer of the expected header takes 79 bytes. -/
def authorized (token : Token) (r : Request) : Bool :=
  let expected := (lit "Bearer " ++ token.text).take 79
  if r.auth.length ≠ expected.length then false
  else (List.zipWith (· ^^^ ·) r.auth expected).foldl (· ||| ·) 0 == 0

/-! ## The dispatch -/

inductive Endpoint where
  | models | connections | completions | status | compare | compareCancel | performanceExport
  | verdictSettings | performanceClear | performanceSettings | catalog | importCatalog
  | execution | tasks | generate | activityCancel | cancel | quitIfIdle | quit | stop
  | setup | preview | preferences | download | remove | select
  deriving DecidableEq

/-- The paths that need no token, each with a fixed answer. -/
def assets : List CStr :=
  [lit "/", lit "/app.css", lit "/i18n.js", lit "/marked.js", lit "/markdown.js",
    lit "/snippets.js", lit "/katex.js", lit "/app.js", lit "/health"]

/-- The endpoint of an authorized request, or the status of the refusal. -/
def endpoint (r : Request) : Except Nat Endpoint :=
  let get := r.method = lit "GET"
  let post := r.method = lit "POST"
  if get ∧ r.path = lit "/v1/models" then .ok .models
  else if get ∧ r.path = lit "/app/connections" then .ok .connections
  else if post ∧ r.path = lit "/v1/chat/completions" then .ok .completions
  else if (lit "/v1/").isPrefixOf r.path then .error 404
  else if get ∧ r.path = lit "/app/status" then .ok .status
  else if r.path = lit "/app/performance/compare" ∧ post then .ok .compare
  else if r.path = lit "/app/performance/cancel" ∧ post then .ok .compareCancel
  else if r.path = lit "/app/performance/export" ∧ get then .ok .performanceExport
  else if r.path = lit "/app/verdict-settings" ∧ post then .ok .verdictSettings
  else if (r.path = lit "/app/performance/settings" ∨ r.path = lit "/app/performance/clear") ∧
      post then
    .ok (if r.path = lit "/app/performance/clear" then .performanceClear
      else .performanceSettings)
  else if r.path = lit "/app/catalog" then
    if get then .ok .catalog else if post then .ok .importCatalog else .error 405
  else if r.path = lit "/app/execution" then
    if post then .ok .execution else .error 405
  else if r.path = lit "/app/tasks" ∧ get then .ok .tasks
  else if ¬ post then .error 405
  else if r.path = lit "/app/generate" then .ok .generate
  else if r.path = lit "/app/activity/cancel" then .ok .activityCancel
  else if r.path = lit "/app/cancel" then .ok .cancel
  else if r.path = lit "/app/quit-if-idle" then .ok .quitIfIdle
  else if r.path = lit "/app/quit" then .ok .quit
  else if r.path = lit "/app/stop" then .ok .stop
  else if r.path = lit "/app/setup" then .ok .setup
  else if r.path = lit "/app/preview" then .ok .preview
  else if r.path = lit "/app/preferences" then .ok .preferences
  else if r.path = lit "/app/download" then .ok .download
  else if r.path = lit "/app/remove" then .ok .remove
  else if r.path = lit "/app/select" then .ok .select
  else .error 404

/-- What `handle` does with a connection. -/
inductive Reaction where
  | refused (status : Nat)
  | asset (path : CStr)
  | run (e : Endpoint) (r : Request)
  deriving DecidableEq

/-- The dispatch of `handle`. -/
def handle (token : Token) (unixSocket : Bool) (peer : Peer UInt8 Gone) : Reaction :=
  match readRequest unixSocket peer with
  | .error status => .refused status
  | .ok r =>
      if r.method = lit "GET" ∧ assets.contains r.path then .asset r.path
      else if authorized token r then
        match endpoint r with
        | .error status => .refused status
        | .ok e => .run e r
      else .refused (if (lit "/v1/").isPrefixOf r.path then 401 else 403)

end GeistServe.Http
