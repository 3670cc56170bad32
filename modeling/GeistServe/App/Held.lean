import GeistServe.Geistd.Handle

/-!
# The resident conversation: `app_daemon_chat`

The app keeps one chat in geistd and `held`, its own list of what that chat
holds. A request is matched against the list: rewind to the common start, send
only the rest. The client calls go through `handle`, the daemon's own code, so
the two copies are moved by the two programs and not by a summary of either.

What can go wrong between the two is a `Fate` for each call: whether the
request arrives, how many reply frames the daemon gets rid of, how many of them
the client reads before a limit or a cancellation ends the call, and what
happens to the daemon before it.
-/

namespace GeistServe.App

open GeistServe.Lib GeistServe.Geistd

def APP_CHAT_MESSAGES : Nat := 64

/-- `held`; `id` is `none` when `id[0]` is 0. -/
structure Held where
  id : Option CStr := none
  path : CStr := []
  temperature : Double := .fin 0
  topP : Double := .fin 0
  reasoning : CStr := []
  turns : List Msg := []

def heldKeep (h : Held) (n : Nat) : Held := { h with turns := h.turns.take n }

/-- `held_push`; `alloc` says whether `strdup` succeeds. A turn that cannot be
remembered makes the caller forget the chat. -/
def heldPush (alloc : Bool) (h : Held) (m : Msg) : Held :=
  if h.turns.length > APP_CHAT_MESSAGES ∨ alloc = false then { h with id := none }
  else { h with turns := h.turns ++ [m] }

/-- `same_role`: anything but system and assistant counts as user. -/
def sameRole (a b : CStr) : Bool :=
  (decide (a = lit "system") == decide (b = lit "system")) &&
    (decide (a = lit "assistant") == decide (b = lit "assistant"))

def sameMsg (a b : Msg) : Bool := sameRole a.role b.role && decide (a.content = b.content)

/-! ## The world the calls go through -/

variable {P : Platform}

/-- What can happen to the daemon between two calls of the app: another client's
frame, a chat that is closed, the end of the process, a start at a new path. -/
inductive DaemonEvent (P : Platform) where
  | other (env : Env) (f : Frame) (life : Option Nat)
  | evict (i : Nat)
  | stop
  | restart (path : CStr) (d : Daemon P)

/-- The app's daemon, if it runs, under its socket path; the paths that have
been used; the mirror. -/
structure World (P : Platform) where
  daemon : Option (CStr × Daemon P)
  used : List CStr
  held : Held

/-- The random id of a `chat_open` is taken to be new: not the id of a live
chat, nor the held one. -/
def newIdFree (w : World P) (d : Daemon P) (env : Env) (f : Frame) : Bool :=
  decide (opOf f ≠ some (lit "chat_open")) ||
    decide (w.held.id ≠ some env.newId) &&
      d.chats.all fun x => x.all fun x => decide (x.id ≠ env.newId)

/-- A daemon that has just been started by the app: no chat, no session, a Unix
socket that needs no hello. -/
def freshDaemon (d : Daemon P) : Daemon P :=
  { d with
    chats := d.chats.map fun _ => none
    sess := d.sess.map fun _ => none
    needHello := false }

/-- An event takes place. Other clients do not know the held id, a path is used
once: what would break this does not take place. -/
def applyEvent (w : World P) : DaemonEvent P → World P
  | .other env f life =>
      match w.daemon with
      | some (p, d) =>
          if newIdFree w d env f ∧ (w.held.id.isSome → chatOf f ≠ w.held.id) then
            { w with daemon := some (p, (handle d env f { life := life }).1) }
          else w
      | none => w
  | .evict i =>
      { w with
        daemon := w.daemon.map fun pd => (pd.1, { pd.2 with chats := pd.2.chats.set i none }) }
  | .stop => { w with daemon := none }
  | .restart path d =>
      if w.used.contains path then w
      else { w with daemon := some (path, freshDaemon d), used := path :: w.used }

/-- What happens to one client call. -/
structure Fate (P : Platform) where
  before : List (DaemonEvent P) := []
  env : Env
  delivered : Bool := true
  life : Option Nat := none
  seen : Nat

/-- The reply frames that the client reads, and the conversations that the
daemon generated from. -/
structure Heard where
  frames : List Reply := []
  asked : List (List Turn) := []

/-- One client call: the request, if it arrives, is one frame on a connection
of its own. -/
def rpc (w : World P) (path : CStr) (ft : Fate P) (f : Frame) : World P × Heard :=
  let w := ft.before.foldl applyEvent w
  match w.daemon with
  | some (p, d) =>
      if p = path ∧ ft.delivered ∧ newIdFree w d ft.env f then
        match handle d ft.env f { life := ft.life } with
        | (d', c, _) => ({ w with daemon := some (p, d') }, ⟨c.sent.take ft.seen, c.asked⟩)
      else (w, {})
  | none => (w, {})

/-! ## The client's requests -/

def infoFrame : Frame where
  hdr := some [(lit "op", .str (lit "info"))]

def openFrame (P : Platform) (temperature topP : Double) (format : CStr) : Frame where
  hdr :=
    match P.printG temperature, P.printG topP with
    | some t, some p =>
        some [(lit "op", .str (lit "chat_open")), (lit "temperature", t), (lit "top_p", p),
          (lit "reasoning", .str format), (lit "thinking", .bool true)]
    | _, _ => none

def closeFrame (id : CStr) : Frame where
  hdr := some [(lit "op", .str (lit "chat_close")), (lit "chat", .str id)]

def rewindFrame (id : CStr) (keep : Nat) : Frame where
  hdr := some [(lit "op", .str (lit "chat_rewind")), (lit "chat", .str id),
    (lit "keep", .num (.fin keep))]

/-- A message as a JSON object. -/
def msgJson (m : Msg) : JVal :=
  .obj [(lit "role", .str m.role), (lit "content", .str m.content)]

def sendFrame (id : CStr) (max : Nat) (ms : List Msg) : Frame where
  hdr := some [(lit "op", .str (lit "chat_send")), (lit "chat", .str id),
    (lit "max", .num (.fin max))]
  body := { doc := some [(lit "messages", .arr (ms.map msgJson))] }

/-! ## Reading a reply -/

/-- What one round trip answers: a good reply, a refusal with its text, or
nothing (the text is then the client's own). -/
inductive Answer where
  | good (r : Reply)
  | refused (msg : CStr)
  | lost
  deriving DecidableEq

/-- `gd_call`. -/
def Heard.answer (h : Heard) : Answer :=
  match h.frames.head? with
  | none => .lost
  | some (.error m) => .refused m
  | some (.failed _ m) => .refused m
  | some r => .good r

/-- What becomes of a part in `chat_part`: kept, refused by the callback, or no
memory for it. -/
inductive PartFate where
  | kept | refused | noMemory
  deriving DecidableEq

/-- How `geistd_chat_send` ends. -/
inductive SendEnd where
  | done (st : ChatStats)
  | client
  | refused (status msg : CStr)
  | lost
  deriving DecidableEq

/-- The read loop of `geistd_chat_send`, with `chat_part` as its callback: the
parts delivered, and the end. A good frame that is no part counts as an empty
one. -/
def readAnswer (part : Nat → PartFate) :
    Nat → List Reply → List (Bool × CStr) → List (Bool × CStr) × SendEnd
  | _, [], acc => (acc, .lost)
  | n, r :: rest, acc =>
      match r with
      | .error m => (acc, .refused [] m)
      | .failed s m => (acc, .refused s m)
      | .finished st _ => (acc, .done st)
      | r =>
          let p : Bool × CStr := match r with
            | .part thinking text => (thinking, text)
            | _ => (false, [])
          match part n with
          | .kept => readAnswer part (n + 1) rest (acc ++ [p])
          | .refused => (acc ++ [p], .client)
          | .noMemory => (acc, .client)

/-- `sink.answer`: the answer text as the client sees it. -/
def answerText (parts : List (Bool × CStr)) : CStr :=
  parts.flatMap fun p => if p.1 then [] else p.2

/-! ## app_daemon_chat -/

structure ChatArgs where
  path : CStr
  messages : List Msg
  max : Nat
  temperature : Double
  topP : Double
  reasoning : Option CStr

/-- The requests of a call, in order. -/
inductive Did where
  | info | chatClose | chatOpen | chatRewind (keep : Nat) | chatSend (ms : List Msg)
  deriving DecidableEq

/-- `stats->stage`. -/
inductive Stage where
  | connect | opening | prefill | generate
  deriving DecidableEq

/-- The counters of `app_run_stats`, without the times. -/
structure RunStats where
  stage : Stage := .connect
  promptTokens : Nat := 0
  reused : Nat := 0
  maxTokens : Nat := 0
  limited : Bool := false
  tokens : Nat := 0

inductive Errno where
  | canceled | timedOut | other
  deriving DecidableEq

/-- The client calls of one `app_daemon_chat`, by the attempt they belong to. -/
inductive Rpc where
  | info | chatClose (attempt : Nat) | chatOpen (attempt : Nat)
  | chatRewind (attempt : Nat) | chatSend (attempt : Nat)

/-- What one `app_daemon_chat` meets: whether its first allocations succeed,
the fate of each client call and of each part, the allocations of `held_push`,
and `errno` at the end. -/
structure CallEnv (P : Platform) where
  started : Bool := true
  fate : Rpc → Fate P
  part : Nat → PartFate := fun _ => .kept
  alloc : Nat → Bool := fun _ => true
  errno : Errno := .other

/-- What is carried through a call: the world, the requests made, the parts
delivered (the sink), the counters, and the conversation that the last send was
answered from. -/
structure Run (P : Platform) where
  w : World P
  did : List Did := []
  parts : List (Bool × CStr) := []
  stats : RunStats := {}
  base : Option (List Turn) := none

/-- What a call leaves. -/
structure Outcome where
  rc : Nat
  error : CStr
  did : List Did
  parts : List (Bool × CStr)
  stats : RunStats
  base : Option (List Turn)

def noContact : CStr := lit "Could not contact the model service. Reload the model."

/-- The code and the text behind `cleanup`. -/
def cleanup (rc : Nat) (error : CStr) (stage : Stage) (errno : Errno) : Nat × CStr :=
  let (rc, error) :=
    if rc = 502 then
      match errno with
      | .canceled => (499, error)
      | .timedOut =>
          (504, match stage with
            | .prefill => lit ("Input processing timed out after 10 minutes. " ++
                "Shorten the conversation or select GPU.")
            | .generate => lit ("The model stopped responding while generating. " ++
                "Try again or select GPU.")
            | _ => noContact)
      | .other =>
          (502, match stage with
            | .prefill => lit ("Model execution failed while processing the input. " ++
                "Try a shorter conversation or select GPU.")
            | .generate => lit ("Model execution failed while generating. " ++
                "Reload the model or select another processor.")
            | _ => noContact)
    else (rc, error)
  (rc, if rc = 499 then lit "Generation cancelled." else error)

/-- End the call with `rc`. -/
def Run.finish (r : Run P) (env : CallEnv P) (rc : Nat) (error : CStr) :
    World P × Outcome :=
  let (rc, error) := cleanup rc error r.stats.stage env.errno
  (r.w, ⟨rc, error, r.did, r.parts, r.stats, r.base⟩)

/-- `format`. -/
def formatOf (reasoning : Option CStr) : CStr :=
  if reasoning = some (lit "think_tags") then lit "think_tags" else lit "none"

/-- The held chat is the daemon's at this path, with these sampling options. -/
def fits (h : Held) (a : ChatArgs) : Bool :=
  h.id.isSome && decide (h.path = a.path) && h.temperature.feq a.temperature &&
    h.topP.feq a.topP && decide (h.reasoning = formatOf a.reasoning)

/-- Push turns one after the other; `k` numbers the allocations. -/
def heldPushAll (alloc : Nat → Bool) : Nat → Held → List Msg → Held
  | _, h, [] => h
  | k, h, m :: ms => heldPushAll alloc (k + 1) (heldPush (alloc k) h m) ms

/-- A chat of this daemon that does not fit is closed; the answer is not looked
at. -/
def closeHeld (a : ChatArgs) (env : CallEnv P) (k : Nat) (r : Run P) : Run P :=
  match r.w.held.id with
  | some id =>
      if r.w.held.path = a.path then
        { r with
          w := (rpc r.w a.path (env.fate (.chatClose k)) (closeFrame id)).1
          did := r.did ++ [Did.chatClose] }
      else r
  | none => r

/-- Close what does not fit and open a chat that does; `none` when the open
fails. -/
def openChat (a : ChatArgs) (env : CallEnv P) (k : Nat) (r : Run P) :
    Run P × Option CStr :=
  let r := closeHeld a env k r
  let w := { r.w with held := { heldKeep r.w.held 0 with id := none } }
  let (w, heard) := rpc w a.path (env.fate (.chatOpen k))
    (openFrame P a.temperature a.topP (formatOf a.reasoning))
  let r := { r with w := w, did := r.did ++ [Did.chatOpen] }
  match heard.answer with
  | .good (.chat _ id) =>
      if id.length = 16 then
        let held : Held :=
          { id := some id, path := a.path, temperature := a.temperature, topP := a.topP,
            reasoning := formatOf a.reasoning }
        ({ r with w := { w with held := held } }, some id)
      else (r, none)
  | _ => (r, none)

/-- How one attempt ends: with a code, or by trying once more because the daemon
does not know the chat. -/
inductive AttemptEnd where
  | done (rc : Nat) (error : CStr)
  | again

/-- `held.id[0] = 0`. -/
def forget (r : Run P) : Run P :=
  { r with w := { r.w with held := { r.w.held with id := none } } }

/-- The request's messages and the answer are what the chat holds now. -/
def remember (env : CallEnv P) (rest : List Msg) (r : Run P) : Run P :=
  { r with
    w := { r.w with
      held := heldPushAll env.alloc 0 r.w.held
        (rest ++ [⟨lit "assistant", answerText r.parts⟩]) } }

/-- What the stats of a finished answer say. -/
def chatStats (a : ChatArgs) (capacity : Nat) (st : ChatStats) (s : RunStats) : RunStats :=
  let prompt := (st.contextTokens + (2 ^ 64 - st.outputTokens)) % 2 ^ 64
  let room := if prompt + 1 < capacity then capacity - prompt - 1 else 0
  { s with
    promptTokens := prompt
    reused := prompt - st.inputTokens
    maxTokens := if 0 < a.max ∧ a.max < room then a.max else room
    limited := decide (st.finish ≠ lit "stop")
    tokens := st.outputTokens }

/-- Send the new messages and read the answer. -/
def sendRest (a : ChatArgs) (env : CallEnv P) (capacity k : Nat) (id : CStr) (keep : Nat)
    (r : Run P) : Run P × AttemptEnd :=
  let rest := a.messages.drop keep
  let bytes := (rest.map fun m => m.content.length).sum
  let stats := { r.stats with promptTokens := bytes / 4 + 1, stage := .prefill }
  let (w, heard) := rpc r.w a.path (env.fate (.chatSend k)) (sendFrame id a.max rest)
  let (parts, ending) := readAnswer env.part r.parts.length heard.frames r.parts
  let stage := if parts.length > r.parts.length ∨ ending = .client then .generate else .prefill
  let r : Run P :=
    { w := w, did := r.did ++ [Did.chatSend rest], parts := parts
      stats := { stats with stage := stage }, base := heard.asked.getLast? }
  match ending with
  | .refused status msg =>
      if strstr msg (lit "unknown chat") then (forget r, .again)
      else if status = lit "context" then
        (r, .done 400
          (lit "The prompt does not fit this model's context. Try a shorter text."))
      else (r, .done 502 noContact)
  | .lost => (r, .done 502 noContact)
  | .client => (remember env rest r, .done 499 noContact)
  | .done st =>
      let r := remember env rest r
      if st.finish = lit "client" then (r, .done 499 noContact)
      else if st.finish = lit "stop" ∨ st.finish = lit "length" ∨ st.finish = lit "context" then
        ({ r with stats := chatStats a capacity st r.stats }, .done 0 noContact)
      else (r, .done 502 noContact)

/-- Rewind the held chat to the common start, if it holds more than that. -/
def rewindTo (a : ChatArgs) (env : CallEnv P) (k : Nat) (id : CStr) (keep : Nat)
    (r : Run P) : Run P × Answer :=
  if keep < r.w.held.turns.length then
    let (w, heard) := rpc r.w a.path (env.fate (.chatRewind k)) (rewindFrame id keep)
    ({ r with w := w, did := r.did ++ [Did.chatRewind keep] }, heard.answer)
  else (r, .good .ok)

/-- One round of the loop, once a chat is held. -/
def attemptHeld (a : ChatArgs) (env : CallEnv P) (capacity k : Nat) (id : CStr)
    (r : Run P) : Run P × AttemptEnd :=
  let keep := agree sameMsg r.w.held.turns (a.messages.take (a.messages.length - 1))
  match rewindTo a env k id keep r with
  | (r, .refused msg) =>
      if strstr msg (lit "unknown chat") then (forget r, .again) else (r, .done 502 noContact)
  | (r, .lost) => (r, .done 502 noContact)
  | (r, .good _) =>
      sendRest a env capacity k id keep { r with w := { r.w with held := heldKeep r.w.held keep } }

/-- One round of the loop. -/
def attempt (a : ChatArgs) (env : CallEnv P) (capacity k : Nat) (r : Run P) :
    Run P × AttemptEnd :=
  let (r, id) := if fits r.w.held a then (r, r.w.held.id) else openChat a env k r
  match id with
  | none => (r, .done 502 noContact)
  | some id => attemptHeld a env capacity k id r

/-- The loop: the rounds still to go. -/
def attempts (a : ChatArgs) (env : CallEnv P) (capacity : Nat) :
    List Nat → Run P → World P × Outcome
  | [], r => r.finish env 502 noContact
  | k :: ks, r =>
      match attempt a env capacity k r with
      | (r, .done rc error) => r.finish env rc error
      | (r, .again) => attempts a env capacity ks r

/-- `app_daemon_chat`. -/
def appDaemonChat (w : World P) (a : ChatArgs) (env : CallEnv P) : World P × Outcome :=
  let count := a.messages.length
  if env.started = false ∨ 108 ≤ a.path.length ∨ count = 0 ∨ count > APP_CHAT_MESSAGES then
    ({ w := w : Run P }).finish env 502 noContact
  else
    let (w, heard) := rpc w a.path (env.fate .info) infoFrame
    let r : Run P := { w := w, did := [Did.info] }
    match heard.answer with
    | .good (.info capacity _ _ _ _ chatApi) =>
        if chatApi = false then
          r.finish env 400 (lit "This model's chat format is not supported.")
        else if capacity = 0 ∨ capacity > 4096 ∨ a.max > 4095 then r.finish env 502 noContact
        else attempts a env capacity [0, 1] { r with stats := { r.stats with stage := .opening } }
    | _ => r.finish env 502 noContact

/-! ## The app over time -/

/-- The codes after which `observation_end` restarts the daemon. -/
def Restarts (rc : Nat) : Prop := rc = 498 ∨ rc = 499 ∨ rc = 502 ∨ rc = 504

instance (rc : Nat) : Decidable (Restarts rc) := by unfold Restarts; infer_instance

/-- What happens in the app: daemon-side events, and calls. After a code that
restarts, `after` is the daemon that comes up, if one does. -/
inductive AppAct (P : Platform) where
  | event (e : DaemonEvent P)
  | chat (a : ChatArgs) (env : CallEnv P) (after : Option (CStr × Daemon P))

/-- `observation_end` behind a call: the daemon is stopped, and one may be
started at a path of its own. -/
def observationEnd (w : World P) (rc : Nat) (after : Option (CStr × Daemon P)) : World P :=
  if Restarts rc then
    match after with
    | some (path, d) => applyEvent (applyEvent w .stop) (.restart path d)
    | none => applyEvent w .stop
  else w

def World.step (w : World P) : AppAct P → Option (World P)
  | .event e => some (applyEvent w e)
  | .chat a env after =>
      let (w', out) := appDaemonChat w a env
      some (observationEnd w' out.rc after)

/-- The runs of the app: it starts without a daemon and without a chat. -/
def appMachine (P : Platform) : Machine (World P) (AppAct P) where
  init w := w.daemon = none ∧ w.held.id = none
  step := World.step

end GeistServe.App
