import GeistServe.Geistd.Session

/-!
# Chats and their ops

A chat is geist-runtime's: the daemon only keeps a table of them. `chat_send`
is the one op with a loop of its own, the stream of answer parts. Its fuel is
the runtime's bound on the pieces still to come; under `LawfulRuntime` that
bound is never what ends the loop (`streamParts_fuel`, `drain_fuel`).
-/

namespace GeistServe.Geistd

/-- A live chat. -/
structure Chat (R : Runtime) where
  id : CStr
  c : R.Chat
  used : Nat

variable {R : Runtime}

/-- The slot of the live chat with the id. -/
def chatFind (chats : List (Option (Chat R))) (id : Option CStr) : Option Nat :=
  match id with
  | none => none
  | some id => chats.findIdx? fun x => x.any fun x => decide (x.id = id)

/-- The strings of an array, at most `cap` of them. -/
def strArray (cap : Nat) : Option JVal → List CStr
  | some (.arr xs) => (xs.filterMap fun v => jsonStrdup (some v)).take cap
  | _ => []

/-! ## chat_open -/

/-- The options that a request asks for, and whether a sampler field has the
wrong type. -/
def chatOptions (j : Json) : ChatOpts × Bool :=
  let t := jsonClamp (jsonGet j "temperature") (.fin 0) (.fin 0) (.fin 2)
  let p := jsonClamp (jsonGet j "top_p") (.fin 1) (.fin 0) (.fin 1)
  ({ temperature := t.1
     topP := p.1
     thinking := jsonBool (jsonGet j "thinking") false
     thinkTags := decide (jsonStrdup (jsonGet j "reasoning") = some (lit "think_tags"))
     dropOldest := decide (jsonStrdup (jsonGet j "overflow") = some (lit "drop_oldest"))
     stop := strArray 8 (jsonGet j "stop") },
   t.2 || p.2)

/-- `op_chat_open`: a free slot, else the least recently used chat is closed
for it. A refused open leaves the slot empty. -/
def opChatOpen (now : Nat) (newId : CStr) (rt : Option R.Model)
    (chats : List (Option (Chat R))) (j : Json) :
    Option R.Model × List (Option (Chat R)) × Reply :=
  match rt with
  | none =>
      (none, chats, .error (lit "chat_open: chat format of this model is not supported"))
  | some m =>
      let (o, bad) := chatOptions j
      if bad then
        (rt, chats, .error (lit "chat_open: temperature/top_p must be numbers"))
      else
        let i := slotFor Chat.used chats
        match R.chatOpen m o with
        | (m', none) => (some m', chats.set i none, .error (R.statusText m'))
        | (m', some c) =>
            (some m', chats.set i (some ⟨newId, c, now⟩), .chat CTX_CAP newId)

/-! ## chat_send -/

/-- The messages of a `chat_send` body: each with its role and its content,
where these are strings. -/
def bodyMessages (body : Body) : Option (List (Option Msg)) :=
  match body.doc.bind fun j => jsonGet j "messages" with
  | some (.arr xs) =>
      if xs = [] then none
      else some (xs.map fun v =>
        match v with
        | .obj ms =>
            match jsonStrdup (jsonGet ms "role"), jsonStrdup (jsonGet ms "content") with
            | some role, some content => some ⟨role, content⟩
            | _, _ => none
        | _ => none)
  | _ => none

/-- The status word of a refused send. -/
def statusWord : Status → String
  | .context => "context"
  | .invalid => "invalid"
  | .cancelled => "cancelled"
  | _ => "error"

/-- Read the pieces of an answer to its end without sending them. -/
def drain : Nat → R.Chat → R.Chat
  | 0, x => x
  | fuel + 1, x =>
      match R.next x with
      | (.piece _ _, x') => drain fuel x'
      | (_, x') => x'

/-- The client went away: stop, keep what was said. -/
def abandon (x : R.Chat) : R.Chat :=
  drain (R.left (R.cancel x) + 1) (R.cancel x)

/-- The part loop of `op_chat_send`. -/
def streamParts : Nat → R.Chat → Conn → R.Chat × Conn × Bool
  | 0, x, c => (x, c, false)
  | fuel + 1, x, c =>
      match R.next x with
      | (.piece thinking text, x') =>
          match reply c (.part thinking text) with
          | (c', false) => (abandon x', c', false)
          | (c', true) => streamParts fuel x' c'
      | (.failed, x') =>
          let (c', ok) := reply c (.failed (lit "error") (R.errorText x'))
          (x', c', ok)
      | (_, x') =>
          let (c', ok) := reply c (.finished (R.stats x') (R.length x'))
          (x', c', ok)

/-- `op_chat_send` on a found chat. -/
def opChatSend (P : Platform) (oom : Bool) (j : Json) (body : Body) (x : P.R.Chat) (c : Conn) :
    P.R.Chat × Conn × Bool :=
  let (max, bad) := jsonClamp (jsonGet j "max") (.fin 0) (.fin 0) (.fin CTX_CAP)
  if oom then
    let (c', ok) := replyError c "chat_send: out of memory"
    (x, c', ok)
  else match bad, bodyMessages body with
  | false, some ms =>
      let refused (st : Status) (x : P.R.Chat) :=
        let (c', ok) := reply c (.failed (lit (statusWord st)) (P.R.errorText x))
        (x, c', ok)
      match P.R.limit x (P.castSize max) with
      | (.ok, x) =>
          match ms.mapM id with
          | none => refused .invalid x
          | some ms =>
              match P.R.send x ms with
              | (.ok, x) =>
                  let c := { c with asked := c.asked ++ [P.R.conv x] }
                  -- An empty answer part says that the input is processed.
                  match reply c (.part false []) with
                  | (c', false) => (abandon x, c', false)
                  | (c', true) => streamParts (P.R.left x + 1) x c'
              | (st, x) => refused st x
      | (st, x) => refused st x
  | _, _ =>
      let (c', ok) :=
        replyError c "chat_send: body \x7b\"messages\":[…]\x7d with at least one message"
      (x, c', ok)

/-! ## chat_rewind -/

/-- `chat_rewind`; an absent `keep` is 0. -/
def opChatRewind (P : Platform) (j : Json) (x : P.R.Chat) : P.R.Chat × Reply :=
  let (keep, bad) := jsonClamp (jsonGet j "keep") (.fin (-1)) (.fin 0) (.fin (10 ^ 9))
  let refusal := Reply.error (lit "chat_rewind: keep must be at most the chat's length")
  if bad then (x, refusal)
  else match P.R.rewind x (P.castSize keep) with
    | none => (x, refusal)
    | some x' => (x', .length (P.R.length x'))

end GeistServe.Geistd
