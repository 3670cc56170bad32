import GeistServe.Lib.Machine
import GeistServe.Geistd.Chat

/-!
# The daemon: dispatch of one frame

`handle` is the whole of what a frame can do: the hello, the gate behind it,
and one branch for each op. What comes from outside of the frame (the clock,
the random id) is an `Env`. A session op runs through `onSess` and a chat op
through `onChat`, which hold what those ops share: the lookup, the answer when
there is nothing to find, the slot written back.
-/

namespace GeistServe.Geistd

open GeistServe.Lib

/-- What the operating system answers while a frame is handled: the time, the
next random id, and whether `malloc` fails. -/
structure Env where
  now : Nat
  newId : CStr
  oom : Bool := false

/-- `struct daemon`. A slot of a table is `none` when it is not live. -/
structure Daemon (P : Platform) where
  mo : P.E.Model
  eos : Int
  eot : List Int
  rt : Option P.R.Model
  chats : List (Option (Chat P.R))
  vocab : Nat
  sess : List (Option (Sess P.E))
  idleS : Nat
  token : Option CStr
  needHello : Bool

variable {P : Platform}

namespace Daemon

/-- Answer with one frame. -/
def say (c : Conn) (dr : Daemon P × Reply) : Daemon P × Conn × Bool :=
  let (c', ok) := reply c dr.2
  (dr.1, c', ok)

/-- Run an op on the found session. -/
def onSess (d : Daemon P) (i : Option Nat) (miss : String)
    (f : Sess P.E → Sess P.E × Reply) : Daemon P × Reply :=
  match i.bind fun i => (slot d.sess i).map fun x => (i, x) with
  | none => (d, .error (lit miss))
  | some (i, x) =>
      let (x', r) := f x
      ({ d with sess := d.sess.set i (some x') }, r)

/-- `sess_find`, with the new time of use. -/
def findSess (d : Daemon P) (env : Env) (id : Option CStr) : Daemon P × Option Nat :=
  match sessFind d.sess id with
  | none => (d, none)
  | some i =>
      ({ d with sess := d.sess.modify i (Option.map fun x => { x with used := env.now }) },
        some i)

/-- `chat_find`, with the new time of use. -/
def findChat (d : Daemon P) (env : Env) (id : Option CStr) : Daemon P × Option Nat :=
  match chatFind d.chats id with
  | none => (d, none)
  | some i =>
      ({ d with chats := d.chats.modify i (Option.map fun x => { x with used := env.now }) },
        some i)

/-! ## Ops on the whole daemon -/

/-- `op_info`. -/
def opInfo (d : Daemon P) : Reply :=
  .info CTX_CAP d.vocab (d.sess.countP Option.isSome) d.sess.length d.chats.length
    d.rt.isSome

/-- The sampler options that an `open` asks for, and whether a field has the
wrong type. -/
def sessOptions (j : Json) : SessOpts × Bool :=
  let t := jsonClamp (jsonGet j "temperature") (.fin 0) (.fin 0) (.fin 2)
  let p := jsonClamp (jsonGet j "top_p") (.fin 1) (.fin (1 / 100)) (.fin 1)
  let k := jsonClamp (jsonGet j "top_k") (.fin 0) (.fin 0) (.fin 1000)
  let s := jsonClamp (jsonGet j "seed") (.fin 0) (.fin 0) (.fin (2 ^ 53))
  (⟨CTX_CAP, t.1, p.1, k.1, s.1⟩, t.2 || p.2 || k.2 || s.2)

/-- `op_open`: idle sessions go, then a free slot or the least recently used
one is taken. A refused create leaves that slot empty. -/
def opOpen (d : Daemon P) (env : Env) (j : Json) : Daemon P × Reply :=
  let (o, bad) := sessOptions j
  if bad then (d, .error (lit "open: a sampler field has the wrong type"))
  else
    let sess := sessEvictIdle env.now d.idleS d.sess
    let i := slotFor Sess.used sess
    match P.E.create d.mo o with
    | (mo, none) =>
        ({ d with mo := mo, sess := sess.set i none },
          .error ((lit "open: " ++ P.E.createError mo).take 299))
    | (mo, some s) =>
        if env.oom then
          ({ d with mo := mo, sess := sess.set i none }, .error (lit "open: out of memory"))
        else
          ({ d with
              mo := mo
              sess := sess.set i (some { id := env.newId, s := s, used := env.now }) },
            .session env.newId)

/-- `op_tokenize`: any live session tokenizes, a throwaway one if there is
none. -/
def opTokenize (d : Daemon P) (j : Json) : Daemon P × Reply :=
  match jsonStrdup (jsonGet j "text") with
  | none => (d, .error (lit "tokenize: text must be a string"))
  | some text =>
      let answer (s : P.E.Sess) : Reply :=
        match if text.length ≤ 32 * 1024 then P.E.tokenize s text else none with
        | none => .error (lit "tokenize: text too long for the context")
        | some ids => .tokens ids
      match d.sess.findSome? id with
      | some x => (d, answer x.s)
      | none =>
          match P.E.create d.mo { maxSeqLen := 16 } with
          | (mo, none) => ({ d with mo := mo }, .error (lit "tokenize: no session"))
          | (mo, some s) => ({ d with mo := mo }, answer s)

/-- `token_id`. -/
def opTokenId (d : Daemon P) (j : Json) : Reply :=
  match jsonStrdup (jsonGet j "text") with
  | none => .error (lit "token_id: text required")
  | some text => .tokenId (P.E.tokenByText d.mo text)

/-- `op_peek`, without the numbers of the distribution. -/
def opPeek (d : Daemon P) (i : Option Nat) : Daemon P × Reply :=
  match i.bind (slot d.sess) with
  | none => (d, .error (lit "peek: unknown session"))
  | some x =>
      let n := P.E.peekLogits x.s
      if n = 0 then (d, .error (lit "peek: no pending logits (prefill first)"))
      else ({ d with vocab := n }, .peeked n)

/-- `close`. -/
def opClose (d : Daemon P) (i : Option Nat) : Daemon P × Reply :=
  match i with
  | none => (d, .error (lit "close: unknown session"))
  | some i => ({ d with sess := d.sess.set i none }, .ok)

/-- What a `generate` request sets. -/
def genStops (d : Daemon P) (j : Json) : Stops where
  eos := d.eos
  eot := d.eot
  ids := match jsonGet j "stop_ids" with
    | some (.arr xs) => (xs.take 16).map fun v => P.castInt32 (jsonNum (some v) (.fin (-1)))
    | _ => []
  strings := strArray 8 (jsonGet j "stop_strings")

/-- `generate`. -/
def generate (d : Daemon P) (i : Option Nat) (j : Json) (c : Conn) :
    Daemon P × Conn × Bool :=
  match i.bind fun i => (slot d.sess i).map fun x => (i, x) with
  | none => say c (d, .error (lit "generate: unknown session"))
  | some (i, x) =>
      let max := P.castSize (jsonClamp (jsonGet j "max") (.fin 256) (.fin 1) (.fin CTX_CAP)).1
      match opGenerate (d.genStops j) max x c with
      | (x', c', ok) => ({ d with sess := d.sess.set i (some x') }, c', ok)

/-! ## Chat ops -/

/-- The ops whose name starts with `chat_`. -/
def chatOp (d : Daemon P) (env : Env) (op : CStr) (j : Json) (body : Body) (c : Conn) :
    Daemon P × Conn × Bool :=
  match d.findChat env (jsonStrdup (jsonGet j "chat")) with
  | (d, i) =>
      let found := i.bind fun i => (slot d.chats i).map fun x => (i, x)
      if op = lit "chat_open" then
        match opChatOpen env.now env.newId d.rt d.chats j with
        | (rt, chats, r) => say c ({ d with rt := rt, chats := chats }, r)
      else if op = lit "chat_send" then
        match found with
        | none => say c (d, .error (lit "chat_send: unknown chat"))
        | some (i, x) =>
            match opChatSend P env.oom j body x.c c with
            | (y, c', ok) =>
                ({ d with chats := d.chats.set i (some { x with c := y }) }, c', ok)
      else match found with
        | none => say c (d, .error (lit "unknown chat"))
        | some (i, x) =>
            if op = lit "chat_rewind" then
              match opChatRewind P j x.c with
              | (y, r) =>
                  say c ({ d with chats := d.chats.set i (some { x with c := y }) }, r)
            else if op = lit "chat_close" then
              say c ({ d with chats := d.chats.set i none }, .ok)
            else say c (d, .error (lit "unknown op"))

end Daemon

/-! ## handle -/

open Daemon

/-- What a frame does once it has an op and is past the gate. -/
def dispatch (d : Daemon P) (env : Env) (op : CStr) (j : Json) (body : Body) (c : Conn) :
    Daemon P × Conn × Bool :=
  match d.findSess env (jsonStrdup (jsonGet j "session")) with
  | (d, x) =>
      if op = lit "info" then say c (d, d.opInfo)
      else if op = lit "token_id" then say c (d, d.opTokenId j)
      else if op = lit "unpin" then say c (d.onSess x "unpin: unknown session" opUnpin)
      else if op = lit "open" then say c (d.opOpen env j)
      else if op = lit "tokenize" then say c (d.opTokenize j)
      else if op = lit "str" then
        say c (d.onSess x "str: unknown session" fun x => (x, opStr x body))
      else if op = lit "prefill" then
        say c (d.onSess x "prefill: unknown session" fun x => opPrefill d.vocab x body)
      else if op = lit "peek" then say c (d.opPeek x)
      else if op = lit "step" then
        say c (d.onSess x "step: unknown session" (opStep d.eos d.eot))
      else if op = lit "generate" then d.generate x j c
      else if op = lit "reset" then say c (d.onSess x "reset: unknown session" opReset)
      else if op = lit "pin" then
        let n := P.castSize (jsonNum (jsonGet j "n") (.fin 0))
        say c (d.onSess x "pin: unknown session" fun x => opPin x n)
      else if (lit "chat_").isPrefixOf op then d.chatOp env op j body c
      else if op = lit "close" then say c (d.opClose x)
      else say c (d, .error (lit "unknown op"))

/-- Does a `hello` with this token open the connection? -/
def helloGood (token tok : Option CStr) : Bool :=
  match token with
  | none => true
  | some t => decide (tok = some t)

/-- `handle`: one frame on one connection. `false` ends the connection. -/
def handle (d : Daemon P) (env : Env) (f : Frame) (c : Conn) : Daemon P × Conn × Bool :=
  match f.hdr with
  | none => say c (d, .error (lit "header is not a JSON object"))
  | some j =>
      match jsonStrdup (jsonGet j "op") with
      | none => say c (d, .error (lit "missing op"))
      | some op =>
          if op = lit "hello" then
            let tok := jsonStrdup (jsonGet j "token")
            if helloGood d.token tok then
              say { c with authed := true, hellos := c.hellos ++ [tok] } (d, .ok)
            else (d, (replyError { c with authed := false } "hello: bad token").1, false)
          else if d.needHello && !c.authed then
            (d, (replyError c "hello first").1, false)
          else dispatch d env op j f.body { c with ran := c.ran ++ [op] }

/-! ## Connections -/

/-- The daemon with its open connections. -/
structure Server (P : Platform) where
  d : Daemon P
  conns : Nat → Option Conn

/-- What reaches the daemon: a new connection, or a frame on an open one. A
frame that `read_frame` refuses ends its connection. -/
inductive Event where
  | accept (k : Nat) (life : Option Nat)
  | frame (k : Nat) (f : Frame) (env : Env)
  | malformed (k : Nat)

/-- One turn of `serve_conn` or of the accept loop. -/
def Server.step (s : Server P) : Event → Option (Server P)
  | .accept k life =>
      some { s with conns := Function.update s.conns k (some { life := life }) }
  | .frame k f env =>
      (s.conns k).map fun c =>
        match handle s.d env f c with
        | (d, c', ok) =>
            ⟨d, Function.update s.conns k (if ok && !c'.broken then some c' else none)⟩
  | .malformed k =>
      (s.conns k).map fun _ => { s with conns := Function.update s.conns k none }

/-- The runs of a daemon from the states `init`. -/
def Server.machine (init : Server P → Prop) : Machine (Server P) Event where
  init := init
  step := Server.step

/-- A daemon that has just started to listen. -/
def Server.Started (s : Server P) : Prop :=
  (∀ i, slot s.d.sess i = none) ∧ (∀ i, slot s.d.chats i = none) ∧ ∀ k, s.conns k = none

end GeistServe.Geistd
