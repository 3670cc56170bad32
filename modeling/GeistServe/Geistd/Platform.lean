import GeistServe.Geistd.Wire

/-!
# What geistd is built on

`libgeist` (the engine) and geist-runtime are not in the tree, so their calls
are parameters of the model, gathered in a `Platform`. `geistd` sees an engine
session and a runtime chat only through these calls; what it relies on is
stated next to them as `LawfulEngine` and `LawfulRuntime`, in terms of two
things a caller can observe: the tokens a session's KV cache holds and the
messages a chat holds.

A call that can fail returns the state it leaves with its answer. Which
token a decode returns, whether a prefill fails, what an answer says: all of
that is the platform's choice, and no result below depends on it.
-/

namespace GeistServe.Geistd

/-! ## The engine -/

/-- The fields of `geist_session_opts` that geistd sets. -/
structure SessOpts where
  maxSeqLen : Nat
  temperature : Double := .fin 0
  topP : Double := .fin 0
  topK : Double := .fin 0
  seed : Double := .fin 0

/-- The calls of `geist.h` that geistd makes. -/
structure Engine where
  Model : Type
  Sess : Type
  create : Model → SessOpts → Model × Option Sess
  createError : Model → CStr
  prefillTokens : Sess → List Int → Bool × Sess
  decodeStep : Sess → Option Int × Sess
  reset : Sess → Bool × Sess
  pinPrefix : Sess → Nat → List Int → Bool × Sess
  errmsg : Sess → CStr
  tokenize : Sess → CStr → Option (List Int)
  tokenToStr : Sess → Int → Option CStr
  peekLogits : Sess → Nat
  tokenByText : Model → CStr → Int
  /-- The tokens in the session's KV cache, in order. -/
  kv : Sess → List Int
  /-- The prefix that a reset keeps. -/
  pin : Sess → List Int

/-- What geistd relies on: a successful call appends exactly what it was
given or returned, a failed decode or pin changes nothing, a reset succeeds
and truncates to the pin. A failed prefill may leave anything in the cache,
as long as it leaves the pin. -/
class LawfulEngine (E : Engine) : Prop where
  create_new : ∀ m o m' s, E.create m o = (m', some s) → E.kv s = [] ∧ E.pin s = []
  prefill_ok : ∀ s ts s', E.prefillTokens s ts = (true, s') →
    E.kv s' = E.kv s ++ ts ∧ E.pin s' = E.pin s
  prefill_fail : ∀ s ts s', E.prefillTokens s ts = (false, s') → E.pin s' = E.pin s
  decode_ok : ∀ s t s', E.decodeStep s = (some t, s') →
    E.kv s' = E.kv s ++ [t] ∧ E.pin s' = E.pin s
  decode_fail : ∀ s s', E.decodeStep s = (none, s') → E.kv s' = E.kv s ∧ E.pin s' = E.pin s
  reset_pin : ∀ s, (E.reset s).1 = true ∧ E.kv (E.reset s).2 = E.pin s ∧
    E.pin (E.reset s).2 = E.pin s
  pin_ok : ∀ s n ts s', E.pinPrefix s n ts = (true, s') →
    E.kv s' = (E.kv s).take n ∧ E.pin s' = (E.kv s).take n
  pin_fail : ∀ s n ts s', E.pinPrefix s n ts = (false, s') →
    E.kv s' = E.kv s ∧ E.pin s' = E.pin s

/-! ## The runtime -/

/-- `geistr_chat_opts`, as `chat_open` fills it. -/
structure ChatOpts where
  temperature : Double
  topP : Double
  thinking : Bool
  thinkTags : Bool
  dropOldest : Bool
  stop : List CStr

/-- A `geistr_status`, as far as geistd tells statuses apart. -/
inductive Status where
  | ok | context | invalid | cancelled | other
  deriving DecidableEq

/-- What `geistr_chat_next` answers: a piece of the answer, its end, that it
was cancelled, or an error. -/
inductive Next where
  | piece (thinking : Bool) (text : CStr)
  | fin
  | cancelled
  | failed
  deriving DecidableEq

/-- The calls of `geistr.h` that geistd makes. -/
structure Runtime where
  Model : Type
  Chat : Type
  chatOpen : Model → ChatOpts → Model × Option Chat
  statusText : Model → CStr
  limit : Chat → Nat → Status × Chat
  send : Chat → List Msg → Status × Chat
  next : Chat → Next × Chat
  cancel : Chat → Chat
  rewind : Chat → Nat → Option Chat
  stats : Chat → ChatStats
  length : Chat → Nat
  errorText : Chat → CStr
  /-- How many more pieces the answer in progress can have. -/
  left : Chat → Nat
  /-- The chat was opened to drop its oldest messages when it overflows. -/
  drops : Chat → Bool
  /-- The messages the chat holds; while it answers, without the answer. -/
  conv : Chat → List Turn
  /-- The answer text of the answer in progress so far. -/
  said : Chat → CStr

/-- What geistd and its clients rely on, for a chat that refuses to overflow:
`rewind(k)` keeps the first `k` messages, a send appends the request's messages
and then one assistant message with the streamed answer text, a send refused
for the context changes nothing. The runtime's own error texts are not geistd's
"unknown chat". -/
class LawfulRuntime (R : Runtime) : Prop where
  open_new : ∀ m o m' c, R.chatOpen m o = (m', some c) →
    R.conv c = [] ∧ R.drops c = o.dropOldest
  limit_conv : ∀ c n, R.conv (R.limit c n).2 = R.conv c ∧
    R.drops (R.limit c n).2 = R.drops c
  send_ok : ∀ c ms c', R.send c ms = (.ok, c') → R.drops c = false →
    R.conv c' = R.conv c ++ ms.map Msg.turn ∧ R.said c' = [] ∧ R.drops c' = false
  send_context : ∀ c ms c', R.send c ms = (.context, c') → R.drops c = false →
    R.conv c' = R.conv c ∧ R.drops c' = false
  next_piece : ∀ c th t c', R.next c = (.piece th t, c') →
    R.conv c' = R.conv c ∧ R.said c' = (if th then R.said c else R.said c ++ t) ∧
      R.left c' < R.left c ∧ R.drops c' = R.drops c
  next_end : ∀ c r c', R.next c = (r, c') → r = .fin ∨ r = .cancelled →
    R.conv c' = R.conv c ++ [⟨.assistant, R.said c⟩] ∧ R.drops c' = R.drops c
  rewind_conv : ∀ c k c', R.rewind c k = some c' →
    R.conv c' = (R.conv c).take k ∧ R.drops c' = R.drops c
  error_text : ∀ c, strstr (R.errorText c) (lit "unknown chat") = false
  status_text : ∀ m, strstr (R.statusText m) (lit "unknown chat") = false

/-! ## Both, with the target's conversions -/

/-- What geistd is linked against and compiled for. `sizeOf` and `int32Of` are
what the target leaves when a number does not fit the integer type; `printG` is
the number that a reader gets of what `%g` prints, `none` where that is no JSON
(`inf`). -/
structure Platform where
  E : Engine
  R : Runtime
  sizeOf : Double → Nat
  int32Of : Double → Int
  printG : Double → Option JVal

/-- The cast `(size_t) v`. -/
def Platform.castSize (P : Platform) (v : Double) : Nat := v.toSize.getD (P.sizeOf v)

/-- The cast `(int32_t) v`. -/
def Platform.castInt32 (P : Platform) (v : Double) : Int := v.toInt32.getD (P.int32Of v)

end GeistServe.Geistd
