import GeistServe.App.Proxy
import GeistServe.Geistd.Framing
import GeistServe.Json.Number

/-!
# The chat request: `app_chat_parse`

A client's chat request is read straight from the tokens of its body: one pass over all tokens,
then the members one after the other. Every string that is kept is copied to the arena of the
request. Of the arena there is only what is left of it here, for the blocks are those of
`app_alloc` without an alignment; the first block, for the tokens, has its size as a parameter.

A request is refused with a status and a text; an arena that is full refuses it too.
-/

namespace GeistServe.Compat

open GeistServe.Lib GeistServe.Geistd GeistServe.Json

def APP_CHAT_MESSAGES : Nat := 64

/-- `struct chat_msg`. -/
structure Message where
  role : CStr
  content : CStr
  deriving DecidableEq

/-- The format of `float`. -/
def FLOAT : Format := ⟨24, -149, by decide⟩

/-- `struct app_chat`. -/
structure Chat where
  messages : List Message := []
  model : CStr := []
  maxTokens : Nat := 256
  temperature : ℚ := FLOAT.round (1 / 5)
  topP : ℚ := 1
  stream : Bool := false
  includeUsage : Bool := false

/-- The status and the text of a refusal. -/
structure Refusal where
  status : Nat
  error : CStr
  deriving DecidableEq

def invalidChat : CStr := lit "Invalid chat request. Expected a model and text messages."

def textOnly : CStr :=
  lit ("This endpoint supports text chat only. Tools, structured output and multimodal " ++
    "requests are not supported.")

def callHistory : CStr := lit "Tool-call history is not supported by this text-chat endpoint."

def textParts : CStr := lit "Only text content parts are supported."

def oneCompletion : CStr := lit "Only one completion per request is supported."

def badRequest : Refusal := ⟨400, invalidChat⟩

/-! ## The arena -/

/-- What is left of the arena. `refused` says that it has not given a block, and is kept for the
proofs. -/
structure Room where
  left : Nat
  refused : Bool := false

/-- `app_alloc` of `n` bytes. -/
def Room.alloc (a : Room) (n : Nat) : Bool × Room :=
  if n ≤ a.left then (true, { a with left := a.left - n }) else (false, { a with refused := true })

/-- What a part of the parser does: it goes on with a value, or the request is refused. -/
abbrev Step (α : Type) := ExceptT Refusal (StateM Room) α

/-- A part that needs nothing of the arena. -/
def liftExcept {α : Type} (r : Except Refusal α) : Step α := fun a => (r, a)

def grant (n : Nat) : Step Bool := fun a => ((.ok (a.alloc n).1), (a.alloc n).2)

/-! ## Tokens -/

/-- `literal`. -/
def literal (j : Doc) (t : Option Nat) (value : CStr) : Bool := decide (j.prim? t = some value)

/-- A digit and those behind it. -/
def skipDigits : Bytes → Option Bytes
  | [] => none
  | c :: s => if isDigit c then some (s.dropWhile isDigit) else none

/-- The digits in front of the point; only one if it is a zero. -/
def skipWhole : Bytes → Option Bytes
  | [] => none
  | c :: s =>
      if c = 48 then some s
      else if c < 49 ∨ 57 < c then none else some (s.dropWhile isDigit)

def skipFraction : Bytes → Option Bytes
  | [] => some []
  | c :: s => if c = 46 then skipDigits s else some (c :: s)

def skipExponent : Bytes → Option Bytes
  | [] => some []
  | c :: s =>
      if c = 101 ∨ c = 69 then skipDigits (if s.head? = some 43 ∨ s.head? = some 45 then s.tail else s)
      else some (c :: s)

/-- `valid_primitive`, of the bytes of a primitive. -/
def validPrimitive (s : Bytes) : Bool :=
  decide (s = lit "true" ∨ s = lit "false" ∨ s = lit "null") ||
    decide ((((skipWhole (if s.head? = some 45 then s.tail else s)).bind skipFraction).bind
      skipExponent) = some [])

/-- The scan of `string` for an escaped NUL. -/
def nulEscape : Bytes → Bool
  | [] => false
  | c :: s =>
      if c ≠ 92 then nulEscape s
      else match s with
        | [] => false
        | e :: s => (decide (e = 117) && decide (s.take 4 = lit "0000")) || nulEscape s

/-- `string`: a copy of the string in the arena. -/
def string (j : Doc) (t : Option Nat) : Step (Option CStr) := fun a =>
  match j.str? t with
  | none => (.ok none, a)
  | some u =>
      if nulEscape (j.text u) then (.ok none, a)
      else
        let decoded := (unescape (j.text u)).takeWhile (· ≠ 0)
        if (a.alloc (decoded.length + 1)).1 then (.ok (some decoded), (a.alloc (decoded.length + 1)).2)
        else (.ok none, (a.alloc (decoded.length + 1)).2)

/-- A string that has to be there. -/
def need (j : Doc) (t : Option Nat) : Step CStr := do
  let s ← string j t
  if s = none then throw badRequest else pure (s.getD [])

def isType (j : Doc) (t : Nat) (type : JType) : Bool := (j.tok[t]?).any (·.type == type)

def sizeOf (j : Doc) (t : Nat) : Nat := (j.tok[t]?).elim 0 (·.size)

/-- Where the text of a token ends, and how long it is. -/
def stopOf (j : Doc) (t : Nat) : Nat := ((j.tok[t]?).bind (·.stop)).getD 0

def spanOf (j : Doc) (t : Nat) : Nat := stopOf j t - (j.tok[t]?).elim 0 (·.start)

/-- The tokens right under an array, as the loops go over them: up to the first one that starts
behind its end. -/
def elements (j : Doc) (list : Nat) : List Nat :=
  children list (list + 1)
    ((j.tok.drop (list + 1)).takeWhile fun t => decide (t.start < stopOf j list))

/-- The first pass: the primitives are those of JSON, and no key of the object is there twice. -/
def scan (j : Doc) : List Bytes → List Tok → Bool
  | _, [] => true
  | seen, t :: rest =>
      if t.type = .primitive ∧ validPrimitive (j.text t) = false then false
      else if t.parent ≠ some 0 then scan j seen rest
      else if seen.contains (j.text t) then false
      else scan j (seen ++ [j.text t]) rest

/-! ## Members that are not supported -/

/-- The members, and whether an empty array is let through. -/
def unsupported : List (CStr × Bool) :=
  [(lit "tools", true), (lit "functions", true), (lit "tool_choice", false),
    (lit "function_call", false), (lit "response_format", false), (lit "audio", false),
    (lit "modalities", false), (lit "stop", false), (lit "logprobs", false),
    (lit "logit_bias", false)]

def refuseMember (j : Doc) (member : CStr × Bool) : Step Unit :=
  if (j.get 0 member.1).all fun i => member.2 && isType j i .array && decide (sizeOf j i = 0) then
    pure ()
  else if member.1 = lit "tool_choice" then do
    let choice ← string j (j.get 0 member.1)
    if choice = some (lit "none") then pure () else throw ⟨422, textOnly⟩
  else throw ⟨422, textOnly⟩

def refuseMembers (j : Doc) : List (CStr × Bool) → Step Unit
  | [] => pure ()
  | member :: rest => do
      refuseMember j member
      refuseMembers j rest

/-! ## Messages -/

/-- A part of a content, put behind the ones before. -/
def contentPart (j : Doc) (b : App.Buffer) (k : Nat) : Step App.Buffer := do
  let type ← string j (j.get k (lit "type"))
  let text ← string j (j.get k (lit "text"))
  if type = some (lit "text") ∧ text ≠ none then pure (b.put (text.getD []))
  else throw ⟨422, textParts⟩

def contentParts (j : Doc) : App.Buffer → List Nat → Step App.Buffer
  | b, [] => pure b
  | b, k :: rest => do
      let b ← contentPart j b k
      contentParts j b rest

/-- The content of a message: a string, or the texts of an array of parts. -/
def content (j : Doc) : Option Nat → Step CStr
  | none => throw badRequest
  | some t =>
      if isType j t .string then need j (some t)
      else if isType j t .array then do
        let given ← grant (spanOf j t + 1)
        if given then do
          let b ← contentParts j { cap := spanOf j t + 1 } (elements j t)
          if b.failed then throw ⟨503, invalidChat⟩ else pure b.data
        else throw ⟨503, invalidChat⟩
      else throw badRequest

def message (j : Doc) (i : Nat) : Step Message := do
  let role ← need j (j.get i (lit "role"))
  if role ≠ lit "user" ∧ role ≠ lit "assistant" ∧ role ≠ lit "system" then throw badRequest
  else if (j.get i (lit "tool_calls")).isSome ∨ (j.get i (lit "function_call")).isSome then
    throw ⟨422, callHistory⟩
  else do
    let content ← content j (j.get i (lit "content"))
    pure ⟨role, content⟩

def messages (j : Doc) : List Message → List Nat → Step (List Message)
  | ms, [] => pure ms
  | ms, i :: rest =>
      if isType j i .object = false ∨ ms.length = APP_CHAT_MESSAGES then throw badRequest
      else do
        let m ← message j i
        messages j (ms ++ [m]) rest

/-! ## Numbers -/

/-- The members with a number. -/
inductive Number where
  | maxTokens | maxCompletionTokens | temperature | topP | n

def Number.key : Number → CStr
  | .maxTokens => lit "max_tokens"
  | .maxCompletionTokens => lit "max_completion_tokens"
  | .temperature => lit "temperature"
  | .topP => lit "top_p"
  | .n => lit "n"

/-- The number is taken over, if it is one that the member may have. -/
def Number.set (c : Chat) (v : ℚ) : Number → Except Refusal Chat
  | .maxTokens | .maxCompletionTokens =>
      if v < 1 ∨ 4095 < v ∨ v ≠ v.floor.toNat then .error badRequest
      else .ok { c with maxTokens := v.floor.toNat }
  | .temperature =>
      if v < 0 ∨ 2 < v then .error badRequest else .ok { c with temperature := FLOAT.round v }
  | .topP => if v ≤ 0 ∨ 1 < v then .error badRequest else .ok { c with topP := FLOAT.round v }
  | .n => if v ≠ 1 then .error ⟨422, oneCompletion⟩ else .ok c

/-- A member with a number: it may be absent, and has to be finite. -/
def Number.read (j : Doc) (c : Chat) (number : Number) : Except Refusal Chat :=
  match j.get 0 number.key with
  | none => .ok c
  | some t =>
      match j.num (some t) .nan with
      | .fin v => number.set c v
      | _ => .error badRequest

def numbers (j : Doc) (c : Chat) : Except Refusal Chat :=
  [Number.maxTokens, .maxCompletionTokens, .temperature, .topP, .n].foldlM (Number.read j) c

/-- A member that is absent or `true` or `false`. -/
def flag (j : Doc) (t : Option Nat) : Except Refusal Bool :=
  if t.isSome ∧ literal j t (lit "true") = false ∧ literal j t (lit "false") = false then
    .error badRequest
  else .ok (j.bool t false)

/-- What is read behind the messages. -/
def options (j : Doc) (c : Chat) : Step Chat := do
  let c ← liftExcept (numbers j c)
  let stream ← liftExcept (flag j (j.get 0 (lit "stream")))
  if (j.get 0 (lit "stream_options")).any fun t => !isType j t .object then throw badRequest
  else do
    let usage ← liftExcept (flag j
      ((j.get 0 (lit "stream_options")).bind fun t => j.get t (lit "include_usage")))
    pure { c with stream := stream, includeUsage := usage }

/-! ## The whole request -/

/-- The members of a request whose tokens are there. -/
def chatOf (j : Doc) : Step Chat :=
  if scan j [] (j.tok.drop 1) = false then throw badRequest
  else do
    refuseMembers j unsupported
    let model ← string j (j.get 0 (lit "model"))
    match j.get 0 (lit "messages") with
    | none => throw badRequest
    | some t =>
        if model = none ∨ model = some [] ∨ isType j t .array = false ∨ sizeOf j t = 0 then
          throw badRequest
        else do
          let ms ← messages j [] (elements j t)
          if ms = [] then throw badRequest
          else options j { messages := ms, model := model.getD [] }

/-- `app_chat_parse`; `docBytes` is what `struct json` takes of the arena. -/
def appChatParse (docBytes : Nat) (body : Bytes) : Step Chat := do
  let given ← grant docBytes
  if given then
    match jsonParse (cstr body) with
    | none => throw badRequest
    | some j => chatOf j
  else throw ⟨503, invalidChat⟩

end GeistServe.Compat
