import GeistServe.Geistd.Handle
import GeistServe.Geistd.Logits

/-!
# The ops that take numbers, with every conversion and every index checked

A double that is converted to an integer type has to fit it, and an index has to
be inside of its array; C leaves everything else undefined. The other files of the
daemon leave it to the platform. Here the ops whose headers carry such numbers
are written a second time, with the answer `none` for the first conversion or
access that C does not define: `peek`, `step`, `generate`, `pin` and
`chat_rewind`. Everything that is not a number is as in `Session.lean` and
`Handle.lean`.
-/

namespace GeistServe.Geistd

variable {P : Platform}

/-- The pending logits of a session, as many as the engine says. -/
structure Pending (P : Platform) (α : Type) where
  of : P.E.Sess → List α
  length_of : ∀ s, (of s).length = P.E.peekLogits s

/-- An access to `n` entries from `i` on, of an array with `cap` of them. -/
def within (cap i n : Nat) : Option Unit := if i + n ≤ cap then some () else none

/-- `hist_push`: the array has `CTX_CAP` entries. -/
def checkedPush {E : Engine} (x : Sess E) (ids : List Int) : Option (Sess E) :=
  if x.hist.length + ids.length > CTX_CAP then some x
  else (within CTX_CAP x.hist.length ids.length).map fun _ =>
    { x with hist := x.hist ++ ids }

section

variable {α : Type} [LT α] [LE α] [DecidableLT α] [DecidableLE α]

/-- The largest of the logits, as `logz` finds it: it reads the first one before
it looks how many there are. -/
def logzMax (lg : List α) : Option α :=
  lg.head?.map fun v => lg.tail.foldl (fun mx v => if mx < v then v else mx) v

/-- The candidates that a `topk` field asks for. -/
def checkedTop (k : Double) (lg : List α) : Option (Tops α) :=
  if Double.lt (.fin 0) k then
    k.toSize.bind fun k => (sbTopk k lg).bind fun top => (logzMax lg).map fun _ => top
  else some []

/-- The logits of the ids of a body; an id that is none has no logit. -/
def checkedIds (lg : List α) (ids : List Int) : Option (List (Option α)) :=
  if ids = [] then some []
  else (logzMax lg).bind fun _ =>
    ids.mapM fun id =>
      if 0 ≤ id ∧ id.toNat < lg.length then lg[id.toNat]?.map some else some none

/-- `op_peek`. -/
def checkedPeek (lg : Pending P α) (d : Daemon P) (i : Option Nat) (j : Json) (body : Body) :
    Option (Daemon P × Reply) :=
  match i.bind (slot d.sess) with
  | none => some (d, .error (lit "peek: unknown session"))
  | some x =>
      let n := (lg.of x.s).length
      if n = 0 then some (d, .error (lit "peek: no pending logits (prefill first)"))
      else (checkedTop (jsonNum (jsonGet j "topk") (.fin 0)) (lg.of x.s)).bind fun _ =>
        (checkedIds (lg.of x.s) (int32s body.bytes)).map fun _ =>
          ({ d with vocab := n }, .peeked n)

/-- `op_step`: the candidates are those of the logits that the step samples from,
if there are any. -/
def checkedStep (lg : Pending P α) (eos : Int) (eot : List Int) (j : Json) (x : Sess P.E) :
    Option (Sess P.E × Reply) :=
  if x.hist = [] then some (x, .error (lit "step: prefill first"))
  else if x.hist.length ≥ CTX_CAP - 1 then some (x, .error (lit "step: context full"))
  else
    let top := if (lg.of x.s).length = 0 then some []
      else checkedTop (jsonNum (jsonGet j "topk") (.fin 0)) (lg.of x.s)
    top.bind fun _ =>
      match P.E.decodeStep x.s with
      | (none, s) => some ({ x with s := s }, .error (lit "step: decode failed"))
      | (some t, s) => (checkedPush { x with s := s } [t]).map fun x' =>
          (x', .stepped t (modelIsStop eos eot t) x'.hist.length (P.E.tokenToStr s t))

end

/-! ## generate -/

/-- The stop ids of a request, `n` of them read so far into an array of 16. -/
def checkedStopIds : Nat → List JVal → Option (List Int)
  | _, [] => some []
  | n, v :: rest =>
      if n < 16 then
        (jsonNum (some v) (.fin (-1))).toInt32.bind fun t =>
          (within 16 n 1).bind fun _ => (checkedStopIds (n + 1) rest).map fun ts => t :: ts
      else some []

def checkedStops (d : Daemon P) (j : Json) : Option Stops :=
  let ids := match jsonGet j "stop_ids" with
    | some (.arr xs) => checkedStopIds 0 xs
    | _ => some []
  ids.map fun ids => ⟨d.eos, d.eot, ids, strArray 8 (jsonGet j "stop_strings")⟩

/-- The token loop. -/
def checkedGenLoop {E : Engine} (st : Stops) :
    Nat → Nat → CStr → Sess E → Conn → Option (Sess E × Conn × String × Nat)
  | 0, k, _, x, c => some (x, c, "max", k)
  | fuel + 1, k, tail, x, c =>
      if x.hist.length ≥ CTX_CAP - 1 then some (x, c, "context", k)
      else match E.decodeStep x.s with
        | (none, s) => some ({ x with s := s }, c, "error", k)
        | (some t, s) =>
            (checkedPush { x with s := s } [t]).bind fun x' =>
              let p := E.tokenToStr s t
              let tail' := (p.map (tailPush tail)).getD tail
              let stop := stopsAt st t p tail'
              match reply c (.token t stop p) with
              | (c', false) => some (x', c', "client", k)
              | (c', true) =>
                  if stop then some (x', c', "stop", k + 1)
                  else checkedGenLoop st fuel (k + 1) tail' x' c'

/-- `op_generate`. -/
def checkedGenerate (d : Daemon P) (i : Option Nat) (j : Json) (c : Conn) :
    Option (Daemon P × Conn × Bool) :=
  match i.bind fun i => (slot d.sess i).map fun x => (i, x) with
  | none => some (Daemon.say c (d, .error (lit "generate: unknown session")))
  | some (i, x) =>
      let answer (r : Sess P.E × Conn × Bool) : Daemon P × Conn × Bool :=
        ({ d with sess := d.sess.set i (some r.1) }, r.2)
      if x.hist = [] then
        some (answer (x, replyError c "generate: prefill first"))
      else
        (jsonClamp (jsonGet j "max") (.fin 256) (.fin 1) (.fin CTX_CAP)).1.toSize.bind
          fun max => (checkedStops d j).bind fun st =>
            (checkedGenLoop st max 0 [] x c).map fun r =>
              match r with
              | (x', c', reason, k) =>
                  answer (x', if c'.broken then (c', false)
                    else reply c' (.generated (lit reason) k x'.hist.length))

/-! ## pin, chat_rewind -/

/-- `pin`: the number is converted before anything else, and the engine reads that
many tokens of the history. -/
def checkedPin (d : Daemon P) (i : Option Nat) (j : Json) : Option (Daemon P × Reply) :=
  (jsonNum (jsonGet j "n") (.fin 0)).toSize.bind fun n =>
    match i.bind (slot d.sess) with
    | none => some (d, .error (lit "pin: unknown session"))
    | some x =>
        let reads := if x.pinned > 0 ∨ n = 0 ∨ n > x.hist.length then some ()
          else within x.hist.length 0 n
        reads.map fun _ => d.onSess i "pin: unknown session" fun x => opPin x n

/-- `chat_rewind`. -/
def checkedRewind (j : Json) (x : P.R.Chat) : Option (P.R.Chat × Reply) :=
  let (keep, bad) := jsonClamp (jsonGet j "keep") (.fin (-1)) (.fin 0) (.fin (10 ^ 9))
  let refusal := Reply.error (lit "chat_rewind: keep must be at most the chat's length")
  keep.toSize.map fun keep =>
    if bad then (x, refusal)
    else match P.R.rewind x keep with
      | none => (x, refusal)
      | some x' => (x', .length (P.R.length x'))

/-! ## Dispatch -/

/-- `dispatch`, with these five ops checked. -/
def checkedDispatch {α : Type} [LT α] [LE α] [DecidableLT α] [DecidableLE α]
    (lg : Pending P α) (d : Daemon P) (env : Env) (op : CStr) (j : Json) (body : Body)
    (c : Conn) : Option (Daemon P × Conn × Bool) :=
  match d.findSess env (jsonStrdup (jsonGet j "session")) with
  | (d', i) =>
      if op = lit "peek" then (checkedPeek lg d' i j body).map (Daemon.say c)
      else if op = lit "step" then
        match i.bind fun i => (slot d'.sess i).map fun x => (i, x) with
        | none => some (Daemon.say c (d', .error (lit "step: unknown session")))
        | some (i, x) => (checkedStep lg d'.eos d'.eot j x).map fun r =>
            Daemon.say c ({ d' with sess := d'.sess.set i (some r.1) }, r.2)
      else if op = lit "generate" then checkedGenerate d' i j c
      else if op = lit "pin" then (checkedPin d' i j).map (Daemon.say c)
      else if op = lit "chat_rewind" then
        match d'.findChat env (jsonStrdup (jsonGet j "chat")) with
        | (d'', k) =>
            match k.bind fun k => (slot d''.chats k).map fun x => (k, x) with
            | none => some (Daemon.say c (d'', .error (lit "unknown chat")))
            | some (k, x) => (checkedRewind j x.c).map fun r =>
                Daemon.say c
                  ({ d'' with chats := d''.chats.set k (some { x with c := r.1 }) }, r.2)
      else some (dispatch d env op j body c)

end GeistServe.Geistd
