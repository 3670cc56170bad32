import GeistServe.Lib.Agree
import GeistServe.Geistd.Platform

/-!
# Sessions and their ops

A session keeps two copies of one history: the tokens in the engine's KV
cache and `hist`, the daemon's own list of them. The ops of this file move
both. Each takes the session it works on and answers with the session it
leaves and the reply; which slot the session is in, and what is said when
there is none, is `Handle.lean`'s business.
-/

namespace GeistServe.Geistd

open GeistServe.Lib

/-- A live session. `hist` is the part of the token array below `n_hist`. -/
structure Sess (E : Engine) where
  id : CStr
  s : E.Sess
  hist : List Int := []
  pinned : Nat := 0
  used : Nat

/-! ## Slots -/

/-- The live entry of a slot. -/
def slot {α : Type} (slots : List (Option α)) (i : Nat) : Option α := slots[i]?.join

theorem slot_set {α : Type} (slots : List (Option α)) (i k : Nat) (v : Option α) :
    slot (slots.set i v) k = if i = k then (if i < slots.length then v else none)
      else slot slots k := by
  unfold slot
  rw [List.getElem?_set]
  split
  · split <;> simp
  · rfl

theorem slot_lt {α : Type} {slots : List (Option α)} {i : Nat} {x : α}
    (h : slot slots i = some x) : i < slots.length := by
  by_contra hlt
  rw [slot, List.getElem?_eq_none (by omega)] at h
  cases h

/-- Writing a live slot back changes that slot only. -/
theorem slot_set_live {α : Type} {slots : List (Option α)} {i : Nat} {x : α}
    (h : slot slots i = some x) (k : Nat) (v : Option α) :
    slot (slots.set i v) k = if i = k then v else slot slots k := by
  rw [slot_set, if_pos (slot_lt h)]

theorem slot_modify {α : Type} (slots : List (Option α)) (i k : Nat) (f : α → α) :
    slot (slots.modify i (Option.map f)) k =
      if i = k then (slot slots k).map f else slot slots k := by
  unfold slot
  rw [List.getElem?_modify]
  split <;> cases slots[k]? <;> rfl

theorem slot_map {α : Type} (slots : List (Option α)) (k : Nat) (f : Option α → Option α)
    (hf : f none = none) : slot (slots.map f) k = f (slot slots k) := by
  unfold slot
  rw [List.getElem?_map]
  cases slots[k]? with
  | none => exact hf.symm
  | some v => rfl

/-- The position of the smallest of the numbers read from `i` on, the first
of several; `best` is the smallest so far, at `at`. -/
def leastFrom : Nat → Nat → Nat → List Nat → Nat
  | _, pos, _, [] => pos
  | best, pos, i, u :: rest =>
      if u < best then leastFrom u i (i + 1) rest else leastFrom best pos (i + 1) rest

/-- The slot of the least recently used entry. -/
def lruSlot {α : Type} (used : α → Nat) (slots : List (Option α)) : Nat :=
  match slots.map fun x => (x.map used).getD 0 with
  | [] => 0
  | u :: rest => leastFrom u 0 1 rest

/-- A free slot, else the least recently used live one. -/
def slotFor {α : Type} (used : α → Nat) (slots : List (Option α)) : Nat :=
  (slots.findIdx? Option.isNone).getD (lruSlot used slots)

variable {E : Engine}

/-- Sessions idle for longer than `--idle` are freed. -/
def sessEvictIdle (now idle : Nat) (slots : List (Option (Sess E))) : List (Option (Sess E)) :=
  slots.map fun x => x.filter fun x => decide (now - x.used ≤ idle)

/-- The slot of the live session with the id. -/
def sessFind (slots : List (Option (Sess E))) (id : Option CStr) : Option Nat :=
  match id with
  | none => none
  | some id => slots.findIdx? fun x => x.any fun x => decide (x.id = id)

/-! ## History -/

def histPush (x : Sess E) (ids : List Int) : Sess E :=
  if x.hist.length + ids.length > CTX_CAP then x
  else { x with hist := x.hist ++ ids }

/-- The token ends the answer: EOS or an end-of-turn marker of the model. -/
def modelIsStop (eos : Int) (eot : List Int) (t : Int) : Bool :=
  decide (t = eos) || eot.contains t

/-! ## The ops -/

/-- `op_str`: the pieces of the given ids. -/
def opStr (x : Sess E) (body : Body) : Reply :=
  .pieces ((int32s body.bytes).map (E.tokenToStr x.s))

/-- The prefill proper: hand the tail to the engine, or fall back to the pin
when the engine fails. -/
def prefillTail (x : Sess E) (ids : List Int) (reused : Nat) : Sess E × Reply :=
  let tail := ids.drop reused
  if tail = [] then (x, .prefilled 0 reused x.hist.length)
  else match E.prefillTokens x.s tail with
    | (false, s) =>
        ({ x with s := (E.reset s).2, hist := x.hist.take x.pinned },
          .error ((lit "prefill: " ++ E.errmsg s).take 299))
    | (true, s) =>
        let x' := histPush { x with s := s } tail
        (x', .prefilled tail.length reused x'.hist.length)

/-- `op_prefill`: the request is the whole intended context. If the history is
a proper prefix of it, only the tail is prefilled; an equal request is a
no-op; otherwise the session goes back to its pin. -/
def opPrefill (vocab : Nat) (x : Sess E) (body : Body) : Sess E × Reply :=
  if body.bytes.length % 4 ≠ 0 then
    (x, .error (lit "prefill: body is not an int32 array"))
  else
    let ids := int32s body.bytes
    let n := ids.length
    if n = 0 then (x, .error (lit "prefill: no tokens"))
    else if n > CTX_CAP - 1 then (x, .error (lit "prefill: context overflow (4096)"))
    else if ids.any fun t => decide (t < 0) || decide ((vocab : Int) ≤ t) then
      (x, .error (lit "prefill: token id out of range"))
    else
      let common := agree (fun a b => decide (a = b)) x.hist ids
      if common = x.hist.length ∧ x.hist.length > 0 ∧ n > x.hist.length then
        prefillTail x ids x.hist.length
      else if common = n ∧ x.hist.length = n then
        (x, .prefilled 0 n n)
      else if x.pinned > 0 ∧ common < x.pinned then
        (x, .error (lit "prefill: request differs inside the pinned prefix"))
      else match E.reset x.s with
        | (false, s) => ({ x with s := s }, .error (lit "prefill: reset failed"))
        | (true, s) =>
            prefillTail { x with s := s, hist := x.hist.take x.pinned } ids x.pinned

/-- `op_step`: one token. -/
def opStep (eos : Int) (eot : List Int) (x : Sess E) : Sess E × Reply :=
  if x.hist = [] then (x, .error (lit "step: prefill first"))
  else if x.hist.length ≥ CTX_CAP - 1 then (x, .error (lit "step: context full"))
  else match E.decodeStep x.s with
    | (none, s) => ({ x with s := s }, .error (lit "step: decode failed"))
    | (some t, s) =>
        let x' := histPush { x with s := s } [t]
        (x', .stepped t (modelIsStop eos eot t) x'.hist.length (E.tokenToStr s t))

/-- The `reset` op: the engine keeps a pinned prefix. -/
def opReset (x : Sess E) : Sess E × Reply :=
  let x' := { x with s := (E.reset x.s).2, hist := x.hist.take x.pinned }
  (x', .reset x'.hist.length)

/-- The `pin` op: the first `n` history tokens become the pin. -/
def opPin (x : Sess E) (n : Nat) : Sess E × Reply :=
  if x.pinned > 0 then (x, .error (lit "pin: already pinned"))
  else if n = 0 ∨ n > x.hist.length then
    (x, .error (lit "pin: n must be 1..history length"))
  else match E.pinPrefix x.s n x.hist with
    | (false, s) => ({ x with s := s }, .error (lit "pin: unsupported by this architecture"))
    | (true, s) => ({ x with s := s, pinned := n, hist := x.hist.take n }, .pinned n)

/-- The `unpin` op. -/
def opUnpin (x : Sess E) : Sess E × Reply :=
  match E.pinPrefix x.s 0 x.hist with
  | (false, s) => ({ x with s := s }, .error (lit "unpin: unsupported"))
  | (true, s) => ({ x with s := s, pinned := 0, hist := [] }, .ok)

/-! ## generate -/

/-- The stop conditions of one `generate`. -/
structure Stops where
  eos : Int
  eot : List Int
  ids : List Int
  strings : List CStr

/-- The last 511 bytes of what was decoded, after one more piece. -/
def tailPush (tail p : CStr) : CStr :=
  if p.length ≥ 512 then p.drop (p.length - 511)
  else tail.drop (tail.length + p.length - 511) ++ p

/-- Does this token end the answer, given the decoded tail with its piece? -/
def stopsAt (st : Stops) (t : Int) (p : Option CStr) (tail : CStr) : Bool :=
  modelIsStop st.eos st.eot t || st.ids.contains t ||
    (p.isSome && st.strings.any (strstr tail))

/-- The token loop: `k` tokens so far, `fuel` more allowed. -/
def genLoop (st : Stops) : Nat → Nat → CStr → Sess E → Conn → Sess E × Conn × String × Nat
  | 0, k, _, x, c => (x, c, "max", k)
  | fuel + 1, k, tail, x, c =>
      if x.hist.length ≥ CTX_CAP - 1 then (x, c, "context", k)
      else match E.decodeStep x.s with
        | (none, s) => ({ x with s := s }, c, "error", k)
        | (some t, s) =>
            let x' := histPush { x with s := s } [t]
            let p := E.tokenToStr s t
            let tail' := (p.map (tailPush tail)).getD tail
            let stop := stopsAt st t p tail'
            match reply c (.token t stop p) with
            | (c', false) => (x', c', "client", k)
            | (c', true) =>
                if stop then (x', c', "stop", k + 1)
                else genLoop st fuel (k + 1) tail' x' c'

/-- `op_generate`: one frame per token, then a final frame. -/
def opGenerate (st : Stops) (max : Nat) (x : Sess E) (c : Conn) : Sess E × Conn × Bool :=
  if x.hist = [] then
    let (c, ok) := replyError c "generate: prefill first"
    (x, c, ok)
  else
    match genLoop st max 0 [] x c with
    | (x', c', reason, k) =>
        if c'.broken then (x', c', false)
        else
          let (c'', ok) := reply c' (.generated (lit reason) k x'.hist.length)
          (x', c'', ok)

end GeistServe.Geistd
