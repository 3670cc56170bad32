import Mathlib.Algebra.Group.Int.Defs
import Mathlib.Algebra.GroupWithZero.Nat
import Mathlib.Algebra.Group.Nat.Defs
import Mathlib.Data.List.Basic
import Mathlib.Data.Rat.Defs

/-!
# What travels: C strings, parsed headers, reply frames, one connection

`geistd` reads frames of a JSON header and a raw body and answers with
frames of its own. This file has the data on both sides of `handle`: a
header as `json.c`'s accessors see it after `json_parse`, a body, the
replies by meaning rather than by text, and a connection that may break
under a write.

Two conventions carry through the model. A C string is its bytes, without
the NUL. A number of a header is what `strtod` can answer, infinities and
NaN included, because a JSON primitive such as `1e999` or `-nan` passes the
parser.
-/

namespace GeistServe.Geistd

/-- A C string: the bytes before its NUL. -/
abbrev CStr := List UInt8

/-- A C string literal, in UTF-8. -/
def lit (s : String) : CStr := s.toList.flatMap String.utf8EncodeChar

/-- `strstr(hay, needle) != nullptr`. -/
def strstr : CStr → CStr → Bool
  | [], needle => needle.isEmpty
  | c :: hay, needle => needle.isPrefixOf (c :: hay) || strstr hay needle

theorem strstr_iff {hay needle : CStr} :
    strstr hay needle = true ↔ needle <:+: hay := by
  induction hay with
  | nil => simp [strstr]
  | cons c hay ih =>
      rw [strstr, Bool.or_eq_true, ih, List.isPrefixOf_iff_prefix,
        List.infix_cons_iff]

/-- The longest token history of a session is `CTX_CAP - 1`. -/
def CTX_CAP : Nat := 4096

/-! ## Numbers -/

/-- What `strtod` answers on a JSON primitive. -/
inductive Double where
  | fin (q : Rat)
  | inf (neg : Bool)
  | nan
  deriving DecidableEq

namespace Double

/-- `a < b` on doubles: every comparison with NaN is false. -/
def lt : Double → Double → Bool
  | fin p, fin q => decide (p < q)
  | inf true, fin _ => true
  | fin _, inf false => true
  | inf true, inf false => true
  | _, _ => false

/-- `a == b` on floats: NaN is not equal to itself. -/
def feq : Double → Double → Bool
  | fin p, fin q => decide (p = q)
  | inf m, inf n => m == n
  | _, _ => false

/-- The conversion to `size_t`, truncating, where it is defined. -/
def toSize : Double → Option Nat
  | fin q => if -1 < q ∧ q < 2 ^ 64 then some q.floor.toNat else none
  | _ => none

/-- The conversion to `int32_t`, truncating, where it is defined. -/
def toInt32 : Double → Option Int
  | fin q =>
      let t := if 0 ≤ q then q.floor else q.ceil
      if -(2 ^ 31) ≤ t ∧ t < 2 ^ 31 then some t else none
  | _ => none

end Double

/-! ## Headers -/

/-- A JSON value, as the accessors of `json.c` tell values apart. -/
inductive JVal where
  | str (s : CStr)
  | num (n : Double)
  | bool (b : Bool)
  | null
  | arr (xs : List JVal)
  | obj (ms : List (CStr × JVal))

/-- The members of a parsed object, in the order of the text. -/
abbrev Json := List (CStr × JVal)

/-- The first member under the key. -/
def jsonGet (j : Json) (key : String) : Option JVal :=
  (j.find? fun m => decide (m.1 = lit key)).map (·.2)

def jsonStrdup : Option JVal → Option CStr
  | some (.str s) => some s
  | _ => none

def jsonNum (v : Option JVal) (dflt : Double) : Double :=
  match v with
  | some (.num n) => n
  | _ => dflt

/-- The number clamped to `[lo, hi]`, and whether the field is present with
the wrong type. `null` counts as absent. -/
def jsonClamp (v : Option JVal) (dflt lo hi : Double) : Double × Bool :=
  let bad := match v with
    | none | some (.num _) | some .null => false
    | _ => true
  let n := match jsonNum v dflt with
    | .nan => dflt
    | n => n
  (if n.lt lo then lo else if hi.lt n then hi else n, bad)

def jsonBool (v : Option JVal) (dflt : Bool) : Bool :=
  match v with
  | some (.bool b) => b
  | some (.num _) | some .null => false
  | _ => dflt

/-- A request body: its bytes, and what `json_parse` makes of them. -/
structure Body where
  bytes : List UInt8 := []
  doc : Option Json := none

/-- A request frame as `read_frame` delivers it; `hdr` is `none` when the
header is not a JSON object. -/
structure Frame where
  hdr : Option Json
  body : Body := {}

/-- The string member of a frame's header. -/
def Frame.field (f : Frame) (key : String) : Option CStr :=
  f.hdr.bind fun j => jsonStrdup (jsonGet j key)

/-- The op of a frame, and what it names. -/
def opOf (f : Frame) : Option CStr := f.field "op"

def sessionOf (f : Frame) : Option CStr := f.field "session"

def tokenOf (f : Frame) : Option CStr := f.field "token"

def chatOf (f : Frame) : Option CStr := f.field "chat"

/-- Four bytes, little-endian, as an `int32_t`. -/
def int32 (a b c d : UInt8) : Int :=
  let n : Nat := a.toNat + 2 ^ 8 * b.toNat + 2 ^ 16 * c.toNat + 2 ^ 24 * d.toNat
  if n < 2 ^ 31 then (n : Int) else (n : Int) - 2 ^ 32

/-- A body read as an `int32_t` array; a rest of less than four bytes is not
part of it. -/
def int32s : List UInt8 → List Int
  | a :: b :: c :: d :: rest => int32 a b c d :: int32s rest
  | _ => []

/-! ## Replies -/

/-- The counters of a finished answer that its reply carries. -/
structure ChatStats where
  finish : CStr
  inputTokens : Nat
  contextTokens : Nat
  outputTokens : Nat
  dropped : Nat
  deriving DecidableEq

/-- A reply frame, by meaning. -/
inductive Reply where
  | error (msg : CStr)
  | failed (status why : CStr)
  | ok
  | info (ctx vocab sessions maxSessions maxChats : Nat) (chatApi : Bool)
  | session (id : CStr)
  | chat (ctx : Nat) (id : CStr)
  | tokens (ids : List Int)
  | tokenId (id : Int)
  | pieces (ps : List (Option CStr))
  | prefilled (prefilled reused n : Nat)
  | peeked (n : Nat)
  | stepped (token : Int) (stop : Bool) (n : Nat) (piece : Option CStr)
  | token (token : Int) (stop : Bool) (piece : Option CStr)
  | generated (reason : CStr) (generated n : Nat)
  | reset (n : Nat)
  | pinned (n : Nat)
  | length (n : Nat)
  | part (thinking : Bool) (text : CStr)
  | finished (st : ChatStats) (length : Nat)
  deriving DecidableEq

/-! ## Messages -/

/-- A message of a request. -/
structure Msg where
  role : CStr
  content : CStr
  deriving DecidableEq

/-- The roles that a chat tells apart. -/
inductive Role where
  | system | assistant | user
  deriving DecidableEq

/-- Anything else counts as user. -/
def roleOf (role : CStr) : Role :=
  if role = lit "system" then .system
  else if role = lit "assistant" then .assistant
  else .user

/-- A message as a chat holds it. -/
structure Turn where
  role : Role
  content : CStr
  deriving DecidableEq

def Msg.turn (m : Msg) : Turn := ⟨roleOf m.role, m.content⟩

/-! ## A connection -/

/-- One connection. `life` is how many more frames the peer takes before a
write fails (`none`: it never does). Four fields are kept for the proofs only:
`sent` are the frames the peer took, `hellos` the tokens of the hellos that were
accepted, `ran` the ops that were dispatched and `asked` the conversations that
answers were generated from. -/
structure Conn where
  broken : Bool := false
  authed : Bool := false
  life : Option Nat := none
  sent : List Reply := []
  hellos : List (Option CStr) := []
  ran : List CStr := []
  asked : List (List Turn) := []
  deriving DecidableEq

/-- Write one reply frame; `false` when the peer is gone. -/
def reply (c : Conn) (r : Reply) : Conn × Bool :=
  if c.broken then (c, false)
  else match c.life with
    | some 0 => ({ c with broken := true }, false)
    | some (n + 1) => ({ c with life := some n, sent := c.sent ++ [r] }, true)
    | none => ({ c with sent := c.sent ++ [r] }, true)

def replyError (c : Conn) (msg : String) : Conn × Bool := reply c (.error (lit msg))

theorem reply_authed (c : Conn) (r : Reply) : (reply c r).1.authed = c.authed := by
  unfold reply
  split
  · rfl
  · split <;> rfl

end GeistServe.Geistd
