import GeistServe.Geistd.Framing
import GeistServe.Geistd.Wire
import GeistServe.Lib.Input

/-!
# The header of a GGUF file

`gguf_read_meta`: the key-value section of a model file, of which six values are
kept. The values of all other keys are skipped, and arrays can nest, so
`skip_val` calls itself: `fuel` is how many of its calls the stack has room for.
Strings that are kept are read; what is skipped is passed over by a seek.

A buffer that `malloc` refuses is left out.
-/

namespace GeistServe.Gguf

open GeistServe.Lib GeistServe.Geistd

def GG_U32 : Nat := 4

def GG_BOOL : Nat := 7

def GG_STR : Nat := 8

def GG_ARR : Nat := 9

/-- The types are the positions of this table. -/
def fixed : List Int := [1, 1, 2, 2, 4, 4, 4, 1, -1, -1, 8, 8, 8]

/-- `t < 13 && fixed[t] > 0`, with the width. -/
def width (t : Nat) : Option Nat :=
  match fixed[t]? with
  | some w => if 0 < w then some w.toNat else none
  | none => none

def rdU32 (f : Input) : Fetch Nat := rdLe f 4

def rdU64 (f : Input) : Fetch Nat := rdLe f 8

/-- `skip_val`. The loop over the elements of an array takes their type as it
comes; without an element nothing looks at it. -/
def skipVal (f : Input) : Nat → Nat → Fetch Unit
  | 0, _ => stop .deep
  | fuel + 1, t =>
      match width t with
      | some w => seek f w
      | none =>
          if t = GG_STR then do
            let n ← rdU64 f
            check (decide (n < 2 ^ 30))
            seek f n
          else if t = GG_ARR then do
            let et ← rdU32 f
            let n ← rdU64 f
            match width et with
            | some w => seek f (n * w)
            | none => do
                expect (decide (et < 13))
                times n (skipVal f fuel et)
          else check false

/-- `rd_str`. -/
def rdStr (f : Input) (cap : Nat) : Fetch Bytes := do
  let n ← rdU64 f
  check (decide (n ≤ cap))
  rd f n

/-- `strcmp(key, s) == 0`. -/
def isKey (key : Bytes) (s : String) : Bool := decide (cstr key = lit s)

/-- `ends_with`. -/
def endsWith (key : Bytes) (suffix : String) : Bool :=
  decide ((lit suffix).length ≤ (cstr key).length) &&
    decide ((cstr key).drop ((cstr key).length - (lit suffix).length) = lit suffix)

/-- `struct gguf_meta`. -/
structure Meta where
  tpl : Option Bytes := none
  addBos : Bool := true
  arch : Option Bytes := none
  sizeLabel : Option Bytes := none
  fileType : Nat := 0
  contextLength : Nat := 0
  deriving DecidableEq

/-- The strings that are kept. -/
inductive StrDst where
  | tpl | arch | sizeLabel
  deriving DecidableEq

/-- `str_dst`. -/
def strDst (key : Bytes) (t : Nat) : Option StrDst :=
  if t = GG_STR ∧ isKey key "tokenizer.chat_template" then some .tpl
  else if t = GG_STR ∧ isKey key "general.architecture" then some .arch
  else if t = GG_STR ∧ isKey key "general.size_label" then some .sizeLabel
  else none

def Meta.setStr (m : Meta) (s : Bytes) : StrDst → Meta
  | .tpl => { m with tpl := some s }
  | .arch => { m with arch := some s }
  | .sizeLabel => { m with sizeLabel := some s }

/-- The value of one pair. -/
def readValue (f : Input) (fuel : Nat) (key : Bytes) (t : Nat) (out : Meta) : Fetch Meta :=
  match strDst key t with
  | some dst => do
      let s ← rdStr f (2 ^ 20)
      pure (out.setStr s dst)
  | none =>
      if t = GG_BOOL ∧ isKey key "tokenizer.ggml.add_bos_token" then do
        let b ← rdLe f 1
        pure { out with addBos := decide (b ≠ 0) }
      else if t = GG_U32 ∧ isKey key "general.file_type" then do
        let n ← rdU32 f
        pure { out with fileType := n }
      else if t = GG_U32 ∧ endsWith key ".context_length" then do
        let n ← rdU32 f
        pure { out with contextLength := n }
      else do
        skipVal f fuel t
        pure out

/-- The loop over the pairs. -/
def readPairs (f : Input) (fuel : Nat) : Nat → Meta → Fetch Meta
  | 0, out => pure out
  | n + 1, out => do
      let key ← rdStr f 4096
      let t ← rdU32 f
      let out ← readValue f fuel key t out
      readPairs f fuel n out

/-- The section, from the start of the file. -/
def readSection (f : Input) (fuel : Nat) : Fetch Meta := do
  let magic ← rd f 4
  check (decide (magic = lit "GGUF"))
  let version ← rdU32 f
  check (decide (2 ≤ version))
  let _ ← rdU64 f
  let nKv ← rdU64 f
  check (decide (nKv < 65536))
  readPairs f fuel nKv {}

/-- `gguf_read_meta`, of a file that may not open; nothing when the stack is too
small. -/
def ggufReadMeta (f : Option Input) (fuel : Nat) : Option (Bool × Meta) :=
  match f with
  | none => some (false, {})
  | some f =>
      match ((readSection f fuel).run {}).1 with
      | .ok out => some (true, out)
      | .error .refused => some (false, {})
      | .error .deep => none

/-- What a run does to the file. -/
def accesses (f : Input) (fuel : Nat) : List Access := ((readSection f fuel).run {}).2.steps

/-- Where the run leaves the file. -/
def lastPos (f : Input) (fuel : Nat) : Nat := ((readSection f fuel).run {}).2.pos

end GeistServe.Gguf
