import GeistServe.Lib.Bump
import GeistServe.Lib.Cells
import GeistServe.App.Proxy
import GeistServe.Geistd.Framing

/-!
# Fixed storage: `app_alloc` and the writers of `struct app_buffer`

A worker has one piece of storage for what a request needs and builds every answer in a
fixed buffer. Both are modelled down to the bytes: a write outside of the storage has no
result at all, so that no result may be read as "the program went wrong".

Sizes are `size_t`, and the arithmetic on them is checked where the source checks it. The
largest alignment of the platform is a parameter.
-/

namespace GeistServe.App

open GeistServe.Lib GeistServe.Geistd GeistServe.Json

/-! ## The arena -/

/-- `struct app_arena`. `base` is the address of the storage, which has `cap` bytes. -/
structure Arena where
  base : Nat
  used : UInt64 := 0
  cap : UInt64
  storage : Bytes
  whole : storage.length = cap.toNat

/-- `ckd_mul`, when it does not overflow. -/
def ckdMul (a b : UInt64) : Option UInt64 :=
  if a.toNat * b.toNat < 2 ^ 64 then some (a * b) else none

/-- `ckd_add`, when it does not overflow. -/
def ckdAdd (a b : UInt64) : Option UInt64 :=
  if a.toNat + b.toNat < 2 ^ 64 then some (a + b) else none

/-- `memset` of `n` bytes from place `i` on. -/
def Arena.clear (a : Arena) (i n : Nat) : Option Arena :=
  match h : store a.storage i (List.replicate n 0) with
  | none => none
  | some m => some { a with storage := m, whole := (store_length h).trans a.whole }

/-- A byte that the holder of a block writes. -/
def Arena.write (a : Arena) (i : Nat) (b : UInt8) : Arena :=
  { a with storage := a.storage.set i b, whole := (List.length_set).trans a.whole }

/-- `app_alloc`: where the block starts, behind `base`, or nothing. -/
def Arena.alloc (maxAlign : UInt64) (a : Arena) (count size alignment : UInt64) :
    Option (Option UInt64 × Arena) :=
  if alignment = 0 ∨ alignment &&& (alignment - 1) ≠ 0 ∨ alignment > maxAlign then some (none, a)
  else match ckdMul count size with
    | none => some (none, a)
    | some n =>
        match ckdAdd a.used (alignment - 1) with
        | none => some (none, a)
        | some start =>
            let start := start &&& ~~~(alignment - 1)
            match ckdAdd start n with
            | none => some (none, a)
            | some stop =>
                if stop > a.cap then some (none, a)
                else ({ a with used := stop }.clear start.toNat n.toNat).map (some start, ·)

/-- What happens to an arena: its owner asks for a block, or some holder writes a byte. -/
inductive Use where
  | alloc (count size alignment : UInt64)
  | write (i : Nat) (b : UInt8)

/-- A request for a block, and what came of it. -/
structure Asked where
  before : Arena
  count : UInt64
  size : UInt64
  alignment : UInt64
  got : Option UInt64
  after : Arena

def Asked.block? (q : Asked) : Option Block :=
  q.got.map fun start => ⟨start.toNat, q.count.toNat * q.size.toNat⟩

def Arena.run (maxAlign : UInt64) : Arena → List Use → Option (Arena × List Asked)
  | a, [] => some (a, [])
  | a, .write i b :: uses => (a.write i b).run maxAlign uses
  | a, .alloc count size alignment :: uses =>
      match a.alloc maxAlign count size alignment with
      | none => none
      | some (got, a') =>
          (a'.run maxAlign uses).map fun r => (r.1, ⟨a, count, size, alignment, got, a'⟩ :: r.2)

/-! ## The buffer -/

/-- `struct app_buffer`, with its bytes. -/
structure RawBuffer where
  data : Bytes
  len : Nat := 0
  cap : Nat
  failed : Bool := false
  whole : data.length = cap
  cap_lt : cap < 2 ^ 64

/-- A fresh buffer. -/
def RawBuffer.on (data : Bytes) (h : data.length < 2 ^ 64) : RawBuffer :=
  { data := data, cap := data.length, whole := rfl, cap_lt := h }

def RawBuffer.fail (b : RawBuffer) : RawBuffer := { b with failed := true }

/-- Bytes that are written behind `len`, which does not move yet. -/
def RawBuffer.copy (b : RawBuffer) (xs : Bytes) : Option RawBuffer :=
  match h : store b.data b.len xs with
  | none => none
  | some m => some { b with data := m, whole := (store_length h).trans b.whole }

/-- `app_put`. -/
def RawBuffer.put (b : RawBuffer) (s : Bytes) : Option RawBuffer :=
  let s := cstr s
  if b.failed ∨ 2 ^ 64 ≤ b.len + s.length ∨ b.cap ≤ b.len + s.length then some b.fail
  else (b.copy (s ++ [0])).map fun b => { b with len := b.len + s.length }

/-- What `vsnprintf` makes of its arguments: the text, and whether it met an error. -/
structure Printed where
  text : Bytes
  error : Bool := false

/-- The result of `vsnprintf` is no negative number: no error, and an `int`. -/
def Printed.ok (p : Printed) : Bool := !p.error && decide (p.text.length < 2 ^ 31)

/-- `app_printf`. `vsnprintf` writes what there is room for, and a NUL. -/
def RawBuffer.printf (b : RawBuffer) (p : Printed) : Option RawBuffer :=
  if b.failed ∨ b.cap ≤ b.len then some b.fail
  else
    (b.copy (p.text.take (b.cap - b.len - 1) ++ [0])).map fun b =>
      if p.ok ∧ p.text.length < b.cap - b.len then { b with len := b.len + p.text.length }
      else b.fail

/-- One byte in `app_quote`. -/
def RawBuffer.quoteByte (b : RawBuffer) (c : UInt8) : Option RawBuffer :=
  if c = 34 ∨ c = 92 then b.printf { text := [92, c] }
  else if c < 32 then b.printf { text := unicodeEscape c }
  else b.put [c, 0]

/-- `app_quote`. -/
def RawBuffer.quote (b : RawBuffer) (s : Bytes) : Option RawBuffer := do
  let b ← b.put [34]
  let b ← (cstr s).foldlM RawBuffer.quoteByte b
  b.put [34]

/-- A write to a buffer. -/
inductive Write where
  | put (s : Bytes)
  | printf (p : Printed)
  | quote (s : Bytes)

def RawBuffer.write (b : RawBuffer) : Write → Option RawBuffer
  | .put s => b.put s
  | .printf p => b.printf p
  | .quote s => b.quote s

def RawBuffer.run (b : RawBuffer) (ws : List Write) : Option RawBuffer := ws.foldlM RawBuffer.write b

end GeistServe.App
