import GeistServe.Gguf.Meta

/-!
# The layout of a GGUF header

What the header is, apart from its reader: the magic, the version, the number of
tensors and of pairs, and the pairs, each a key, the type of its value and the
value. All numbers have their lowest byte first. A string is its length and its
bytes, an array the type of its elements, their number and the elements.

`metaOf` is what a reader wants of the pairs: the last value of each key that is
kept, or the default.
-/

namespace GeistServe.Gguf

open GeistServe.Lib GeistServe.Geistd

/-- The bytes of a value of the type, where all its values have the same size. -/
def size : Nat → Option Nat
  | 0 | 1 | 7 => some 1 -- u8, i8, bool
  | 2 | 3 => some 2 -- u16, i16
  | 4 | 5 | 6 => some 4 -- u32, i32, f32
  | 10 | 11 | 12 => some 8 -- u64, i64, f64
  | _ => none

/-- The bytes are a value of the type, with strings shorter than `cap`. -/
inductive IsValue (cap : Nat) : Nat → Bytes → Prop where
  | fixed {t w : Nat} {bs : Bytes} (hw : size t = some w) (hbs : bs.length = w) :
      IsValue cap t bs
  | str {s : Bytes} (hs : s.length < cap) : IsValue cap 8 (leBytes 8 s.length ++ s)
  | arr {et : Nat} {vs : List Bytes} (het : et < 13) (hlen : vs.length < 2 ^ 64)
      (hvs : ∀ v ∈ vs, IsValue cap et v) :
      IsValue cap 9 (leBytes 4 et ++ leBytes 8 vs.length ++ vs.flatten)

structure Pair where
  key : Bytes
  type : Nat
  value : Bytes

def Pair.bytes (p : Pair) : Bytes :=
  leBytes 8 p.key.length ++ p.key ++ leBytes 4 p.type ++ p.value

/-- A metadata section. -/
structure Header where
  version : Nat
  tensors : Nat
  pairs : List Pair

def Header.bytes (h : Header) : Bytes :=
  lit "GGUF" ++ leBytes 4 h.version ++ leBytes 8 h.tensors ++ leBytes 8 h.pairs.length ++
    (h.pairs.map Pair.bytes).flatten

/-- The section is laid out as in version 2 and from there on. -/
structure Header.Laid (cap : Nat) (h : Header) : Prop where
  version : 2 ≤ h.version ∧ h.version < 2 ^ 32
  tensors : h.tensors < 2 ^ 64
  count : h.pairs.length < 2 ^ 64
  pairs : ∀ p ∈ h.pairs, p.key.length < 2 ^ 64 ∧ IsValue cap p.type p.value

/-! ## What is kept -/

def Pair.isStr (p : Pair) (key : String) : Bool :=
  decide (p.type = 8) && decide (p.key = lit key)

/-- A string that is kept. -/
def Pair.kept (p : Pair) : Bool :=
  p.isStr "tokenizer.chat_template" || p.isStr "general.architecture" ||
    p.isStr "general.size_label"

/-- The characters of a string. -/
def Pair.text (p : Pair) : Bytes := p.value.drop 8

/-- The last pair that is meant. -/
def last (meant : Pair → Bool) (ps : List Pair) : Option Pair := (ps.filter meant).getLast?

def metaOf (ps : List Pair) : Meta where
  tpl := (last (·.isStr "tokenizer.chat_template") ps).map Pair.text
  addBos := ((last (fun p => decide (p.type = 7) &&
    decide (p.key = lit "tokenizer.ggml.add_bos_token")) ps).map
      fun p => decide (leVal p.value ≠ 0)).getD true
  arch := (last (·.isStr "general.architecture") ps).map Pair.text
  sizeLabel := (last (·.isStr "general.size_label") ps).map Pair.text
  fileType := ((last (fun p => decide (p.type = 4) && decide (p.key = lit "general.file_type"))
    ps).map fun p => leVal p.value).getD 0
  contextLength := ((last (fun p => decide (p.type = 4) &&
    (lit ".context_length").isSuffixOf p.key) ps).map fun p => leVal p.value).getD 0

/-! ## The files -/

/-- The file starts with the section, in version 2 or 3, with fewer than 65536
pairs, keys of at most 4096 bytes without a NUL, kept strings of at most 1 MiB and
other strings shorter than 1 GiB. -/
structure WellFormed (f : Input) (h : Header) : Prop where
  starts : h.bytes <+: f.bytes
  laid : h.Laid (2 ^ 30)
  version : h.version = 2 ∨ h.version = 3
  few : h.pairs.length < 65536
  keys : ∀ p ∈ h.pairs, (0 : UInt8) ∉ p.key ∧ p.key.length ≤ 4096
  texts : ∀ p ∈ h.pairs, p.kept = true → p.text.length ≤ 2 ^ 20

/-- No section is laid out at the start of the file, whatever its strings and
counts are. -/
def Malformed (f : Input) : Prop := ∀ h : Header, h.Laid (2 ^ 64) → ¬ h.bytes <+: f.bytes

end GeistServe.Gguf
