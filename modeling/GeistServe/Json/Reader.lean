import GeistServe.Json.Jsmn

/-!
# Reading a parsed text

The lookup helpers of `json.c` over the tokens of a text, and those that the
client has of its own. A token is named by its number in the array. A string that
is copied out ends at its first NUL, as any C string does.
-/

namespace GeistServe.Json

open GeistServe.Lib

def JSON_TOK_CAP : Nat := 4096

/-- `struct json`: a text and its tokens. -/
structure Doc where
  src : Bytes
  tok : List Tok

/-- The bytes of a token. -/
def Doc.text (j : Doc) (t : Tok) : Bytes :=
  (j.src.drop t.start).take (t.stop.getD 0 - t.start)

/-- `json_parse`: one object, and nothing behind it that is a token of its own. -/
def jsonParse (src : Bytes) : Option Doc :=
  match jsmnParse JSON_TOK_CAP src with
  | .error _ => none
  | .ok [] => none
  | .ok (t :: rest) =>
      if t.type = .object ∧ rest.all (·.parent.isSome) then some ⟨src, t :: rest⟩ else none

/-- The value behind the first key of the object `obj` that reads `key`, looking
from token `i` on. -/
def Doc.find (j : Doc) (obj : Nat) (key : Bytes) : Nat → List Tok → Option Nat
  | _, [] => none
  | i, t :: rest =>
      if t.parent = some obj ∧ t.type = .string ∧ j.text t = key ∧ i + 1 < j.tok.length then
        some (i + 1)
      else j.find obj key (i + 1) rest

/-- `json_get`. -/
def Doc.get (j : Doc) (obj : Nat) (key : Bytes) : Option Nat :=
  if (j.tok[obj]?).any (·.type == .object) then
    j.find obj key (obj + 1) (j.tok.drop (obj + 1))
  else none

/-- The numbers of the tokens right under the token `list`, looking from token
`i` on. -/
def children (list : Nat) : Nat → List Tok → List Nat
  | _, [] => []
  | i, t :: rest =>
      if t.parent = some list then i :: children list (i + 1) rest
      else children list (i + 1) rest

/-- The items of an array. -/
def Doc.items (j : Doc) (list : Nat) : List Nat :=
  children list (list + 1) (j.tok.drop (list + 1))

/-! ## Strings -/

/-- The value of a hexadecimal digit. -/
def hexVal (c : UInt8) : Nat :=
  if 48 ≤ c ∧ c ≤ 57 then c.toNat - 48
  else if 65 ≤ c ∧ c ≤ 70 then c.toNat - 55
  else c.toNat - 87

/-- `strtoul` to the base 16, on hexadecimal digits. -/
def hexNum (cs : Bytes) : Nat := cs.foldl (fun n c => 16 * n + hexVal c) 0

/-- The bytes of a code point, in UTF-8. -/
def utf8 (cp : Nat) : Bytes :=
  if cp < 0x80 then [UInt8.ofNat cp]
  else if cp < 0x800 then [UInt8.ofNat (0xC0 ||| cp >>> 6), UInt8.ofNat (0x80 ||| cp &&& 0x3F)]
  else if cp < 0x10000 then
    [UInt8.ofNat (0xE0 ||| cp >>> 12), UInt8.ofNat (0x80 ||| (cp >>> 6) &&& 0x3F),
      UInt8.ofNat (0x80 ||| cp &&& 0x3F)]
  else
    [UInt8.ofNat (0xF0 ||| cp >>> 18), UInt8.ofNat (0x80 ||| (cp >>> 12) &&& 0x3F),
      UInt8.ofNat (0x80 ||| (cp >>> 6) &&& 0x3F), UInt8.ofNat (0x80 ||| cp &&& 0x3F)]

/-- The code point of a surrogate pair. -/
def pair (hi lo : Nat) : Nat := 0x10000 + (hi - 0xD800) <<< 10 + (lo - 0xDC00)

/-- The letter of an escape, and what it stands for. -/
def escaped (e : UInt8) : UInt8 :=
  if e = 110 then 10 else if e = 116 then 9 else if e = 114 then 13 else if e = 98 then 8
  else if e = 102 then 12 else e

/-- The loop of `json_strdup`. -/
def unescape : Bytes → Bytes
  | [] => []
  | c :: rest =>
      if c ≠ 92 then c :: unescape rest
      else match rest with
        | [] => [c]
        | e :: rest =>
            if e ≠ 117 then escaped e :: unescape rest
            else match rest with
              | h₁ :: h₂ :: h₃ :: h₄ :: rest =>
                  let cp := hexNum [h₁, h₂, h₃, h₄]
                  if 0xD800 ≤ cp ∧ cp ≤ 0xDBFF then
                    match rest with
                    | 92 :: 117 :: l₁ :: l₂ :: l₃ :: l₄ :: rest' =>
                        let lo := hexNum [l₁, l₂, l₃, l₄]
                        if 0xDC00 ≤ lo ∧ lo ≤ 0xDFFF then utf8 (pair cp lo) ++ unescape rest'
                        else utf8 cp ++ unescape (92 :: 117 :: l₁ :: l₂ :: l₃ :: l₄ :: rest')
                    | rest => utf8 cp ++ unescape rest
                  else utf8 cp ++ unescape rest
              | rest => unescape rest

/-- `json_is_str`, and the token if it is. -/
def Doc.str? (j : Doc) (t : Option Nat) : Option Tok :=
  (t.bind (j.tok[·]?)).filter (·.type == .string)

/-- `json_strdup`. -/
def Doc.strdup (j : Doc) (t : Option Nat) : Option Bytes :=
  (j.str? t).map fun t => (unescape (j.text t)).takeWhile (· ≠ 0)

end GeistServe.Json
