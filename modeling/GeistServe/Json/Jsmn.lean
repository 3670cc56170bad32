import GeistServe.Lib.Lines

/-!
# The tokenizer

`jsmn` in strict mode and with parent links, as `json.c` and the client compile
it. It makes a flat array of tokens over the text; a value under a key has the
key as its parent. `toks` are the first `toknext` tokens of the array, and their
number is what `jsmn_parse` counts. A string and a primitive are taken in one go:
`loop` then skips the bytes that they took.
-/

namespace GeistServe.Json

open GeistServe.Lib

inductive JType where
  | object | array | string | primitive
  deriving DecidableEq

/-- A token. `stop` is `none` while an object or an array is open. -/
structure Tok where
  type : JType
  start : Nat
  stop : Option Nat
  size : Nat
  parent : Option Nat
  deriving DecidableEq

inductive JsmnError where
  | nomem | inval | part
  deriving DecidableEq

/-- The parser between two characters. -/
structure Parser where
  toks : List Tok := []
  toksuper : Option Nat := none
  deriving DecidableEq

/-! ## Strings and primitives -/

/-- `0`-`9`, `A`-`F`, `a`-`f`. -/
def isHex (c : UInt8) : Bool :=
  (48 ≤ c && c ≤ 57) || (65 ≤ c && c ≤ 70) || (97 ≤ c && c ≤ 102)

/-- An escape `\u` without four hex digits behind it. -/
def hexError : Bytes → JsmnError
  | [] => .part
  | c :: rest => if c = 0 then .part else if isHex c then hexError rest else .inval

/-- The length of the string that starts here, up to its closing quote. -/
def parseString : Bytes → Except JsmnError Nat
  | [] => .error .part
  | c :: rest =>
      if c = 0 then .error .part
      else if c = 34 then .ok 0
      else if c = 92 then
        match rest with
        | [] => .error .part
        | e :: rest =>
            if e = 34 ∨ e = 47 ∨ e = 92 ∨ e = 98 ∨ e = 102 ∨ e = 114 ∨ e = 110 ∨ e = 116 then
              (parseString rest).map (· + 2)
            else if e = 117 then
              match rest with
              | a :: b :: c :: d :: rest =>
                  if isHex a && isHex b && isHex c && isHex d then
                    (parseString rest).map (· + 6)
                  else .error (hexError [a, b, c, d])
              | rest => .error (hexError rest)
            else .error .inval
      else (parseString rest).map (· + 1)

/-- The length of the primitive that starts here; it must be followed by a comma,
a closing bracket or white space. -/
def parsePrimitive : Bytes → Except JsmnError Nat
  | [] => .error .part
  | c :: rest =>
      if c = 0 then .error .part
      else if c = 9 ∨ c = 13 ∨ c = 10 ∨ c = 32 ∨ c = 44 ∨ c = 93 ∨ c = 125 then .ok 0
      else if c < 32 ∨ 127 ≤ c then .error .inval
      else (parsePrimitive rest).map (· + 1)

/-! ## Brackets -/

/-- The token one more child is counted at. -/
def addSize (toks : List Tok) (i : Option Nat) : List Tok :=
  match i with
  | none => toks
  | some i => toks.modify i fun t => { t with size := t.size + 1 }

/-- A bracket that opens. -/
def openBracket (cap : Nat) (type : JType) (pos : Nat) (p : Parser) : Except JsmnError Parser :=
  if cap ≤ p.toks.length then .error .nomem
  else if (p.toksuper.bind (p.toks[·]?)).any (·.type == .object) then .error .inval
  else .ok { toks := addSize p.toks p.toksuper ++ [⟨type, pos, none, 0, p.toksuper⟩]
             toksuper := some p.toks.length }

/-- The innermost open token on the way from a token to the root, or the error of
`jsmn_parse` when there is none; `type` is the type of the bracket. -/
def closed (type : JType) (toks : List Tok) (toksuper : Option Nat) :
    Nat → Nat → Except JsmnError (Option Nat)
  | 0, _ => .error .inval
  | fuel + 1, i =>
      match toks[i]? with
      | none => .error .inval
      | some t =>
          if t.stop = none then
            if t.type ≠ type then .error .inval else .ok (some i)
          else match t.parent with
            | none => if t.type ≠ type ∨ toksuper = none then .error .inval else .ok none
            | some parent => closed type toks toksuper fuel parent

/-- A bracket that closes. -/
def closeBracket (type : JType) (pos : Nat) (p : Parser) : Except JsmnError Parser :=
  match closed type p.toks p.toksuper p.toks.length (p.toks.length - 1) with
  | .error e => .error e
  | .ok none => .ok p
  | .ok (some i) =>
      .ok { toks := p.toks.modify i fun t => { t with stop := some (pos + 1) }
            toksuper := p.toks[i]?.bind (·.parent) }

/-! ## The loop -/

/-- A token for text that has been read: a string, or a primitive. -/
def addToken (cap : Nat) (type : JType) (start stop : Nat) (p : Parser) : Except JsmnError Parser :=
  if cap ≤ p.toks.length then .error .nomem
  else .ok { p with toks := addSize (p.toks ++ [⟨type, start, some stop, 0, p.toksuper⟩]) p.toksuper }

/-- One turn of the loop at the character `c`; the number is how many of the
bytes behind it were taken as well. -/
def jsmnChar (cap pos : Nat) (c : UInt8) (rest : Bytes) (p : Parser) :
    Except JsmnError (Parser × Nat) :=
  if c = 123 then (openBracket cap .object pos p).map (·, 0)
  else if c = 91 then (openBracket cap .array pos p).map (·, 0)
  else if c = 125 then (closeBracket .object pos p).map (·, 0)
  else if c = 93 then (closeBracket .array pos p).map (·, 0)
  else if c = 34 then
    match parseString rest with
    | .error e => .error e
    | .ok n => (addToken cap .string (pos + 1) (pos + 1 + n) p).map (·, n + 1)
  else if c = 9 ∨ c = 13 ∨ c = 10 ∨ c = 32 then .ok (p, 0)
  else if c = 58 then
    .ok ({ p with toksuper := if p.toks.length = 0 then none else some (p.toks.length - 1) }, 0)
  else if c = 44 then
    match p.toksuper.bind (p.toks[·]?) with
    | none => .ok (p, 0)
    | some t =>
        if t.type ≠ .array ∧ t.type ≠ .object then .ok ({ p with toksuper := t.parent }, 0)
        else .ok (p, 0)
  else if c = 45 ∨ (48 ≤ c ∧ c ≤ 57) ∨ c = 116 ∨ c = 102 ∨ c = 110 then
    if (p.toksuper.bind (p.toks[·]?)).any fun t =>
        t.type == .object || (t.type == .string && t.size != 0) then .error .inval
    else match parsePrimitive (c :: rest) with
      | .error e => .error e
      | .ok n => (addToken cap .primitive pos (pos + n) p).map (·, n - 1)
  else .error .inval

/-- The loop over the text; `skip` bytes have been taken already. -/
def loop (cap : Nat) : Nat → Nat → Parser → Bytes → Except JsmnError Parser
  | _, _, p, [] => .ok p
  | skip + 1, pos, p, _ :: rest => loop cap skip (pos + 1) p rest
  | 0, pos, p, c :: rest =>
      if c = 0 then .ok p
      else match jsmnChar cap pos c rest p with
        | .error e => .error e
        | .ok (p, skip) => loop cap skip (pos + 1) p rest

/-- `jsmn_parse` with room for `cap` tokens. -/
def jsmnParse (cap : Nat) (js : Bytes) : Except JsmnError (List Tok) :=
  match loop cap 0 0 {} js with
  | .error e => .error e
  | .ok p => if p.toks.any (·.stop == none) then .error .part else .ok p.toks

end GeistServe.Json
