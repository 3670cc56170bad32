import GeistServe.Json.Reader

/-!
# Texts as trees

A tree is what a writer of JSON means: its leaves are strings and primitives as
they stand in the text, still escaped. `print` is the text without white space,
the only form that the client and the daemon write, and `toks` are the tokens
that belong to it. `Proofs/Tokens.lean` shows that the tokenizer finds these
tokens, `Proofs/Lookup.lean` that the lookup helpers read the tree from them.
-/

namespace GeistServe.Json

open GeistServe.Lib

inductive Tree where
  | str (raw : Bytes)
  | prim (raw : Bytes)
  | arr (xs : List Tree)
  | obj (ms : List (Bytes × Tree))

/-! ## Text -/

mutual

def Tree.print : Tree → Bytes
  | .str raw => 34 :: (raw ++ [34])
  | .prim raw => raw
  | .arr xs => 91 :: (printItems [] xs ++ [93])
  | .obj ms => 123 :: (printMembers [] ms ++ [125])

/-- The items of an array, `sep` in front of the first and a comma in front of
each other. -/
def printItems (sep : Bytes) : List Tree → Bytes
  | [] => []
  | x :: xs => sep ++ (x.print ++ printItems [44] xs)

def printMembers (sep : Bytes) : List (Bytes × Tree) → Bytes
  | [] => []
  | (key, v) :: ms => sep ++ (34 :: (key ++ 34 :: 58 :: (v.print ++ printMembers [44] ms)))

end

/-! ## Tokens -/

mutual

/-- The number of tokens of a tree; a key is a token of its own. -/
def Tree.count : Tree → Nat
  | .str _ => 1
  | .prim _ => 1
  | .arr xs => 1 + countItems xs
  | .obj ms => 1 + countMembers ms

def countItems : List Tree → Nat
  | [] => 0
  | x :: xs => x.count + countItems xs

def countMembers : List (Bytes × Tree) → Nat
  | [] => 0
  | (_, v) :: ms => 1 + v.count + countMembers ms

end

mutual

/-- The tokens of a tree whose text starts at `pos` and whose first token is
number `base` of the array. -/
def Tree.toks (pos base : Nat) (parent : Option Nat) : Tree → List Tok
  | .str raw => [⟨.string, pos + 1, some (pos + 1 + raw.length), 0, parent⟩]
  | .prim raw => [⟨.primitive, pos, some (pos + raw.length), 0, parent⟩]
  | .arr xs =>
      ⟨.array, pos, some (pos + 1 + (printItems [] xs).length + 1), xs.length, parent⟩ ::
        itemToks (pos + 1) (base + 1) base [] xs
  | .obj ms =>
      ⟨.object, pos, some (pos + 1 + (printMembers [] ms).length + 1), ms.length, parent⟩ ::
        memberToks (pos + 1) (base + 1) base [] ms

def itemToks (pos base list : Nat) (sep : Bytes) : List Tree → List Tok
  | [] => []
  | x :: xs =>
      x.toks (pos + sep.length) base (some list) ++
        itemToks (pos + sep.length + x.print.length) (base + x.count) list [44] xs

def memberToks (pos base obj : Nat) (sep : Bytes) : List (Bytes × Tree) → List Tok
  | [] => []
  | (key, v) :: ms =>
      ⟨.string, pos + sep.length + 1, some (pos + sep.length + 1 + key.length), 1, some obj⟩ ::
        (v.toks (pos + sep.length + 1 + key.length + 2) (base + 1) (some base) ++
          memberToks (pos + sep.length + 1 + key.length + 2 + v.print.length)
            (base + 1 + v.count) obj [44] ms)

end

/-! ## Well-formed trees -/

/-- An escaped string: a quote behind it is the first that ends it. -/
inductive Quotable : Bytes → Prop where
  | nil : Quotable []
  | plain {c : UInt8} {rest : Bytes} (hc : c ≠ 0 ∧ c ≠ 34 ∧ c ≠ 92) (h : Quotable rest) :
      Quotable (c :: rest)
  | short {e : UInt8} {rest : Bytes}
      (he : e = 34 ∨ e = 47 ∨ e = 92 ∨ e = 98 ∨ e = 102 ∨ e = 114 ∨ e = 110 ∨ e = 116)
      (h : Quotable rest) : Quotable (92 :: e :: rest)
  | unicode {a b c d : UInt8} {rest : Bytes} (hx : (isHex a && isHex b && isHex c && isHex d) = true)
      (h : Quotable rest) : Quotable (92 :: 117 :: a :: b :: c :: d :: rest)

/-- A character that a primitive may start with. -/
abbrev primStart (c : UInt8) : Prop := c = 45 ∨ (48 ≤ c ∧ c ≤ 57) ∨ c = 116 ∨ c = 102 ∨ c = 110

/-- A character that does not end one. -/
abbrev inPrim (c : UInt8) : Prop := 32 < c ∧ c < 127 ∧ c ≠ 44 ∧ c ≠ 93 ∧ c ≠ 125

def IsPrim (raw : Bytes) : Prop := (∃ c ∈ raw.head?, primStart c) ∧ ∀ c ∈ raw, inPrim c

mutual

def Tree.Valid : Tree → Prop
  | .str raw => Quotable raw
  | .prim raw => IsPrim raw
  | .arr xs => ValidItems xs
  | .obj ms => ValidMembers ms

def ValidItems : List Tree → Prop
  | [] => True
  | x :: xs => x.Valid ∧ ValidItems xs

def ValidMembers : List (Bytes × Tree) → Prop
  | [] => True
  | (key, v) :: ms => Quotable key ∧ v.Valid ∧ ValidMembers ms

end

/-- Is there something that ends a primitive in front of this text? -/
def Ended (rest : Bytes) : Prop := ∃ c r, rest = c :: r ∧ (c = 44 ∨ c = 93 ∨ c = 125)

def Tree.isPrim : Tree → Bool
  | .prim _ => true
  | _ => false

end GeistServe.Json
