import GeistServe.Geistd.Framing

/-!
# The client's frames

`geistd_client.h` has its own reader and writer of frames: a call is repeated
also when it would have to wait, and a call that takes nothing is an error. A
deadline that passes and a cancel are errors too.
-/

namespace GeistServe.Client

open GeistServe.Lib GeistServe.Geistd

/-- The errors after which the client repeats a call. -/
def waited (e : Errno) : Bool := decide (e = .eintr ∨ e = .again)

/-- The client's side of a connection that it writes to: what is out, and what
the calls to come meet. -/
abbrev Sink := Bytes × List (Departure Errno)

def gdWrite (g : Sink) (buf : Bytes) : Sink × Bool :=
  match writeExact waited false buf g.2 with
  | (out, calls, ok) => ((g.1 ++ out, calls), ok)

def gdRead (n : Nat) (inp : List (Arrival Errno)) : Option (Bytes × List (Arrival Errno)) :=
  readExact waited n inp

/-- One length of the prefix. -/
def gdLen (n : Nat) : Bytes := (List.range 4).map fun i => UInt8.ofNat (n >>> (8 * i))

/-- `gd_send`: the header is a C string. -/
def gdSend (g : Sink) (hdr body : Bytes) : Sink × Bool :=
  let len := (cstr hdr).length
  if len = 0 ∨ len > 64 <<< 10 ∨ body.length > 16 <<< 20 then (g, false)
  else match gdWrite g (gdLen len ++ gdLen body.length) with
    | (g, false) => (g, false)
    | (g, true) =>
        match gdWrite g (hdr.take len) with
        | (g, false) => (g, false)
        | (g, true) => if body = [] then (g, true) else gdWrite g body

/-- A length of the prefix, read from its last byte on. -/
def gdNumber (pre : Bytes) : Nat :=
  [3, 2, 1, 0].foldl (fun n i => n <<< 8 ||| (pre.getD i 0).toNat) 0

/-- The frame that `gd_recv` reads, before its header is parsed. -/
def gdFrame (inp : List (Arrival Errno)) : Except String (RawFrame × List (Arrival Errno)) :=
  match gdRead 8 inp with
  | none => .error "connection closed by geistd"
  | some (pre, inp) =>
      let hl := gdNumber pre
      let bl := gdNumber (pre.drop 4)
      if hl = 0 ∨ hl > 64 <<< 10 ∨ bl > 16 <<< 20 then .error "bad frame from geistd"
      else match gdRead hl inp with
        | none => .error "short frame from geistd"
        | some (hdr, inp) =>
            if bl = 0 then .ok (⟨hdr, []⟩, inp)
            else match gdRead bl inp with
              | none => .error "short frame from geistd"
              | some (body, inp) => .ok (⟨hdr, body⟩, inp)

end GeistServe.Client
