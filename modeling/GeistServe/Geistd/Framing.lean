import GeistServe.Lib.Channel

/-!
# Frames on a connection

A frame is a prefix of two lengths, a header and a body. `readFrame` and
`writeFrame` are the daemon's two ends of that, down to the calls of `read` and
`write`, and `serveConn` is the loop over the frames of one connection. Memory
for a frame is taken to be there.
-/

namespace GeistServe.Geistd

open GeistServe.Lib

def HDR_CAP : Nat := 64 * 1024

def BODY_CAP : Nat := 16 * 1024 * 1024

/-- The errors of a call that one of the two sides tells apart; `again` is
`EAGAIN` or `EWOULDBLOCK`. -/
inductive Errno where
  | eintr | again | other
  deriving DecidableEq

/-- A header and a body, as bytes. -/
structure RawFrame where
  hdr : Bytes
  body : Bytes
  deriving DecidableEq

/-! ## Calls -/

/-- The only error after which the daemon repeats a call. -/
def retried (e : Errno) : Bool := decide (e = .eintr)

def readAll (n : Nat) (inp : List (Arrival Errno)) : Option (Bytes × List (Arrival Errno)) :=
  readExact retried n inp

/-- The write side of a connection: what is out, what the calls to come meet,
and whether one has failed. -/
structure Port where
  out : Bytes := []
  calls : List (Departure Errno) := []
  broken : Bool := false

def writeAll (c : Port) (buf : Bytes) : Port × Bool :=
  if c.broken then (c, false)
  else match writeExact retried true buf c.calls with
    | (out, calls, ok) => (⟨c.out ++ out, calls, !ok⟩, ok)

/-! ## Frames -/

/-- Four bytes, little-endian. -/
def rdU32 (b : Bytes) : Nat :=
  (b.getD 0 0).toNat ||| (b.getD 1 0).toNat <<< 8 ||| (b.getD 2 0).toNat <<< 16 |||
    (b.getD 3 0).toNat <<< 24

def wrU32 (v : Nat) : Bytes :=
  [UInt8.ofNat v, UInt8.ofNat (v >>> 8), UInt8.ofNat (v >>> 16), UInt8.ofNat (v >>> 24)]

/-- What `read_frame` comes back with: a frame (1), the end (0), or a frame that
is malformed or too large (-1). -/
inductive Got where
  | frame (f : RawFrame) (inp : List (Arrival Errno))
  | closed
  | malformed

def Got.frame? : Got → Option (RawFrame × List (Arrival Errno))
  | .frame f inp => some (f, inp)
  | _ => none

def readFrame (inp : List (Arrival Errno)) : Got :=
  match readAll 8 inp with
  | none => .closed
  | some (pre, inp) =>
      let hl := rdU32 pre
      let bl := rdU32 (pre.drop 4)
      if hl = 0 ∨ hl > HDR_CAP ∨ bl > BODY_CAP then .malformed
      else match readAll hl inp with
        | none => .malformed
        | some (hdr, inp) =>
            if bl = 0 then .frame ⟨hdr, []⟩ inp
            else match readAll bl inp with
              | none => .malformed
              | some (body, inp) => .frame ⟨hdr, body⟩ inp

/-- The two lengths in front of a frame. -/
def RawFrame.pre (f : RawFrame) : Bytes := wrU32 f.hdr.length ++ wrU32 f.body.length

def writeFrame (c : Port) (f : RawFrame) : Port × Bool :=
  match writeAll c f.pre with
  | (c, false) => (c, false)
  | (c, true) =>
      match writeAll c f.hdr with
      | (c, false) => (c, false)
      | (c, true) => if f.body = [] then (c, true) else writeAll c f.body

/-! ## One connection -/

/-- `handle` takes the header as a C string. -/
def cstr (buf : Bytes) : Bytes := buf.takeWhile (· ≠ 0)

/-- `serve_conn`. What a frame does to the state `σ`, and whether the connection
goes on behind it, is `handle`; `malformed` is the reply to a malformed frame. -/
def serveConn {σ : Type} (handle : σ → Bytes → Bytes → σ × Bool) (malformed : σ → σ) :
    Nat → σ → List (Arrival Errno) → σ
  | 0, s, _ => s
  | fuel + 1, s, inp =>
      match readFrame inp with
      | .closed => s
      | .malformed => malformed s
      | .frame f inp =>
          match handle s (cstr f.hdr) f.body with
          | (s, true) => serveConn handle malformed fuel s inp
          | (s, false) => s

end GeistServe.Geistd
