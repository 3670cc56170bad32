import GeistServe.Lib.Lines

/-!
# The performance store

The records that are held in memory: at most `PERF_RECORDS`, none older than
the retention. What the journal rests on is how a record is written and read
back, not what is in it, so the record and its JSON line are a `Codec`:
`record_json`, `parse`, and the two fields that the store looks at. The laws are
what JSON text gives: a line has no other newline, it reads back as its record,
and one that is cut short is no object and reads as nothing.
-/

namespace GeistServe.Perf

open GeistServe.Lib

def PERF_RECORDS : Nat := 8192

def PERF_QUEUE : Nat := 64

def LINE_CAP : Nat := 8192

def SEGMENT_BYTES : Nat := 10 * 1024 * 1024

/-- A record as its line keeps it. `decode` is `parse` up to its last test, which
is `valid`, the one that looks at the time. -/
structure Codec where
  Rec : Type
  decEq : DecidableEq Rec
  id : Rec → Bytes
  timestamp : Rec → Int
  line : Rec → Bytes
  decode : Bytes → Option Rec
  valid : Int → Rec → Bool

instance (C : Codec) : DecidableEq C.Rec := C.decEq

class LawfulCodec (C : Codec) : Prop where
  is_line : ∀ r, IsLine (C.line r)
  decode_line : ∀ r, C.decode (C.line r) = some r
  decode_torn : ∀ r p q, p ++ q ++ [newline] = C.line r → q ≠ [] →
    C.decode (p ++ [newline]) = none
  valid_later : ∀ now now' r, C.valid now r = true → now ≤ now' → C.valid now' r = true

variable {C : Codec}

/-- The record is not older than the retention. -/
def fresh (C : Codec) (now : Int) (days : Nat) (r : C.Rec) : Bool :=
  decide (now - days * 86400 ≤ C.timestamp r)

/-- The part of `p` that holds the records. `aged` and `shed` are kept for the
proofs: the records that were found too old, and those that the cap pushed
out. -/
structure Store (C : Codec) where
  recs : List C.Rec := []
  expired : Bool := false
  aged : List C.Rec := []
  shed : List C.Rec := []

def known (recs : List C.Rec) (id : Bytes) : Bool := recs.any fun r => decide (C.id r = id)

/-- `retain`. -/
def retain (now : Int) (days : Nat) (st : Store C) (r : C.Rec) : Store C :=
  let kept := st.recs.filter (fresh C now days)
  let old := st.recs.filter fun r => !fresh C now days r
  let expired := st.expired || decide (kept.length < st.recs.length)
  if fresh C now days r = false then
    { st with recs := kept, expired := true, aged := st.aged ++ old ++ [r] }
  else if known kept (C.id r) then
    { st with recs := kept, expired := expired, aged := st.aged ++ old }
  else if kept.length = PERF_RECORDS then
    { recs := kept.tail ++ [r], expired := expired, aged := st.aged ++ old
      shed := st.shed ++ kept.take 1 }
  else { st with recs := kept ++ [r], expired := expired, aged := st.aged ++ old }

/-! ## Reading a segment -/

/-- The records of a segment, in order: the lines that `parse` takes. -/
def records (C : Codec) (now : Int) (bs : Bytes) : List C.Rec :=
  (readLines LINE_CAP bs).filterMap fun l =>
    (C.decode l).bind fun r => if C.valid now r then some r else none

/-- What of a segment `load` reads: nothing when it is missing or too large, and
only its first `n` records when reading stops there. -/
def readSegment (C : Codec) (now : Int) (upTo : Option Nat) (segment : Option Bytes) :
    List C.Rec :=
  match segment with
  | none => []
  | some bs =>
      if bs.length > SEGMENT_BYTES then []
      else match upTo with
        | none => records C now bs
        | some n => (records C now bs).take n

/-- The loop of `load`: what is known already is passed over. -/
def loadRecords (now : Int) (days : Nat) (st : Store C) (rs : List C.Rec) : Store C :=
  rs.foldl (fun st r => if known st.recs (C.id r) then st else retain now days st r) st

/-! ## Export -/

/-- What `perf_export` does to the store first. -/
def prune (now : Int) (days : Nat) (st : Store C) : Store C :=
  { st with
    recs := st.recs.filter (fresh C now days)
    aged := st.aged ++ st.recs.filter fun r => !fresh C now days r }

/-- The data of `perf_export`: the lines of the records, if they fit. -/
def exportData (recs : List C.Rec) : Option Bytes :=
  let data := (recs.map C.line).flatten
  if data.length < 2 * SEGMENT_BYTES then some data else none

/-- Where `compact_history` splits the export: the newer part is what a segment
can take, from the start of a line on. -/
def splitAt (data : Bytes) : Nat :=
  if data.length ≤ SEGMENT_BYTES then 0
  else
    let n := data.length - SEGMENT_BYTES
    n + seekLine (data.getD (n - 1) 0) (data.drop n)

end GeistServe.Perf
