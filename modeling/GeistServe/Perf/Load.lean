import GeistServe.Lib.Fgets
import GeistServe.Perf.Journal
import GeistServe.Perf.Text

/-!
# Loading a segment, line by line

`readSegment` says which records `load` finds. Here is the loop itself, with what it counts:
it looks for the newline of each piece that `fgets` gives, drops the rest of a line whose end
it has not seen, and counts a line that it cannot use. `judgeLine` is what one whole line
should come to, whatever stands around it.
-/

namespace GeistServe.Perf

open GeistServe.Lib GeistServe.Geistd GeistServe.Json

/-- The seconds of a record, which the retention compares with a whole number. -/
def seconds : Double → Int
  | .fin q => q.floor
  | _ => 0

/-- The records as `record_json` and `parse` have them. -/
def textCodec : Codec where
  Rec := PerfRecord
  decEq := inferInstance
  id := PerfRecord.id
  timestamp r := seconds r.timestamp
  line := recordJson
  decode l := (jsonParse l).bind readRecord
  valid := PerfRecord.valid

variable {C : Codec}

/-- `parse`. -/
def parseLine (C : Codec) (now : Int) (l : Bytes) : Option C.Rec :=
  (C.decode l).filter (C.valid now)

/-- What a load changes. `outcomes` is kept for the proofs: what each line came to, the record
that it gave or `none` for one that was counted invalid. -/
structure Loaded (C : Codec) where
  st : Store C := {}
  invalid : Nat := 0
  persisted : Nat := 0
  error : Bool := false
  outcomes : List (Option C.Rec) := []

def Loaded.bad (p : Loaded C) : Loaded C :=
  { p with invalid := p.invalid + 1, outcomes := p.outcomes ++ [none] }

/-- A record that is not known yet is retained. -/
def Loaded.good (now : Int) (days : Nat) (p : Loaded C) (r : C.Rec) : Loaded C :=
  if known p.st.recs (C.id r) then { p with outcomes := p.outcomes ++ [some r] }
  else
    { p with
      st := retain now days p.st r
      persisted := p.persisted + 1
      outcomes := p.outcomes ++ [some r] }

/-- One turn of the loop, with `dropping`. -/
def loadPiece (now : Int) (days : Nat) (p : Loaded C × Bool) (piece : Bytes) : Loaded C × Bool :=
  let newline := endSeen piece
  if p.2 then (p.1, !newline)
  else if newline then
    match parseLine C now (piece.takeWhile (· ≠ 0)) with
    | none => (p.1.bad, false)
    | some r => (p.1.good now days r, false)
  else (p.1.bad, true)

/-- `load`, of a segment that there is or is not. -/
def load (now : Int) (days : Nat) (p : Loaded C) : Option Bytes → Loaded C
  | none => p
  | some bs =>
      if bs.length > SEGMENT_BYTES then { p with error := true }
      else ((fgetsAll LINE_CAP [] bs).foldl (loadPiece now days) (p, false)).1

/-! ## What it is for -/

/-- The record of a line: it ends in a newline, fits the buffer, has no NUL and parses. -/
def lineRecord (C : Codec) (now : Int) (l : Bytes) : Option C.Rec :=
  if l.getLast? = some newline ∧ l.length < LINE_CAP ∧ (0 : UInt8) ∉ l then parseLine C now l
  else none

/-- What one line should come to. -/
def judgeLine (now : Int) (days : Nat) (p : Loaded C) (l : Bytes) : Loaded C :=
  match lineRecord C now l with
  | none => p.bad
  | some r => p.good now days r

end GeistServe.Perf
