import GeistServe.Lib.Files
import GeistServe.Lib.Machine
import GeistServe.Perf.Store

/-!
# The performance journal

Two segments on disk, `observations.1.jsonl` and `observations.jsonl`, and one
writer. `append` adds a line and rotates the segments, `compact_history` writes
the store over both, `perf_init` reads them back and seals a torn line.

Every function gets its file work as a list of operations and a cut: the number
of operations that are done before a call fails or the process ends.
-/

namespace GeistServe.Perf

open GeistServe.Lib

/-- `observations.jsonl` and `observations.1.jsonl`, and the files they are
replaced from. -/
inductive Name where
  | current | previous | currentTmp | previousTmp
  deriving DecidableEq

/-- The journal. Three fields are kept for the proofs: whether the load of this
process read both segments to their ends, the records that were ever submitted,
and those that are owed: `append` returned true for them, and since then they
were neither rotated out nor cleared, nor found expired or pushed out of the
store by its cap. -/
structure Journal (C : Codec) where
  dir : Dir Name
  st : Store C
  queue : List C.Rec
  days : Nat
  now : Int
  whole : Bool
  used : List C.Rec
  owed : List C.Rec

variable {C : Codec}

/-! ## append -/

/-- The line does not fit the current segment. -/
def rotates (d : Dir Name) (line : Bytes) : Bool :=
  decide (((d .current).getD []).length + line.length > SEGMENT_BYTES)

def appendOps (d : Dir Name) (line : Bytes) : List (FileOp Name) :=
  .create .current ::
    ((if rotates d line then [.rename .current .previous, .createNew .current, .syncDir]
      else []) ++
    (line.map (FileOp.put .current) ++ [.sync .current]))

/-- `append`. -/
def append (C : Codec) (d : Dir Name) (r : C.Rec) (cut : Option Nat) : Dir Name × Bool :=
  if LINE_CAP ≤ (C.line r).length then (d, false)
  else perform cut (appendOps d (C.line r)) d

/-- The append goes as far as to rename the current segment. -/
def rotated (C : Codec) (d : Dir Name) (r : C.Rec) (cut : Option Nat) : Bool :=
  decide ((C.line r).length < LINE_CAP) && rotates d (C.line r) &&
    cut.all fun k => decide (2 ≤ k)

/-! ## compact_history -/

def compactOps (data : Bytes) : List (FileOp Name) :=
  replaceOps .previousTmp .previous (data.take (splitAt data)) ++
    replaceOps .currentTmp .current (data.drop (splitAt data))

/-- What `compact_history` writes; `none` when it gives up before it touches a
file. -/
def compactData (C : Codec) (now : Int) (days : Nat) (recs : List C.Rec) : Option Bytes :=
  (exportData (recs.filter (fresh C now days))).bind fun data =>
    if splitAt data > SEGMENT_BYTES then none else some data

/-- A step that failed removes the temporary file that it made. -/
def cleaned (before d : Dir Name) : Dir Name := fun n =>
  if (n = .currentTmp ∨ n = .previousTmp) ∧ before n = none then none else d n

/-- `compact_history`: whether there is memory for the export, the cut of the
file work, and whether a failed step removes its temporary file. -/
def compactHistory (j : Journal C) (memory : Bool) (cut : Option Nat) (cleans : Bool) :
    Journal C :=
  let st := prune j.now j.days j.st
  match if memory then compactData C j.now j.days j.st.recs else none with
  | none => { j with st := st }
  | some data =>
      match perform cut (compactOps data) j.dir with
      | (d, ok) => { j with st := st, dir := if cleans && !ok then cleaned j.dir d else d }

/-- What `compact_history` returns. -/
def compactReturns (j : Journal C) (memory : Bool) (cut : Option Nat) : Bool :=
  match if memory then compactData C j.now j.days j.st.recs else none with
  | none => false
  | some data => (perform cut (compactOps data) j.dir).2

/-! ## perf_init -/

/-- A line that was left without its newline gets one. -/
def sealTail (d : Dir Name) : Dir Name :=
  match d .current with
  | some bs =>
      if bs = [] ∨ bs.getLast? = some newline then d
      else Function.update d .current (some (bs ++ [newline]))
  | none => d

/-- What a start of the app meets: the retention of the settings, where reading
a segment stops, and which of its writes succeed. -/
structure Start where
  days : Nat
  removes : Bool := true
  upToPrevious : Option Nat := none
  upToCurrent : Option Nat := none
  memory : Bool := true
  cut : Option Nat := none
  cleans : Bool := true
  seals : Bool := true

/-- Both calls of `load`. -/
def loadBoth (C : Codec) (now : Int) (days : Nat) (upToPrevious upToCurrent : Option Nat)
    (d : Dir Name) : Store C :=
  loadRecords now days {} (readSegment C now upToPrevious (d .previous) ++
    readSegment C now upToCurrent (d .current))

/-- The state behind both loads. -/
def loaded (j : Journal C) (f : Start) : Journal C :=
  let dir := if f.removes then Function.update (Function.update j.dir .currentTmp none)
    .previousTmp none else j.dir
  { j with
    dir := dir
    st := loadBoth C j.now f.days f.upToPrevious f.upToCurrent dir
    queue := []
    days := f.days
    whole := f.upToPrevious.isNone && f.upToCurrent.isNone }

/-- `perf_init`, in a new process. -/
def perfInit (j : Journal C) (f : Start) : Journal C :=
  let j := loaded j f
  let j := if j.st.expired then compactHistory j f.memory f.cut f.cleans else j
  { j with dir := if f.seals then sealTail j.dir else j.dir }

/-! ## The journal over time -/

/-- `perf_submit`. -/
def perfSubmit (j : Journal C) (r : C.Rec) : Journal C :=
  if C.valid j.now r && fresh C j.now j.days r && !known j.st.recs (C.id r) then
    { j with
      st := retain j.now j.days j.st r
      queue := if j.queue.length < PERF_QUEUE then j.queue ++ [r] else j.queue }
  else j

inductive Act (C : Codec) where
  | tick (n : Nat)
  | submit (r : C.Rec)
  | write (cut : Option Nat)
  | compact (memory : Bool) (cut : Option Nat) (cleans : Bool)
  | settings (days : Nat)
  | clear (unlinks : Name → Bool)
  | restart (f : Start)

/-- The retentions there are. -/
def Retention (days : Nat) : Prop := days = 30 ∨ days = 90 ∨ days = 365

instance (days : Nat) : Decidable (Retention days) := by unfold Retention; infer_instance

/-- What was found expired or was pushed out is not owed any more. -/
def settle (j : Journal C) : Journal C :=
  { j with owed := j.owed.filter fun r => decide (r ∉ j.st.aged) && decide (r ∉ j.st.shed) }

/-- The writer takes the first record of the queue and appends it. A rotation
ends what is owed of the old segment. -/
def writeNext (j : Journal C) (r : C.Rec) (rest : List C.Rec) (cut : Option Nat) :
    Journal C :=
  match append C j.dir r cut with
  | (d, ok) =>
      let owed := if rotated C j.dir r cut then
          j.owed.filter fun r => decide (r ∈ records C j.now ((j.dir .current).getD []))
        else j.owed
      { j with dir := d, queue := rest, owed := if ok then owed ++ [r] else owed }

/-- One step. `perf_begin` gives every record an id of its own. -/
def Journal.step (j : Journal C) : Act C → Option (Journal C)
  | .tick n => some { j with now := j.now + n }
  | .submit r =>
      if known j.used (C.id r) then none
      else some (settle { perfSubmit j r with used := r :: j.used })
  | .write cut =>
      match j.queue with
      | [] => none
      | r :: rest => some (settle (writeNext j r rest cut))
  | .compact memory cut cleans => some (settle (compactHistory j memory cut cleans))
  | .settings days => if Retention days then some { j with days := days } else none
  | .clear unlinks =>
      some { j with
        dir := fun n =>
          if (n = .current ∨ n = .previous) ∧ unlinks n = true then none else j.dir n
        st := { expired := j.st.expired }, queue := [], owed := [] }
  | .restart f => if Retention f.days then some (settle (perfInit j f)) else none

/-- The runs of the journal, from an empty directory. -/
def journalMachine (C : Codec) : Machine (Journal C) (Act C) where
  init j := (∀ n, j.dir n = none) ∧ j.st = {} ∧ j.queue = [] ∧ j.used = [] ∧ j.owed = [] ∧
    j.whole = true ∧ Retention j.days
  step := Journal.step

end GeistServe.Perf
