import GeistServe.Lib.Machine
import GeistServe.Perf.Journal

/-!
# The operations on the store

`p` of `performance.c`, as far as its mutex protects it: the records in memory,
the queue to the writer, the settings, the epoch and the counters. Each function
here is one section under that mutex. `perf_begin` gives a record its name and
the epoch it was begun in; `perf_submit` takes it in only in the same epoch.
-/

namespace GeistServe.Perf

open GeistServe.Lib

/-- A record between `perf_begin` and `perf_submit`. -/
structure Entry (C : Codec) where
  record : C.Rec
  enabled : Bool
  epoch : Nat

/-- The state under `p.mutex`. -/
structure Service (C : Codec) where
  st : Store C := {}
  queue : List C.Rec := []
  started : Bool := true
  enabled : Bool := true
  legacyDeleted : Bool := false
  days : Nat := 90
  epoch : Nat := 1
  sequence : Nat := 0
  dropped : Nat := 0
  persisted : Nat := 0

variable {C : Codec}

/-- `perf_begin`: the number of the record, and the epoch and the switch it is
begun under. -/
def Service.begin (p : Service C) : Service C × (Nat × Nat × Bool) :=
  ({ p with sequence := p.sequence + 1 }, (p.sequence + 1, p.epoch, p.enabled))

/-- What `perf_submit` asks of a record. -/
def Service.accepts (p : Service C) (now : Int) (e : Entry C) : Bool :=
  C.valid now e.record && (e.enabled && p.enabled && decide (e.epoch = p.epoch) &&
    fresh C now p.days e.record && !known p.st.recs (C.id e.record))

/-- `perf_submit`. -/
def Service.submit (p : Service C) (now : Int) (e : Entry C) : Service C :=
  if p.accepts now e then
    let p := { p with st := retain now p.days p.st e.record }
    if p.started && decide (p.queue.length < PERF_QUEUE) then
      { p with queue := p.queue ++ [e.record] }
    else { p with dropped := p.dropped + 1 }
  else p

/-- The section of `perf_import`, before it submits. -/
def Service.adopt (p : Service C) (r : C.Rec) : Entry C :=
  ⟨r, p.enabled && !p.legacyDeleted, p.epoch⟩

/-- `load`, of the records that were parsed. -/
def Service.load (p : Service C) (now : Int) (rs : List C.Rec) : Service C :=
  rs.foldl (fun p r =>
    if known p.st.recs (C.id r) then p
    else { p with st := retain now p.days p.st r, persisted := p.persisted + 1 }) p

/-- The section of `perf_settings`; `stored` says whether the settings are on
disk. -/
def Service.settings (p : Service C) (enabled : Bool) (days : Nat) (stored : Bool) : Service C :=
  if stored || !enabled then { p with enabled := enabled, days := days, epoch := p.epoch + 1 }
  else p

/-- The last section of `perf_clear`. -/
def Service.clear (p : Service C) : Service C :=
  { p with
    st := { p.st with recs := [] }
    queue := []
    legacyDeleted := true
    dropped := 0
    persisted := 0
    epoch := p.epoch + 1 }

/-- The section of `perf_export`; the records are the copy that it makes. -/
def Service.export (p : Service C) (now : Int) : Service C × List C.Rec :=
  let p := { p with st := prune now p.days p.st }
  (p, p.st.recs)

/-! ## The store over time -/

/-- The service with its clock. `log` are the records that were put into the
store since the last clear, in that order, and `exported` what the last export
copied; both are kept for the proofs. -/
structure Kept (C : Codec) where
  p : Service C
  now : Int
  log : List C.Rec := []
  exported : List C.Rec := []

/-- One operation on the store. -/
inductive Op (C : Codec) where
  | tick (n : Nat)
  | load (rs : List C.Rec)
  | submit (e : Entry C)
  | settings (enabled : Bool) (days : Nat) (stored : Bool)
  | export
  | clear

/-- The record, if `retain` puts it into the store. -/
def inserted (now : Int) (days : Nat) (st : Store C) (r : C.Rec) : List C.Rec :=
  if fresh C now days r && !known (st.recs.filter (fresh C now days)) (C.id r) then [r] else []

/-- The records that a load puts into the store. -/
def insertedAll (now : Int) (days : Nat) : Store C → List C.Rec → List C.Rec
  | _, [] => []
  | st, r :: rs =>
      if known st.recs (C.id r) then insertedAll now days st rs
      else inserted now days st r ++ insertedAll now days (retain now days st r) rs

def Kept.step (s : Kept C) : Op C → Option (Kept C)
  | .tick n => some { s with now := s.now + n }
  | .load rs =>
      some { s with
        p := s.p.load s.now rs
        log := s.log ++ insertedAll s.now s.p.days s.p.st rs }
  | .submit e =>
      some { s with
        p := s.p.submit s.now e
        log := s.log ++ if s.p.accepts s.now e then inserted s.now s.p.days s.p.st e.record else [] }
  | .settings enabled days stored =>
      if Retention days then some { s with p := s.p.settings enabled days stored } else none
  | .export => some { s with p := (s.p.export s.now).1, exported := (s.p.export s.now).2 }
  | .clear => some { s with p := s.p.clear, log := [] }

/-- The runs of the operations, from an empty store. -/
def keptMachine (C : Codec) : Machine (Kept C) (Op C) where
  init s := s.p.st.recs = [] ∧ s.log = [] ∧ s.exported = [] ∧ Retention s.p.days
  step := Kept.step

end GeistServe.Perf
