import GeistServe.Perf.Service

/-!
# The writer and the calls beside it

`Service` has what `p.mutex` protects, one section at a time. Here the sections of the calls and
of the writer's loop follow each other in any order, as far as the two locks let them. The disk
lock is held over several sections, by the writer from the entry that it takes to the count of it,
by `perf_settings` over its compaction, by `perf_clear` from the settings file to its last
section; `Phase` is what the holder does next. The file work is the journal's.

A call that waits for the disk lock has changed nothing yet, so it is not there before it has
the lock. What a call to the system comes to is in the action.
-/

namespace GeistServe.Perf

open GeistServe.Lib

/-- What `perf_begin` and `perf_import` leave in a record. `clears` and `changes`, the clears and
the settings that took effect before, are kept for the proofs. -/
structure Ticket where
  enabled : Bool
  epoch : Nat
  clears : Nat
  changes : Nat
  deriving DecidableEq

/-- A record that was taken in, kept for the proofs: its ticket, and the clears and settings there
were when it was taken. -/
structure Taken (C : Codec) where
  record : C.Rec
  ticket : Ticket
  clears : Nat
  changes : Nat

/-- Where the writer's loop is. -/
inductive WriterAt where
  | waiting | going | busy | ended
  deriving DecidableEq

/-- What a compaction is part of. -/
inductive After (C : Codec) where
  | count (r : C.Rec)
  | nothing
  | settings

/-- What the holder of `p.disk` does next. -/
inductive Phase (C : Codec) where
  | free
  | append (r : C.Rec)
  | count (r : C.Rec) (stored : Bool)
  | copy (next : After C)
  | replace (next : After C) (recs : List C.Rec)
  | settings (enabled : Bool) (days : Nat) (stored : Bool)
  | unlink (stored : Bool)
  | clear (ok : Bool)

structure Ledger (C : Codec) where
  p : Service C
  dir : Dir Name
  now : Int
  closing : Bool := false
  writer : WriterAt := .waiting
  phase : Phase C := .free
  tickets : List Ticket := []
  -- The rest is kept for the proofs. `scrubbed` are the clears there were when one had last
  -- returned true; `sent` and `written` go back to the last clear, `loaded` and `spilled` too.
  clears : Nat := 0
  changes : Nat := 0
  scrubbed : Nat := 0
  taken : List (Taken C) := []
  sent : List C.Rec := []
  written : List (C.Rec × Bool) := []
  loaded : Nat := 0
  spilled : Nat := 0

variable {C : Codec}

/-- What the file work of a section meets. -/
structure World where
  due : Bool := false
  memory : Bool := true
  cut : Option Nat := none
  cleans : Bool := true
  unlinks : Name → Bool := fun _ => true
  others : Bool := true

/-- `perf_submit`, of a record that was begun with the ticket. -/
def Ledger.submit (s : Ledger C) (t : Ticket) (r : C.Rec) : Ledger C :=
  let e : Entry C := ⟨r, t.enabled, t.epoch⟩
  if s.p.accepts s.now e then
    let queued := s.p.started && decide (s.p.queue.length < PERF_QUEUE)
    { s with
      p := s.p.submit s.now e
      taken := s.taken ++ [⟨r, t, s.clears, s.changes⟩]
      sent := if queued then s.sent ++ [r] else s.sent
      spilled := if queued then s.spilled else s.spilled + 1 }
  else s

/-- The first section of the writer under the disk lock: an entry, if there is one. -/
def Ledger.take (s : Ledger C) (due : Bool) : Ledger C :=
  match s.p.queue with
  | r :: rest => { s with p := { s.p with queue := rest }, writer := .busy, phase := .append r }
  | [] =>
      if due then { s with writer := .busy, phase := .copy .nothing }
      else { s with writer := .waiting }

/-- What follows a compaction. -/
def Ledger.resume (s : Ledger C) : After C → Ledger C
  | .count r => { s with phase := .count r true }
  | .nothing => { s with writer := .waiting, phase := .free }
  | .settings => { s with phase := .free }

/-- The files of `compact_history`, from the copy of `perf_export`. -/
def replaceFiles (d : Dir Name) (recs : List C.Rec) (w : World) : Dir Name :=
  match (if w.memory then exportData recs else none) with
  | none => d
  | some data =>
      if splitAt data > SEGMENT_BYTES then d
      else
        let (d', ok) := perform w.cut (compactOps data) d
        if w.cleans && !ok then cleaned d d' else d'

/-- The files that `perf_clear` leaves. -/
def unlinked (d : Dir Name) (w : World) : Dir Name := fun n =>
  if (n = .current ∨ n = .previous) ∧ w.unlinks n = true then none else d n

/-- The next section of the one that holds the disk lock. -/
def Ledger.proceed (s : Ledger C) (w : World) : Option (Ledger C) :=
  match s.phase with
  | .free => none
  | .append r =>
      let (d, stored) := append C s.dir r w.cut
      some { s with
        dir := d
        phase := if stored && w.due then .copy (.count r) else .count r stored }
  | .count r stored =>
      some { s with
        p := if stored then { s.p with persisted := s.p.persisted + 1 }
          else { s.p with dropped := s.p.dropped + 1 }
        writer := .waiting
        phase := .free
        written := s.written ++ [(r, stored)] }
  | .copy next =>
      if w.memory then
        let (p, recs) := s.p.export s.now
        some { s with p := p, phase := .replace next recs }
      else some (s.resume next)
  | .replace next recs => some ({ s with dir := replaceFiles s.dir recs w }.resume next)
  | .settings enabled days stored =>
      some { s with
        p := s.p.settings enabled days stored
        changes := if stored || !enabled then s.changes + 1 else s.changes
        phase := if stored then .copy .settings else .free }
  | .unlink stored =>
      some { s with
        dir := unlinked s.dir w
        phase := .clear (stored && w.unlinks .current && w.unlinks .previous && w.others) }
  | .clear ok =>
      some { s with
        p := s.p.clear
        phase := .free
        clears := s.clears + 1
        scrubbed := if ok then s.clears + 1 else s.scrubbed
        sent := []
        written := []
        loaded := 0
        spilled := 0 }

/-- A section of a call or of the writer. -/
inductive Deed (C : Codec) where
  | tick (n : Nat)
  | begin
  | adopt
  | submit (t : Ticket) (r : C.Rec)
  | exports
  | settings (enabled : Bool) (days : Nat) (stored : Bool)
  | clear (stored : Bool)
  | wake
  | take (due : Bool)
  | proceed (w : World)
  | close

/-- The disk lock is free. -/
def Phase.isFree : Phase C → Bool
  | .free => true
  | _ => false

/-- The writer has the disk lock. -/
def Phase.writers : Phase C → Bool
  | .append _ | .count _ _ => true
  | .copy (.count _) | .copy .nothing => true
  | .replace (.count _) _ | .replace .nothing _ => true
  | _ => false

/-- One section. The app closes the history when all threads but the writer have ended, so no
call is made behind that. -/
def Ledger.step (s : Ledger C) : Deed C → Option (Ledger C)
  | .tick n => some { s with now := s.now + n }
  | .begin =>
      if s.closing then none
      else
        let (p, _, epoch, enabled) := s.p.begin
        some { s with
          p := p, tickets := s.tickets ++ [⟨enabled, epoch, s.clears, s.changes⟩] }
  | .adopt =>
      if s.closing then none
      else some { s with
        tickets := s.tickets ++
          [⟨s.p.enabled && !s.p.legacyDeleted, s.p.epoch, s.clears, s.changes⟩] }
  | .submit t r => if s.closing = false ∧ t ∈ s.tickets then some (s.submit t r) else none
  | .exports => if s.closing then none else some { s with p := (s.p.export s.now).1 }
  | .settings enabled days stored =>
      if s.closing = false ∧ s.phase.isFree ∧ Retention days then
        some { s with phase := .settings enabled days stored }
      else none
  | .clear stored =>
      if s.closing = false ∧ s.phase.isFree then some { s with phase := .unlink stored } else none
  | .wake =>
      if s.writer = .waiting then
        if s.closing ∧ s.p.queue = [] then some { s with writer := .ended }
        else some { s with writer := .going }
      else none
  | .take due => if s.writer = .going ∧ s.phase.isFree then some (s.take due) else none
  | .proceed w => s.proceed w
  | .close =>
      if s.closing = false ∧ (s.phase.isFree ∨ s.phase.writers) then
        some { s with closing := true }
      else none

/-- The runs from a history that was just loaded, with its writer. -/
def ledgerMachine (C : Codec) : Machine (Ledger C) (Deed C) where
  init s := s.p.queue = [] ∧ s.p.started = true ∧ s.p.dropped = 0 ∧ s.loaded = s.p.persisted ∧
    s.closing = false ∧ s.writer = .waiting ∧ s.phase = .free ∧ s.tickets = [] ∧ s.clears = 0 ∧
    s.changes = 0 ∧ s.scrubbed = 0 ∧ s.taken = [] ∧ s.sent = [] ∧ s.written = [] ∧ s.spilled = 0
  step := Ledger.step

end GeistServe.Perf
