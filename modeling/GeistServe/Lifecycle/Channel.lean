import GeistServe.Lib.Machine
import GeistServe.Lib.Seqlock

/-!
# The lifecycle channel

A page of words that the daemon writes and the app reads. Every load, store and
increment of a word is one step, and the threads take steps in any order: the
daemon's main thread (`lifecycle_inherit`, then `lifecycle_phase` again and
again), the threads that capture the memory in use (the sampler, and the main
thread at the boundaries of a request; a flag lets one in at a time), and any
number of readers in the app. What is local to a thread, such as the look at the
clock, is part of the step before the word that it is for.
-/

namespace GeistServe.Lifecycle

open GeistServe.Lib

/-- The words are 64 bits wide, the sequences among them. -/
def HALF : Nat := 2 ^ 63

def LC_PHASES : Nat := 6

/-- The words that `lifecycle_memory_write` writes. -/
inductive Field where
  | time | bytes | status | source | unified
  deriving DecidableEq

/-- In the order of the stores and of the loads. -/
def fields : List Field := [.time, .bytes, .status, .source, .unified]

/-- `struct lifecycle_shared`: `sequence` with `phase_ns`, and `memory_sequence`
with the five words of a sample. -/
structure Page where
  generation : Nat
  process : Nat := 0
  startedNs : Nat := 0
  phases : Lock (Fin LC_PHASES) := {}
  memory : Lock Field := {}

/-- The part of `struct lifecycle_memory` that is sampled. -/
structure Sample where
  sampledNs : Nat
  allocatedBytes : Nat
  status : UInt32
  source : UInt32
  unified : Bool
  deriving DecidableEq

def Sample.word (w : Sample) : Field → Nat
  | .time => w.sampledNs
  | .bytes => w.allocatedBytes
  | .status => w.status.toNat
  | .source => w.source.toNat
  | .unified => w.unified.toNat

/-- What `geist_backend_resources_snapshot` answers. -/
inductive Resources where
  | ok (allocatedBytes : Nat) (source : UInt32) (unified : Bool)
  | unsupported
  | failed
  deriving DecidableEq

/-- The sample of `resource_sampler_capture`. -/
def sampled (now : Nat) : Resources → Sample
  | .ok bytes source unified => ⟨now, bytes, 1, source, unified⟩
  | .unsupported => ⟨now, 0, 2, 0, false⟩
  | .failed => ⟨now, 0, 3, 0, false⟩

/-! ## Threads -/

/-- The main thread: before and in `lifecycle_inherit`, between calls of
`lifecycle_phase`, and in one. -/
inductive MainPc where
  | unborn | born | idle
  | enter (phase : Fin LC_PHASES)
  | store (phase : Fin LC_PHASES)
  | leave
  deriving DecidableEq

/-- A call of `resource_sampler_capture`. -/
inductive CapturePc where
  | idle | held
  | enter (w : Sample)
  | store (w : Sample) (todo : List Field)
  | clear
  deriving DecidableEq

/-- A `struct lifecycle_snapshot`. -/
structure Snapshot where
  generation : Nat
  process : Nat
  startedNs : Nat
  phaseNs : Fin LC_PHASES → Nat

/-- A call of `lifecycle_read` for a generation, at its attempt number `n`. -/
inductive ReadPc where
  | idle
  | sequence (g n : Nat)
  | generation (g n : Nat) (r : Reading (Fin LC_PHASES))
  | process (g n : Nat) (r : Reading (Fin LC_PHASES))
  | started (g n : Nat) (r : Reading (Fin LC_PHASES)) (process : Nat)
  | words (g n : Nat) (r : Reading (Fin LC_PHASES)) (process started : Nat)
  | returned (out : Option Snapshot)

/-- A call of `lifecycle_memory_read`. -/
inductive MemoryPc where
  | idle
  | generation (g n : Nat)
  | process (g n gen : Nat)
  | sequence (g n gen process : Nat)
  | words (g n : Nat) (r : Reading Field)
  | returned (out : Option Sample)

/-- The page, the sampler's flag and the threads. `written` are the samples whose
write has begun, for the proofs. -/
structure Channel where
  page : Page
  writing : Bool := false
  main : MainPc := .unborn
  captures : Nat → CapturePc := fun _ => .idle
  readers : Nat → ReadPc := fun _ => .idle
  memoryReaders : Nat → MemoryPc := fun _ => .idle
  written : List Sample := []

/-- A step of one thread, with what the system answers in it: `n` is the process
number or the clock. -/
inductive Act where
  | main (n : Nat)
  | phase (phase : Nat)
  | capture (k now : Nat) (resources : Resources)
  | read (k g : Nat)
  | memoryRead (k g : Nat)

/-! ## Writers -/

/-- `lifecycle_inherit` and `lifecycle_phase`, step by step. -/
def Channel.stepMain (s : Channel) (n : Nat) : Option Channel :=
  match s.main with
  | .unborn => some { s with page := { s.page with process := n }, main := .born }
  | .born => some { s with page := { s.page with startedNs := n }, main := .idle }
  | .idle => none
  | .enter phase =>
      some { s with
        page := { s.page with phases := s.page.phases.enter HALF }
        main := .store phase }
  | .store phase =>
      some { s with
        page := { s.page with phases := s.page.phases.store phase n }
        main := .leave }
  | .leave =>
      some { s with
        page := { s.page with phases := s.page.phases.leave HALF }
        main := .idle }

/-- The call of `lifecycle_phase`, with its look at the phase's time. -/
def Channel.callPhase (s : Channel) (phase : Nat) : Option Channel :=
  if s.main = .idle then
    if h : 0 < phase ∧ phase < LC_PHASES then
      if s.page.phases.words ⟨phase, h.2⟩ ≠ 0 then some s
      else some { s with main := .enter ⟨phase, h.2⟩ }
    else some s
  else none

/-- `resource_sampler_capture`, step by step. -/
def Channel.stepCapture (s : Channel) (k now : Nat) (resources : Resources) : Channel :=
  let goes (pc : CapturePc) := Function.update s.captures k pc
  match s.captures k with
  | .idle =>
      if s.writing then s else { s with writing := true, captures := goes .held }
  | .held => { s with captures := goes (.enter (sampled now resources)) }
  | .enter w =>
      { s with
        page := { s.page with memory := s.page.memory.enter HALF }
        captures := goes (.store w fields)
        written := s.written ++ [w] }
  | .store w (f :: todo) =>
      { s with
        page := { s.page with memory := s.page.memory.store f (w.word f) }
        captures := goes (.store w todo) }
  | .store _ [] =>
      { s with
        page := { s.page with memory := s.page.memory.leave HALF }
        captures := goes .clear }
  | .clear => { s with writing := false, captures := goes .idle }

/-! ## Readers -/

/-- The start of an attempt of `lifecycle_read`. -/
def attempt (g n : Nat) : ReadPc := if n < 3 then .sequence g n else .returned none

/-- `lifecycle_read`, step by step. -/
def Channel.stepRead (s : Channel) (g : Nat) : ReadPc → ReadPc
  | .idle | .returned _ => attempt g 0
  | .sequence g n => .generation g n (s.page.phases.look (List.finRange LC_PHASES))
  | .generation g n r =>
      if s.page.generation ≠ g ∨ r.seq % 2 = 1 then attempt g (n + 1) else .process g n r
  | .process g n r => .started g n r s.page.process
  | .started g n r process => .words g n r process s.page.startedNs
  | .words g n r process started =>
      match r.todo with
      | i :: todo => .words g n (r.take s.page.phases i todo) process started
      | [] =>
          if r.seq = s.page.phases.seq ∧ process ≠ 0 ∧ started ≠ 0 then
            .returned (some ⟨g, process, started, r.got⟩)
          else attempt g (n + 1)

/-- The start of an attempt of `lifecycle_memory_read`. -/
def memoryAttempt (g n : Nat) : MemoryPc := if n < 3 then .generation g n else .returned none

/-- The sample that was read. -/
def Reading.sample (r : Reading Field) : Sample where
  sampledNs := r.got .time
  allocatedBytes := r.got .bytes
  status := UInt32.ofNat (r.got .status)
  source := UInt32.ofNat (r.got .source)
  unified := decide (r.got .unified ≠ 0)

/-- `lifecycle_memory_read`, step by step. -/
def Channel.stepMemory (s : Channel) (g : Nat) : MemoryPc → MemoryPc
  | .idle | .returned _ => memoryAttempt g 0
  | .generation g n => .process g n s.page.generation
  | .process g n gen => .sequence g n gen s.page.process
  | .sequence g n gen process =>
      let seq := s.page.memory.seq
      if gen ≠ g ∨ seq % 2 = 1 ∨ seq = 0 ∨ process = 0 then memoryAttempt g (n + 1)
      else .words g n (s.page.memory.look fields)
  | .words g n r =>
      match r.todo with
      | f :: todo => .words g n (r.take s.page.memory f todo)
      | [] =>
          let out := Reading.sample r
          if r.seq = s.page.memory.seq ∧ out.sampledNs ≠ 0 ∧ out.status ≤ 3 ∧ out.source ≤ 1 then
            .returned (some out)
          else memoryAttempt g (n + 1)

/-! ## The machine -/

def Channel.step (s : Channel) : Act → Option Channel
  | .main n => s.stepMain n
  | .phase phase => s.callPhase phase
  | .capture k now resources => some (s.stepCapture k now resources)
  | .read k g => some { s with readers := Function.update s.readers k (s.stepRead g (s.readers k)) }
  | .memoryRead k g =>
      some { s with
        memoryReaders := Function.update s.memoryReaders k (s.stepMemory g (s.memoryReaders k)) }

/-- A page as `lifecycle_create` leaves it. -/
def Channel.fresh (generation : Nat) : Channel := { page := { generation := generation } }

/-- The runs of a channel. -/
def channelMachine : Machine Channel Act where
  init s := ∃ generation, s = Channel.fresh generation
  step := Channel.step

end GeistServe.Lifecycle
