import GeistServe.Lifecycle.Channel

/-!
# What a reader of the channel gets

Each half of the page is a sequence lock of `Lib/Seqlock.lean`. The phases have
one writer, the main thread; the memory words have several, and the sampler's flag
makes them one (`ChannelOk.others`, `ChannelOk.flag`). The readers are in order as long as
what they took fits the lock, and every step of a writer keeps that.

The sequences are 64 bits wide, so a reader cannot tell that half of all their
values went by between its two looks; `reads_hold_together` says what holds short
of that, and `torn_after_wrap` is the run that it leaves out.
-/

namespace GeistServe.Proofs

open GeistServe.Lib GeistServe.Lifecycle

/-! ## The invariant -/

/-- Is the main thread between the two increments? -/
def mainBusy : MainPc → Bool
  | .store _ | .leave => true
  | _ => false

def captureBusy : CapturePc → Bool
  | .store _ _ => true
  | _ => false

/-- The memory words, seen from the only thread that may be in a capture. -/
def SampleStands (l : Lock Field) (written : List Sample) : CapturePc → Prop
  | .store w todo => w ∈ written ∧ ∀ f, f ∉ todo → l.words f = w.word f
  | _ => l.begun = 0 ∨ ∃ w ∈ written, l.words = w.word

/-- A reader of the phases is in order; `F` is what its reading is known to
satisfy. -/
def ReadOk (generation : Nat) (F : Reading (Fin LC_PHASES) → Prop) : ReadPc → Prop
  | .generation _ _ r => r.seq % 2 = 0 → F r
  | .process g _ r | .started g _ r _ | .words g _ r _ _ => F r ∧ generation = g
  | _ => True

def MemoryOk (F : Reading Field → Prop) : MemoryPc → Prop
  | .words _ _ r => F r ∧ r.seq ≠ 0
  | _ => True

/-- The channel is in order; `k` is the only thread that may be in a capture. -/
structure ChannelOk (s : Channel) (k : Nat) : Prop where
  others : ∀ j, j ≠ k → s.captures j = .idle
  flag : s.writing = decide (s.captures k ≠ .idle)
  memory : s.page.memory.Counts HALF (captureBusy (s.captures k))
  stands : SampleStands s.page.memory s.written (s.captures k)
  phases : s.page.phases.Counts HALF (mainBusy s.main)
  unset : ∀ p, s.main = .enter p ∨ s.main = .store p → s.page.phases.words p = 0
  readers : ∀ i, ReadOk s.page.generation
    (fun r => r.Fits HALF s.page.phases (mainBusy s.main)) (s.readers i)
  memoryReaders : ∀ i, MemoryOk
    (fun r => r.Fits HALF s.page.memory (captureBusy (s.captures k))) (s.memoryReaders i)

theorem ReadOk.mono {generation : Nat} {F F' : Reading (Fin LC_PHASES) → Prop}
    (h : ∀ r, F r → F' r) {pc : ReadPc} (hpc : ReadOk generation F pc) :
    ReadOk generation F' pc := by
  cases pc with
  | generation g n r => exact fun heven => h r (hpc heven)
  | process | started | words => exact ⟨h _ hpc.1, hpc.2⟩
  | idle | sequence | returned => trivial

theorem MemoryOk.mono {F F' : Reading Field → Prop} (h : ∀ r, F r → F' r) {pc : MemoryPc}
    (hpc : MemoryOk F pc) : MemoryOk F' pc := by
  cases pc with
  | words g n r => exact ⟨h r hpc.1, hpc.2⟩
  | idle | generation | process | sequence | returned => trivial

theorem sound_fresh (generation k : Nat) : ChannelOk (Channel.fresh generation) k where
  others := fun _ _ => rfl
  flag := rfl
  memory := .new
  stands := .inl rfl
  phases := .new
  unset := by
    rintro p (h | h) <;> cases h
  readers := fun _ => trivial
  memoryReaders := fun _ => trivial

/-! ## Writers -/

theorem stepMain_sound {s s' : Channel} {k n : Nat} (h : ChannelOk s k)
    (hstep : s.stepMain n = some s') : ChannelOk s' k := by
  obtain ⟨others, flag, memory, stands, phases, unset, readers, memoryReaders⟩ := h
  unfold Channel.stepMain at hstep
  cases hmain : s.main with
  | unborn =>
      rw [hmain] at hstep phases readers
      cases hstep
      refine ⟨others, flag, memory, stands, phases, ?_, readers, memoryReaders⟩
      rintro p (h | h) <;> cases h
  | born =>
      rw [hmain] at hstep phases readers
      cases hstep
      refine ⟨others, flag, memory, stands, phases, ?_, readers, memoryReaders⟩
      rintro p (h | h) <;> cases h
  | idle =>
      rw [hmain] at hstep
      cases hstep
  | enter p =>
      rw [hmain] at hstep phases readers
      cases hstep
      refine ⟨others, flag, memory, stands, phases.enter, ?_, fun i => (readers i).mono ?_,
        memoryReaders⟩
      · rintro q (h | h)
        · cases h
        · cases h
          exact unset p (.inl hmain)
      · exact fun r hr => hr.enter
  | store p =>
      rw [hmain] at hstep phases readers
      cases hstep
      refine ⟨others, flag, memory, stands, phases.store p n, ?_, fun i => (readers i).mono ?_,
        memoryReaders⟩
      · rintro q (h | h) <;> cases h
      · exact fun r hr => hr.store p n
  | leave =>
      rw [hmain] at hstep phases readers
      cases hstep
      refine ⟨others, flag, memory, stands, phases.leave, ?_, fun i => (readers i).mono ?_,
        memoryReaders⟩
      · rintro q (h | h) <;> cases h
      · exact fun r hr => hr.leave

theorem callPhase_sound {s s' : Channel} {k phase : Nat} (h : ChannelOk s k)
    (hstep : s.callPhase phase = some s') : ChannelOk s' k := by
  unfold Channel.callPhase at hstep
  split at hstep
  · next hidle =>
      split at hstep
      · next hphase =>
          split at hstep
          · cases hstep
            exact h
          · next hzero =>
              cases hstep
              obtain ⟨others, flag, memory, stands, phases, unset, readers, memoryReaders⟩ := h
              rw [hidle] at phases readers
              refine ⟨others, flag, memory, stands, phases, ?_, readers, memoryReaders⟩
              rintro p (h | h)
              · cases h
                exact not_not.mp hzero
              · cases h
      · cases hstep
        exact h
  · cases hstep

/-- A thread that finds the flag set goes away again. -/
theorem stepCapture_other {s : Channel} {j k now : Nat} {resources : Resources} (h : ChannelOk s k)
    (hj : j ≠ k) (hbusy : s.captures k ≠ .idle) : s.stepCapture j now resources = s := by
  have hwriting : s.writing = true := by rw [h.flag, decide_eq_true hbusy]
  unfold Channel.stepCapture
  rw [h.others j hj]
  simp only [hwriting, if_true]

/-- A step of the thread that may be in a capture. -/
theorem ChannelOk.moved {s : Channel} {k : Nat} (h : ChannelOk s k) (pc : CapturePc) (memory : Lock Field)
    (written : List Sample) (hcounts : memory.Counts HALF (captureBusy pc))
    (hstands : SampleStands memory written pc)
    (hfits : ∀ r : Reading Field, r.Fits HALF s.page.memory (captureBusy (s.captures k)) →
      r.Fits HALF memory (captureBusy pc)) :
    ChannelOk { s with
      page := { s.page with memory := memory }
      writing := decide (pc ≠ .idle)
      captures := Function.update s.captures k pc
      written := written } k := by
  have hself : Function.update s.captures k pc k = pc := Function.update_self ..
  refine ⟨fun j hj => ?_, ?_, ?_, ?_, h.phases, h.unset, h.readers, fun i => ?_⟩
  · exact (Function.update_of_ne hj ..).trans (h.others j hj)
  · simp only [hself]
  · simp only [hself]
    exact hcounts
  · simp only [hself]
    exact hstands
  · simp only [hself]
    exact (h.memoryReaders i).mono hfits

theorem stepCapture_sound {s : Channel} {k now : Nat} {resources : Resources} (h : ChannelOk s k) :
    ChannelOk (s.stepCapture k now resources) k := by
  have hmemory := h.memory
  have hstands := h.stands
  have hflag := h.flag
  have hmoved := h.moved
  unfold Channel.stepCapture
  cases hpc : s.captures k with
  | idle =>
      rw [hpc] at hflag hmemory hstands hmoved
      have hfree : s.writing = false := hflag
      simp only [hfree, if_false, Bool.false_eq_true]
      exact hmoved .held s.page.memory s.written hmemory hstands fun r hr => hr
  | held =>
      rw [hpc] at hflag hmemory hstands hmoved
      have h := hmoved (.enter (sampled now resources)) s.page.memory s.written hmemory hstands
        fun r hr => hr
      rw [show decide (CapturePc.enter (sampled now resources) ≠ .idle) = s.writing from hflag.symm] at h
      exact h
  | enter w =>
      rw [hpc] at hflag hmemory hstands hmoved
      have h := hmoved (.store w fields) (s.page.memory.enter HALF) (s.written ++ [w]) hmemory.enter
        ⟨List.mem_append_right _ List.mem_cons_self, fun f hf => absurd (by cases f <;> decide) hf⟩
        fun r hr => hr.enter
      rw [show decide (CapturePc.store w fields ≠ .idle) = s.writing from hflag.symm] at h
      exact h
  | store w todo =>
      rw [hpc] at hflag hmemory hstands hmoved
      cases todo with
      | nil =>
          have h := hmoved .clear (s.page.memory.leave HALF) s.written hmemory.leave
            (.inr ⟨w, hstands.1, funext fun f => hstands.2 f List.not_mem_nil⟩) fun r hr => hr.leave
          rw [show decide (CapturePc.clear ≠ .idle) = s.writing from hflag.symm] at h
          exact h
      | cons f todo =>
          have h := hmoved (.store w todo) (s.page.memory.store f (w.word f)) s.written
            (hmemory.store f _) ⟨hstands.1, fun g hg => ?_⟩ fun r hr => hr.store f _
          · rw [show decide (CapturePc.store w todo ≠ .idle) = s.writing from hflag.symm] at h
            exact h
          · by_cases hgf : g = f
            · subst hgf
              exact Function.update_self ..
            · refine (Function.update_of_ne hgf ..).trans (hstands.2 g ?_)
              rw [List.mem_cons, not_or]
              exact ⟨hgf, hg⟩
  | clear =>
      rw [hpc] at hflag hmemory hstands hmoved
      exact hmoved .idle s.page.memory s.written hmemory hstands fun r hr => hr

/-- Any thread may be the one that is let in when none is. -/
theorem ChannelOk.anyone {s : Channel} {j k : Nat} (h : ChannelOk s k) (hk : s.captures k = .idle) :
    ChannelOk s j := by
  have hall : ∀ i, s.captures i = .idle := by
    intro i
    by_cases hi : i = k
    · rw [hi]
      exact hk
    · exact h.others i hi
  obtain ⟨_, flag, memory, stands, phases, unset, readers, memoryReaders⟩ := h
  have hj := hk.trans (hall j).symm
  rw [hj] at flag memory stands memoryReaders
  exact ⟨fun i _ => hall i, flag, memory, stands, phases, unset, readers, memoryReaders⟩

/-! ## Readers -/

theorem attempt_readOk {generation : Nat} {F : Reading (Fin LC_PHASES) → Prop} (g n : Nat) :
    ReadOk generation F (attempt g n) := by
  unfold attempt
  split <;> trivial

theorem stepRead_ok {s : Channel} {k g : Nat} (h : ChannelOk s k) {pc : ReadPc}
    (hpc : ReadOk s.page.generation (fun r => r.Fits HALF s.page.phases (mainBusy s.main)) pc) :
    ReadOk s.page.generation (fun r => r.Fits HALF s.page.phases (mainBusy s.main))
      (s.stepRead g pc) := by
  cases pc with
  | idle | returned => exact attempt_readOk g 0
  | sequence g n => exact fun heven => h.phases.look (List.mem_finRange ·) heven
  | generation g n r =>
      rw [Channel.stepRead]
      split
      · exact attempt_readOk ..
      · next hgood =>
          rw [not_or, not_not] at hgood
          exact ⟨hpc (by omega), hgood.1⟩
  | process g n r => exact hpc
  | started g n r process => exact hpc
  | words g n r process started =>
      rw [Channel.stepRead]
      split
      · next i todo htodo => exact ⟨hpc.1.take htodo, hpc.2⟩
      · split
        · trivial
        · exact attempt_readOk ..

theorem memoryAttempt_memoryOk {F : Reading Field → Prop} (g n : Nat) :
    MemoryOk F (memoryAttempt g n) := by
  unfold memoryAttempt
  split <;> trivial

theorem stepMemory_ok {s : Channel} {k g : Nat} (h : ChannelOk s k) {pc : MemoryPc}
    (hpc : MemoryOk (fun r => r.Fits HALF s.page.memory (captureBusy (s.captures k))) pc) :
    MemoryOk (fun r => r.Fits HALF s.page.memory (captureBusy (s.captures k)))
      (s.stepMemory g pc) := by
  cases pc with
  | idle | returned => exact memoryAttempt_memoryOk g 0
  | generation | process => trivial
  | sequence g n gen process =>
      rw [Channel.stepMemory]
      split
      · exact memoryAttempt_memoryOk ..
      · next hgood =>
          simp only [not_or] at hgood
          exact ⟨h.memory.look (fun f => by cases f <;> decide) (by omega), hgood.2.2.1⟩
  | words g n r =>
      rw [Channel.stepMemory]
      split
      · next f todo htodo => exact ⟨hpc.1.take htodo, hpc.2⟩
      · simp only
        split
        · trivial
        · exact memoryAttempt_memoryOk ..

/-! ## Runs -/

theorem step_sound {s s' : Channel} {a : Act} {k : Nat} (h : ChannelOk s k) (hstep : s.step a = some s') :
    ∃ k', ChannelOk s' k' := by
  cases a with
  | main n => exact ⟨k, stepMain_sound h hstep⟩
  | phase phase => exact ⟨k, callPhase_sound h hstep⟩
  | capture j now resources =>
      cases hstep
      by_cases hj : j = k
      · rw [hj]
        exact ⟨k, stepCapture_sound h⟩
      · by_cases hk : s.captures k = .idle
        · exact ⟨j, stepCapture_sound (h.anyone hk)⟩
        · rw [stepCapture_other h hj hk]
          exact ⟨k, h⟩
  | read j g =>
      cases hstep
      refine ⟨k, h.others, h.flag, h.memory, h.stands, h.phases, h.unset, fun i => ?_, h.memoryReaders⟩
      by_cases hi : i = j
      · subst hi
        show ReadOk _ _ (Function.update s.readers i _ i)
        rw [Function.update_self]
        exact stepRead_ok h (h.readers i)
      · show ReadOk _ _ (Function.update s.readers j _ i)
        rw [Function.update_of_ne hi]
        exact h.readers i
  | memoryRead j g =>
      cases hstep
      refine ⟨k, h.others, h.flag, h.memory, h.stands, h.phases, h.unset, h.readers, fun i => ?_⟩
      by_cases hi : i = j
      · subst hi
        show MemoryOk _ (Function.update s.memoryReaders i _ i)
        rw [Function.update_self]
        exact stepMemory_ok h (h.memoryReaders i)
      · show MemoryOk _ (Function.update s.memoryReaders j _ i)
        rw [Function.update_of_ne hi]
        exact h.memoryReaders i

theorem reach_sound {s : Channel} (h : channelMachine.Reach Machine.free s) : ∃ k, ChannelOk s k := by
  refine h.invariant (I := fun s => ∃ k, ChannelOk s k) ?_ ?_
  · rintro _ ⟨generation, rfl⟩
    exact ⟨0, sound_fresh generation 0⟩
  · rintro s a s' _ _ hstep ⟨k, hk⟩
    exact step_sound hk hstep

/-! ## Main result -/

/-- The words of a sample are read back as the sample. -/
theorem sample_word {r : Reading Field} {w : Sample} (h : r.got = w.word) :
    Reading.sample r = w := by
  obtain ⟨now, bytes, status, source, unified⟩ := w
  rw [Reading.sample, h]
  simp only [Sample.word, UInt32.ofNat_toNat]
  cases unified <;> rfl

/-- A read of the memory that comes to its end. -/
theorem memory_read_whole {s : Channel} {k g n : Nat} {r : Reading Field} {out : Sample}
    (h : ChannelOk s k) (hr : r.Fits HALF s.page.memory (captureBusy (s.captures k)) ∧ r.seq ≠ 0)
    (hout : s.stepMemory g (.words g n r) = .returned (some out))
    (hfew : s.page.memory.begun < r.since + HALF) : out ∈ s.written := by
  rw [Channel.stepMemory] at hout
  split at hout
  · cases hout
  · next htodo =>
      simp only at hout
      split at hout
      · next hgood =>
          cases hout
          obtain ⟨hbusy, hsince, hgot⟩ := hr.1.same h.memory hgood.1 hfew htodo
          have hbegun : s.page.memory.begun ≠ 0 := by
            intro hzero
            rw [hzero] at hsince
            exact hr.2 (hr.1.seq.trans (by rw [← hsince]; rfl))
          have hstands := h.stands
          have hword : ∃ w ∈ s.written, s.page.memory.words = w.word := by
            cases hpc : s.captures k with
            | store w todo =>
                rw [hpc] at hbusy
                cases hbusy
            | idle | held | enter | clear =>
                rw [hpc] at hstands
                exact hstands.resolve_left hbegun
          obtain ⟨w, hw, hwords⟩ := hword
          rw [sample_word (hgot.trans hwords)]
          exact hw
      · unfold memoryAttempt at hout
        split at hout <;> cases hout

/-- A read of the phases that comes to its end. -/
theorem phase_read_whole {s : Channel} {k g n process started : Nat}
    {r : Reading (Fin LC_PHASES)} {out : Snapshot} (h : ChannelOk s k)
    (hr : r.Fits HALF s.page.phases (mainBusy s.main) ∧ s.page.generation = g)
    (hout : s.stepRead g (.words g n r process started) = .returned (some out))
    (hfew : s.page.phases.begun < r.since + HALF) :
    out.generation = g ∧ g = s.page.generation ∧ out.phaseNs = s.page.phases.words := by
  rw [Channel.stepRead] at hout
  split at hout
  · cases hout
  · next htodo =>
      split at hout
      · next hgood =>
          cases hout
          exact ⟨rfl, hr.2.symm, (hr.1.same h.phases hgood.1 hfew htodo).2.2⟩
      · unfold attempt at hout
        split at hout <;> cases hout

/-- Only the last step of a read returns something. -/
theorem stepMemory_returned {s : Channel} {g : Nat} {pc : MemoryPc} {out : Sample}
    (h : s.stepMemory g pc = .returned (some out)) : ∃ g n r, pc = .words g n r := by
  have hno : ∀ g n, memoryAttempt g n ≠ .returned (some out) := by
    intro g n
    unfold memoryAttempt
    split <;> exact fun h => nomatch h
  cases pc with
  | words g n r => exact ⟨g, n, r, rfl⟩
  | idle | returned => exact absurd h (hno _ _)
  | generation | process => cases h
  | sequence g n gen process =>
      rw [Channel.stepMemory] at h
      split at h
      · exact absurd h (hno _ _)
      · cases h

theorem stepRead_returned {s : Channel} {g : Nat} {pc : ReadPc} {out : Snapshot}
    (h : s.stepRead g pc = .returned (some out)) :
    ∃ g n r process started, pc = .words g n r process started := by
  have hno : ∀ g n, attempt g n ≠ .returned (some out) := by
    intro g n
    unfold attempt
    split <;> exact fun h => nomatch h
  cases pc with
  | words g n r process started => exact ⟨g, n, r, process, started, rfl⟩
  | idle | returned => exact absurd h (hno _ _)
  | sequence | process | started => cases h
  | generation g n r =>
      rw [Channel.stepRead] at h
      split at h
      · exact absurd h (hno _ _)
      · cases h

/-- A phase that has its time keeps it. -/
theorem step_phase_kept {s s' : Channel} {a : Act} {k : Nat} (h : ChannelOk s k)
    (hstep : s.step a = some s') {p : Fin LC_PHASES} (hp : s.page.phases.words p ≠ 0) :
    s'.page.phases.words p = s.page.phases.words p := by
  cases a with
  | main n =>
      have hstep : s.stepMain n = some s' := hstep
      unfold Channel.stepMain at hstep
      cases hmain : s.main with
      | idle =>
          rw [hmain] at hstep
          cases hstep
      | store q =>
          rw [hmain] at hstep
          cases hstep
          refine Function.update_of_ne ?_ ..
          rintro rfl
          exact hp (h.unset p (.inr hmain))
      | unborn | born | enter | leave =>
          rw [hmain] at hstep
          cases hstep
          rfl
  | phase phase =>
      have hstep : s.callPhase phase = some s' := hstep
      unfold Channel.callPhase at hstep
      split at hstep
      · split at hstep
        · split at hstep <;> cases hstep <;> rfl
        · cases hstep
          rfl
      · cases hstep
  | capture j now resources =>
      cases hstep
      show (s.stepCapture j now resources).page.phases.words p = _
      unfold Channel.stepCapture
      split
      · split <;> rfl
      all_goals rfl
  | read | memoryRead =>
      cases hstep
      rfl

/-- A step moves at most one reader. -/
theorem step_readers {s s' : Channel} {a : Act} (hstep : s.step a = some s') (k : Nat) :
    (s'.memoryReaders k = s.memoryReaders k ∨
      ∃ g, s'.memoryReaders k = s.stepMemory g (s.memoryReaders k)) ∧
    (s'.readers k = s.readers k ∨ ∃ g, s'.readers k = s.stepRead g (s.readers k)) := by
  cases a with
  | main n =>
      have hstep : s.stepMain n = some s' := hstep
      unfold Channel.stepMain at hstep
      split at hstep <;> cases hstep <;> exact ⟨.inl rfl, .inl rfl⟩
  | phase phase =>
      have hstep : s.callPhase phase = some s' := hstep
      unfold Channel.callPhase at hstep
      split at hstep
      · split at hstep
        · split at hstep <;> cases hstep <;> exact ⟨.inl rfl, .inl rfl⟩
        · cases hstep
          exact ⟨.inl rfl, .inl rfl⟩
      · cases hstep
  | capture j now resources =>
      cases hstep
      have hkept : (s.stepCapture j now resources).memoryReaders = s.memoryReaders ∧
          (s.stepCapture j now resources).readers = s.readers := by
        unfold Channel.stepCapture
        split
        · split <;> exact ⟨rfl, rfl⟩
        all_goals exact ⟨rfl, rfl⟩
      exact ⟨.inl (congrFun hkept.1 k), .inl (congrFun hkept.2 k)⟩
  | read j g =>
      cases hstep
      refine ⟨.inl rfl, ?_⟩
      by_cases hk : k = j
      · subst hk
        exact .inr ⟨g, Function.update_self ..⟩
      · exact .inl (Function.update_of_ne hk ..)
  | memoryRead j g =>
      cases hstep
      refine ⟨?_, .inl rfl⟩
      by_cases hk : k = j
      · subst hk
        exact .inr ⟨g, Function.update_self ..⟩
      · exact .inl (Function.update_of_ne hk ..)

/-- Whatever the order of the steps, a read of the memory that succeeds returns a
sample that one write wrote, and a read of the phases the times that stand
together when it returns, of the generation that was asked for; each as long as
fewer than half of all values of the sequence go by while it reads. A time that a
phase has got stays. -/
theorem reads_hold_together {s s' : Channel} {a : Act}
    (h : channelMachine.Reach Machine.free s) (hstep : s.step a = some s') :
    (∀ k out, s'.memoryReaders k = .returned (some out) →
      s.memoryReaders k ≠ .returned (some out) → ∃ g n r, s.memoryReaders k = .words g n r ∧
        (s.page.memory.begun < r.since + HALF → out ∈ s.written)) ∧
    (∀ k out, s'.readers k = .returned (some out) → s.readers k ≠ .returned (some out) →
      ∃ g n r process started, s.readers k = .words g n r process started ∧
        (s.page.phases.begun < r.since + HALF → out.generation = g ∧
          g = s.page.generation ∧ out.phaseNs = s.page.phases.words)) ∧
    ∀ p, s.page.phases.words p ≠ 0 → s'.page.phases.words p = s.page.phases.words p := by
  obtain ⟨j, hs⟩ := reach_sound h
  refine ⟨fun k out hout hnew => ?_, fun k out hout hnew => ?_, fun p hp => step_phase_kept hs hstep hp⟩
  · rcases (step_readers hstep k).1 with hsame | ⟨g, hread⟩
    · exact absurd (hsame ▸ hout) hnew
    · rw [hout] at hread
      obtain ⟨g', n, r, hpc⟩ := stepMemory_returned hread.symm
      have hok := hs.memoryReaders k
      rw [hpc] at hread hok
      exact ⟨g', n, r, hpc, memory_read_whole hs hok hread.symm⟩
  · rcases (step_readers hstep k).2 with hsame | ⟨g, hread⟩
    · exact absurd (hsame ▸ hout) hnew
    · rw [hout] at hread
      obtain ⟨g', n, r, process, started, hpc⟩ := stepRead_returned hread.symm
      have hok := hs.readers k
      rw [hpc] at hread hok
      exact ⟨g', n, r, process, started, hpc, phase_read_whole hs hok hread.symm⟩

/-- The read of a thread is at its last look, and its sequence has not wrapped. -/
def lastLook (s : Channel) (k : Nat) (out : Sample) : Bool :=
  match s.memoryReaders k with
  | .words g n r =>
      decide (s.page.memory.begun < r.since + HALF) &&
        match s.stepMemory 0 (.words g n r) with
        | .returned (some out') => decide (out' = out)
        | _ => false
  | _ => false

/-- A capture and a read behind it. -/
theorem reads_hold_together_once : ∃ s s', channelMachine.Reach Machine.free s ∧
    s.step (.memoryRead 0 0) = some s' ∧
    s'.memoryReaders 0 = .returned (some ⟨100, 5, 1, 0, true⟩) ∧
    (⟨100, 5, 1, 0, true⟩ : Sample) ∈ s.written := by
  let acts : List Act := [.main 7, .main 8] ++ List.replicate 10 (.capture 3 100 (.ok 5 0 true)) ++
    List.replicate 9 (.memoryRead 0 42)
  obtain ⟨s, hs, hlast⟩ := Machine.run_any (M := channelMachine) (fun _ _ => trivial)
    (.init ⟨42, rfl⟩) acts (fun s => lastLook s 0 ⟨100, 5, 1, 0, true⟩) (by decide +kernel)
  simp only [lastLook] at hlast
  split at hlast
  · next g n r hpc =>
      rw [Bool.and_eq_true] at hlast
      obtain ⟨hfew, hout⟩ := hlast
      split at hout
      · next out hread =>
          rw [of_decide_eq_true hout] at hread
          have hreturned : Function.update s.memoryReaders 0 (s.stepMemory 0 (s.memoryReaders 0)) 0 =
              .returned (some ⟨100, 5, 1, 0, true⟩) := by
            rw [Function.update_self, hpc]
            exact hread
          obtain ⟨g', n', r', hpc', hwhole⟩ := (reads_hold_together hs (a := .memoryRead 0 0) rfl).1 0
            _ hreturned (by rw [hpc]; exact fun h => nomatch h)
          cases hpc.symm.trans hpc'
          exact ⟨s, _, hs, rfl, hreturned, hwhole (of_decide_eq_true hfew)⟩
      · cases hout
  · cases hlast

/-! ## Half of all values -/

/-- The channel behind `n` whole captures by thread 0, in any of which `w` was
sampled. -/
structure Captured (s s' : Channel) (w : Sample) (n : Nat) : Prop where
  seq : s'.page.memory.seq = (s.page.memory.seq + 2 * n) % (2 * HALF)
  words : 0 < n → s'.page.memory.words = w.word
  readers : s'.memoryReaders = s.memoryReaders
  free : s'.captures 0 = .idle ∧ s'.writing = false
  written : ∀ v ∈ s'.written, v ∈ s.written ∨ v = w

theorem capture_whole {s : Channel} (hs : channelMachine.Reach Machine.free s)
    (hfree : s.captures 0 = .idle ∧ s.writing = false) (now : Nat) (resources : Resources) :
    ∃ s', channelMachine.Reach Machine.free s' ∧ Captured s s' (sampled now resources) 1 := by
  have hrun : ∃ s', channelMachine.run s (List.replicate 10 (.capture 0 now resources)) = some s' ∧
      Captured s s' (sampled now resources) 1 := by
    obtain ⟨page, writing, main, captures, readers, memoryReaders, written⟩ := s
    obtain ⟨hidle, rfl⟩ := hfree
    have hcaptures : captures = Function.update captures 0 .idle :=
      (Function.update_eq_self_iff.mpr hidle.symm).symm
    rw [hcaptures]
    refine ⟨_, rfl, ?_, ?_, rfl, ⟨rfl, rfl⟩, ?_⟩
    · show ((page.memory.seq + 1) % (2 * HALF) + 1) % (2 * HALF) = (page.memory.seq + 2) % (2 * HALF)
      rw [Nat.mod_add_mod]
    · intro _
      funext f
      cases f <;> rfl
    · intro v hv
      have hv : v ∈ written ++ [sampled now resources] := hv
      rw [List.mem_append, List.mem_singleton] at hv
      exact hv
  obtain ⟨s', hrun, hcaptured⟩ := hrun
  exact ⟨s', Machine.run_reach (fun _ _ => trivial) hs hrun, hcaptured⟩

theorem captures_whole {s : Channel} (hs : channelMachine.Reach Machine.free s)
    (hfree : s.captures 0 = .idle ∧ s.writing = false) (hseq : s.page.memory.seq < 2 * HALF)
    (now : Nat) (resources : Resources) (n : Nat) :
    ∃ s', channelMachine.Reach Machine.free s' ∧ Captured s s' (sampled now resources) n := by
  induction n with
  | zero =>
      exact ⟨s, hs, (Nat.mod_eq_of_lt hseq).symm, fun h => absurd h (Nat.lt_irrefl 0), rfl, hfree,
        fun v hv => .inl hv⟩
  | succ n ih =>
      obtain ⟨t, ht, hbefore⟩ := ih
      obtain ⟨s', hs', hafter⟩ := capture_whole ht hbefore.free now resources
      refine ⟨s', hs', ?_, fun _ => hafter.words Nat.one_pos, hafter.readers.trans hbefore.readers,
        hafter.free, fun v hv => ?_⟩
      · rw [hafter.seq, hbefore.seq, Nat.mod_add_mod]
        congr 1
      · rcases hafter.written v hv with hv | hv
        · exact hbefore.written v hv
        · exact .inr hv

/-- A reader that took the time of one sample, and then the other words of another
one while 2^63 captures went by: the sequence is where it was. -/
theorem torn_after_wrap : ∃ (s s' : Channel) (out : Sample),
    channelMachine.Reach Machine.free s ∧ s.step (.memoryRead 0 0) = some s' ∧
    s.memoryReaders 0 ≠ .returned (some out) ∧ s'.memoryReaders 0 = .returned (some out) ∧
    out ∉ s.written := by
  -- One capture, and a reader that has just taken the time.
  let acts : List Act := [.main 7, .main 8] ++ List.replicate 10 (.capture 0 1 (.ok 10 0 false)) ++
    List.replicate 5 (.memoryRead 0 42)
  obtain ⟨s, hrun, hidle, hfree, hseq, hwritten, hreader⟩ : ∃ s,
      channelMachine.run (Channel.fresh 42) acts = some s ∧ s.captures 0 = .idle ∧
      s.writing = false ∧ s.page.memory.seq = 2 ∧ s.written = [⟨1, 10, 1, 0, false⟩] ∧
      s.memoryReaders 0 = .words 42 0
        ⟨2, [.bytes, .status, .source, .unified], Function.update (fun _ => 0) .time 1, 1⟩ :=
    ⟨_, rfl, rfl, rfl, rfl, rfl, rfl⟩
  have hs := Machine.run_reach (fun _ _ => trivial) (.init (M := channelMachine) ⟨42, rfl⟩) hrun
  have hhalf : HALF = 9223372036854775808 := rfl
  obtain ⟨t, ht, hcaptured⟩ := captures_whole hs ⟨hidle, hfree⟩ (by omega) 2 (.ok 20 0 false) HALF
  have htseq : t.page.memory.seq = 2 := by
    rw [hcaptured.seq, hseq, hhalf]
  have hwords := hcaptured.words (by omega)
  -- The reader takes the rest.
  obtain ⟨page, writing, main, captures, readers, memoryReaders, written⟩ := t
  have hreaders : memoryReaders = Function.update memoryReaders 0 (.words 42 0
      ⟨2, [.bytes, .status, .source, .unified], Function.update (fun _ => 0) .time 1, 1⟩) := by
    refine (Function.update_eq_self_iff.mpr ?_).symm
    rw [← hreader]
    exact (congrFun hcaptured.readers 0).symm
  have hw : ∀ f, page.memory.words f = (sampled 2 (.ok 20 0 false)).word f := congrFun hwords
  have htseq : page.memory.seq = 2 := htseq
  rw [hreaders] at ht
  obtain ⟨u, hrun', hpage, hwritten', hpc⟩ : ∃ u, channelMachine.run
      ⟨page, writing, main, captures, readers, Function.update memoryReaders 0 (.words 42 0 ⟨2,
        [.bytes, .status, .source, .unified], Function.update (fun _ => 0) .time 1, 1⟩), written⟩
      (List.replicate 4 (.memoryRead 0 0)) = some u ∧ u.page = page ∧ u.written = written ∧
      u.memoryReaders 0 = .words 42 0 ⟨2, [], Function.update (Function.update (Function.update
        (Function.update (Function.update (fun _ => 0) .time 1) .bytes (page.memory.words .bytes))
        .status (page.memory.words .status)) .source (page.memory.words .source)) .unified
        (page.memory.words .unified), 1⟩ := ⟨_, rfl, rfl, rfl, rfl⟩
  have hu := Machine.run_reach (fun _ _ => trivial) ht hrun'
  have hread : u.stepMemory 0 (u.memoryReaders 0) = .returned (some ⟨1, 20, 1, 0, false⟩) := by
    rw [hpc, hw, hw, hw, hw, Channel.stepMemory]
    simp only
    rw [if_pos]
    · rfl
    · rw [hpage, htseq]
      exact ⟨rfl, by decide, by decide, by decide⟩
  refine ⟨u, _, ⟨1, 20, 1, 0, false⟩, hu, rfl, ?_, ?_, fun hmem => ?_⟩
  · rw [hpc]
    exact fun h => nomatch h
  · show Function.update u.memoryReaders 0 (u.stepMemory 0 (u.memoryReaders 0)) 0 = _
    rw [Function.update_self]
    exact hread
  · rw [hwritten'] at hmem
    rcases hcaptured.written _ hmem with h | h
    · rw [hwritten] at h
      exact absurd h (by decide)
    · exact absurd h (by decide)

end GeistServe.Proofs
