import GeistServe.App.Resources
import Mathlib.Data.List.Induction
import Mathlib.Tactic.Linarith
import Mathlib.Tactic.Positivity

/-!
# What a CPU share was computed from

The window carries a base, which is the last sample that was kept, and a share. A sample that
comes too soon behind the base is not kept, so the calls so far end with the base and such
rapid ones (`Based`), and a known share was computed from the base and the base before it
(`Measured`). A call does one of four things (`resourceUpdate_cases`), and each keeps this.

What breaks the window off is judged by the base. A sample that comes rapidly leaves no
trace, so one that falls behind it, and not behind the base, breaks nothing off
(`rapid_fall_keeps`).
-/

namespace GeistServe.Observe

/-! ## What one call does -/

/-- A call that finds the same process, less than half a second behind the base. -/
structure Rapid (base : ProcessSample) (c : ResourceCall) (p : ProcessSample) : Prop where
  sample : c.sample = some p
  cpus : c.logicalCpus ≠ 0
  pid : p.pid = base.pid
  identity : p.identity = base.identity
  cpu : base.cpuNs ≤ p.cpuNs
  least : base.monotonicMs ≤ p.monotonicMs
  most : p.monotonicMs < base.monotonicMs + 500

/-- Two samples that a share is computed from. -/
structure Interval (first second : ProcessSample) : Prop where
  pid : second.pid = first.pid
  identity : second.identity = first.identity
  cpu : first.cpuNs ≤ second.cpuNs
  least : first.monotonicMs + 500 ≤ second.monotonicMs
  most : second.monotonicMs ≤ first.monotonicMs + 10000

/-- The CPU time over the time of all processors, in percent, and 100 at most. -/
def shareOf (first second : ProcessSample) (cpus : Nat) : Rat :=
  min (((second.cpuNs : Rat) - first.cpuNs) / 1000000 /
    (second.monotonicMs - first.monotonicMs) / cpus * 100) 100

/-- A sample that does not go on from the base. -/
def BreaksOff (base p : ProcessSample) : Prop :=
  p.pid ≠ base.pid ∨ p.identity ≠ base.identity ∨ p.cpuNs < base.cpuNs ∨
    p.monotonicMs < base.monotonicMs ∨ base.monotonicMs + 10000 < p.monotonicMs

/-- No sample, or no processor count. -/
def Missing (c : ResourceCall) : Prop := c.sample = none ∨ c.logicalCpus = 0

theorem resourceUpdate_missing {w : Window} {c : ResourceCall} (h : Missing c) :
    resourceUpdate w c = {} := by
  unfold resourceUpdate
  rcases h with h | h
  · rw [h]
  · cases hs : c.sample with
    | none => rfl
    | some p =>
        show appResourceUpdate w p c.logicalCpus = {}
        rw [appResourceUpdate, if_pos h]

theorem shareOf_eq {first second : ProcessSample} (h : first.cpuNs ≤ second.cpuNs) (cpus : Nat)
    {percent : Rat} (hp : percent = ((second.cpuNs - first.cpuNs : Nat) : Rat) / 1000000 /
      (second.monotonicMs - first.monotonicMs) / cpus * 100) :
    (if 100 < percent then 100 else percent) = shareOf first second cpus := by
  rw [shareOf, ← Nat.cast_sub h, ← hp]
  split
  · next hlt => rw [min_eq_right (le_of_lt hlt)]
  · next hle => rw [min_eq_left (not_lt.mp hle)]

/-- The four things a call can do. -/
theorem resourceUpdate_cases (w : Window) (c : ResourceCall) :
    (Missing c ∧ resourceUpdate w c = {}) ∨
    ∃ p, c.sample = some p ∧ c.logicalCpus ≠ 0 ∧
      ((BreaksOff w.previous p ∧ resourceUpdate w c = { previous := p }) ∨
      (Rapid w.previous c p ∧ resourceUpdate w c = w) ∨
      (Interval w.previous p ∧ resourceUpdate w c =
        { previous := p, cpuPercent := shareOf w.previous p c.logicalCpus,
          intervalMs := p.monotonicMs - w.previous.monotonicMs, cpuKnown := true })) := by
  cases hs : c.sample with
  | none => exact .inl ⟨.inl hs, resourceUpdate_missing (.inl hs)⟩
  | some p =>
      by_cases hcpus : c.logicalCpus = 0
      · exact .inl ⟨.inr hcpus, resourceUpdate_missing (.inr hcpus)⟩
      · refine .inr ⟨p, rfl, hcpus, ?_⟩
        have hcall : resourceUpdate w c = appResourceUpdate w p c.logicalCpus := by
          rw [resourceUpdate, hs]
        rw [hcall]
        simp only [appResourceUpdate, if_neg hcpus]
        split
        · next h =>
            refine .inl ⟨?_, rfl⟩
            rcases h with h | h | h | h | h
            · exact .inl h
            · exact .inr (.inl h)
            · exact .inr (.inr (.inl h))
            · exact .inr (.inr (.inr (.inl (by linarith))))
            · exact .inr (.inr (.inr (.inr (by linarith))))
        · next h =>
            obtain ⟨hpid, hidentity, hcpu, hback, hgap⟩ := by
              simpa only [not_or, not_not, not_lt] using h
            split
            · next hsoon =>
                exact .inr (.inl ⟨⟨hs, hcpus, hpid, hidentity, hcpu, by linarith, by linarith⟩, rfl⟩)
            · next hlate =>
                refine .inr (.inr ⟨⟨hpid, hidentity, hcpu, by linarith, by linarith⟩, ?_⟩)
                rw [shareOf_eq hcpu c.logicalCpus rfl]

theorem shareOf_range {first second : ProcessSample} (h : Interval first second) (cpus : Nat) :
    0 ≤ shareOf first second cpus ∧ shareOf first second cpus ≤ 100 := by
  have helapsed : 0 ≤ second.monotonicMs - first.monotonicMs := by linarith [h.least]
  have hcpu : (0 : Rat) ≤ (second.cpuNs : Rat) - first.cpuNs := sub_nonneg.mpr (by exact_mod_cast h.cpu)
  exact ⟨le_min (by positivity) (by norm_num), min_le_right _ _⟩

/-! ## The calls behind a window -/

/-- The calls end with the one that brought the base, and rapid ones behind it. -/
structure Based (calls before : List ResourceCall) (c : ResourceCall) (base : ProcessSample)
    (after : List ResourceCall) : Prop where
  split : calls = before ++ c :: after
  sample : c.sample = some base
  cpus : c.logicalCpus ≠ 0
  rapid : ∀ d ∈ after, ∃ p, Rapid base d p

/-- The share was computed from the base and the base before it. -/
def Measured (before : List ResourceCall) (c : ResourceCall) (base : ProcessSample) (w : Window) :
    Prop :=
  ∃ before' c' first between, Based before before' c' first between ∧ Interval first base ∧
    w.cpuPercent = shareOf first base c.logicalCpus ∧
    w.intervalMs = base.monotonicMs - first.monotonicMs

/-- What the calls so far say about the window. -/
def Explained (calls : List ResourceCall) (w : Window) : Prop :=
  (w = {} ∧ ∀ c ∈ calls.getLast?, Missing c) ∨
  ∃ before c after, Based calls before c w.previous after ∧
    (w.cpuKnown = true → Measured before c w.previous w)

theorem Based.push {calls before after : List ResourceCall} {c d : ResourceCall}
    {base p : ProcessSample} (h : Based calls before c base after) (hd : Rapid base d p) :
    Based (calls ++ [d]) before c base (after ++ [d]) := by
  refine ⟨?_, h.sample, h.cpus, ?_⟩
  · rw [h.split, List.append_assoc, List.cons_append]
  · intro e he
    rcases List.mem_append.mp he with he | he
    · exact h.rapid e he
    · rw [List.mem_singleton.mp he]
      exact ⟨p, hd⟩

theorem Based.new (calls : List ResourceCall) {c : ResourceCall} {p : ProcessSample}
    (hs : c.sample = some p) (hcpus : c.logicalCpus ≠ 0) : Based (calls ++ [c]) calls c p [] :=
  ⟨rfl, hs, hcpus, fun _ hd => absurd hd List.not_mem_nil⟩

/-- The last of the calls is the base's own or a rapid one. -/
theorem Based.last {calls before after : List ResourceCall} {c : ResourceCall}
    {base : ProcessSample} (h : Based calls before c base after) :
    ∃ d last, calls.getLast? = some d ∧ d.sample = some last ∧ d.logicalCpus ≠ 0 ∧
      (last = base ∨ Rapid base d last) := by
  rw [h.split]
  cases after using List.reverseRecOn with
  | nil =>
      exact ⟨c, base, by simp, h.sample, h.cpus, .inl rfl⟩
  | append_singleton after d =>
      obtain ⟨p, hp⟩ := h.rapid d (by simp)
      refine ⟨d, p, ?_, hp.sample, hp.cpus, .inr hp⟩
      rw [← List.cons_append, ← List.append_assoc, List.getLast?_append]
      rfl

/-- One call keeps the explanation. A process has a positive pid, so the empty window has none. -/
theorem Explained.step {calls : List ResourceCall} {w : Window} (h : Explained calls w)
    (c : ResourceCall) (hpid : ∀ p ∈ c.sample, 0 < p.pid) :
    Explained (calls ++ [c]) (resourceUpdate w c) := by
  rcases resourceUpdate_cases w c with ⟨hmissing, heq⟩ | ⟨p, hs, hcpus, hstep⟩
  · refine .inl ⟨heq, ?_⟩
    intro d hd
    rw [List.getLast?_append] at hd
    cases hd
    exact hmissing
  · have hpos : 0 < p.pid := hpid p hs
    rcases hstep with ⟨hbreak, heq⟩ | ⟨hrapid, heq⟩ | ⟨hinterval, heq⟩
    · rw [heq]
      exact .inr ⟨calls, c, [], Based.new calls hs hcpus, fun hk => nomatch hk⟩
    · rw [heq]
      rcases h with ⟨hw, _⟩ | ⟨before, c', after, hbased, hmeasured⟩
      · have hzero := hrapid.pid
        rw [hw] at hzero
        exact absurd hzero (Nat.ne_of_gt hpos)
      · exact .inr ⟨before, c', after ++ [c], hbased.push hrapid, hmeasured⟩
    · rw [heq]
      rcases h with ⟨hw, _⟩ | ⟨before, c', after, hbased, hmeasured⟩
      · have hzero := hinterval.pid
        rw [hw] at hzero
        exact absurd hzero (Nat.ne_of_gt hpos)
      · refine .inr ⟨calls, c, [], Based.new calls hs hcpus, fun _ => ?_⟩
        exact ⟨before, c', w.previous, after, hbased, hinterval, rfl, rfl⟩

theorem resourceRun_concat (calls : List ResourceCall) (c : ResourceCall) :
    resourceRun (calls ++ [c]) = resourceUpdate (resourceRun calls) c := by
  rw [resourceRun, List.foldl_append]
  rfl

/-- Every sample is of a process. -/
def Positive (c : ResourceCall) : Prop := ∀ p ∈ c.sample, 0 < p.pid

theorem resourceRun_explained {calls : List ResourceCall} (h : ∀ c ∈ calls, Positive c) :
    Explained calls (resourceRun calls) := by
  induction calls using List.reverseRecOn with
  | nil => exact .inl ⟨rfl, fun c hc => nomatch hc⟩
  | append_singleton calls c ih =>
      rw [resourceRun_concat]
      exact (ih fun d hd => h d (List.mem_append_left _ hd)).step c (h c (by simp))

/-! ## The law of the share -/

/-- The sample of the last call. -/
def lastSample (calls : List ResourceCall) : Option ProcessSample :=
  calls.getLast?.bind ResourceCall.sample

/-- A call that shows no share: it has no sample or no processor count, its process is not the
one of the last call, it comes too long after that, or its CPU time or its clock falls behind
the base's. -/
def Forgets (base : ProcessSample) (last : Option ProcessSample) (c : ResourceCall) : Prop :=
  Missing c ∨ ∃ p, c.sample = some p ∧
    ((∃ q, last = some q ∧
      (p.pid ≠ q.pid ∨ p.identity ≠ q.identity ∨ q.monotonicMs + 10000 < p.monotonicMs)) ∨
    p.cpuNs < base.cpuNs ∨ p.monotonicMs < base.monotonicMs)

/-- What holds of the window after a sequence of calls. -/
structure ShareLaw (calls : List ResourceCall) : Prop where
  range : (resourceRun calls).cpuKnown = true →
    0 ≤ (resourceRun calls).cpuPercent ∧ (resourceRun calls).cpuPercent ≤ 100
  computed : (resourceRun calls).cpuKnown = true →
    ∃ last, lastSample calls = some last ∧
      ∃ front c first between d second after,
        calls = front ++ c :: between ++ d :: after ∧
        c.sample = some first ∧ d.sample = some second ∧ Interval first second ∧
        (∀ e ∈ c :: between ++ d :: after, ∃ p, e.sample = some p ∧ e.logicalCpus ≠ 0 ∧
          p.pid = last.pid ∧ p.identity = last.identity) ∧
        (resourceRun calls).cpuPercent = shareOf first second d.logicalCpus ∧
        (resourceRun calls).intervalMs = second.monotonicMs - first.monotonicMs
  base : ∀ last, lastSample calls = some last → resourceRun calls = {} ∨
    last = (resourceRun calls).previous ∨
    ∃ c ∈ calls.getLast?, Rapid (resourceRun calls).previous c last
  forgets : ∀ c, Positive c → Forgets (resourceRun calls).previous (lastSample calls) c →
    (resourceRun (calls ++ [c])).cpuKnown = false

/-- The calls behind the base, with the base's own, are of the base's process. -/
theorem Based.same {calls before after : List ResourceCall} {c : ResourceCall}
    {base : ProcessSample} (h : Based calls before c base after) :
    ∀ e ∈ c :: after, ∃ p, e.sample = some p ∧ e.logicalCpus ≠ 0 ∧ p.pid = base.pid ∧
      p.identity = base.identity := by
  intro e he
  rcases List.mem_cons.mp he with rfl | he
  · exact ⟨base, h.sample, h.cpus, rfl, rfl⟩
  · obtain ⟨p, hp⟩ := h.rapid e he
    exact ⟨p, hp.sample, hp.cpus, hp.pid, hp.identity⟩

theorem Based.lastSample {calls before after : List ResourceCall} {c : ResourceCall}
    {base : ProcessSample} (h : Based calls before c base after) :
    ∃ last, lastSample calls = some last ∧ last.pid = base.pid ∧ last.identity = base.identity ∧
      base.monotonicMs ≤ last.monotonicMs ∧
      (last = base ∨ ∃ d ∈ calls.getLast?, Rapid base d last) := by
  obtain ⟨d, last, hd, hs, -, hlast⟩ := h.last
  refine ⟨last, by rw [Observe.lastSample, hd, Option.bind_some, hs], ?_⟩
  rcases hlast with rfl | hrapid
  · exact ⟨rfl, rfl, le_refl _, .inl rfl⟩
  · exact ⟨hrapid.pid, hrapid.identity, hrapid.least, .inr ⟨d, hd, hrapid⟩⟩

theorem Explained.computed {calls : List ResourceCall} {w : Window} (h : Explained calls w)
    (hknown : w.cpuKnown = true) :
    ∃ last, Observe.lastSample calls = some last ∧
      ∃ front c first between d second after,
        calls = front ++ c :: between ++ d :: after ∧
        c.sample = some first ∧ d.sample = some second ∧ Interval first second ∧
        (∀ e ∈ c :: between ++ d :: after, ∃ p, e.sample = some p ∧ e.logicalCpus ≠ 0 ∧
          p.pid = last.pid ∧ p.identity = last.identity) ∧
        w.cpuPercent = shareOf first second d.logicalCpus ∧
        w.intervalMs = second.monotonicMs - first.monotonicMs := by
  rcases h with ⟨hw, _⟩ | ⟨before, d, after, hbased, hmeasured⟩
  · rw [hw] at hknown
    cases hknown
  · obtain ⟨front, c, first, between, hfirst, hinterval, hshare, hms⟩ := hmeasured hknown
    obtain ⟨last, hlast, hpid, hidentity, -⟩ := hbased.lastSample
    refine ⟨last, hlast, front, c, first, between, d, w.previous, after, ?_, hfirst.sample,
      hbased.sample, hinterval, ?_, hshare, hms⟩
    · rw [hbased.split, hfirst.split]
    · intro e he
      rcases List.mem_append.mp he with he | he
      · obtain ⟨p, hs, hcpus, hp, hi⟩ := hfirst.same e he
        refine ⟨p, hs, hcpus, ?_, ?_⟩
        · rw [hp, ← hinterval.pid, hpid]
        · rw [hi, ← hinterval.identity, hidentity]
      · obtain ⟨p, hs, hcpus, hp, hi⟩ := hbased.same e he
        exact ⟨p, hs, hcpus, hp.trans hpid.symm, hi.trans hidentity.symm⟩

theorem Explained.range {calls : List ResourceCall} {w : Window} (h : Explained calls w)
    (hknown : w.cpuKnown = true) : 0 ≤ w.cpuPercent ∧ w.cpuPercent ≤ 100 := by
  obtain ⟨_, _, _, _, first, _, d, second, _, _, _, _, hinterval, _, hshare, _⟩ := h.computed hknown
  rw [hshare]
  exact shareOf_range hinterval d.logicalCpus

theorem Explained.base {calls : List ResourceCall} {w : Window} (h : Explained calls w)
    {last : ProcessSample} (hl : Observe.lastSample calls = some last) :
    w = {} ∨ last = w.previous ∨ ∃ c ∈ calls.getLast?, Rapid w.previous c last := by
  rcases h with ⟨hw, _⟩ | ⟨before, c, after, hbased, _⟩
  · exact .inl hw
  · obtain ⟨last', hlast, -, -, -, hcases⟩ := hbased.lastSample
    rw [hl] at hlast
    cases hlast
    exact .inr hcases

/-- A sample that breaks off has nothing to show. -/
theorem breaksOff_unknown {w : Window} {c : ResourceCall} {p : ProcessSample}
    (hs : c.sample = some p) (h : BreaksOff w.previous p) :
    (resourceUpdate w c).cpuKnown = false := by
  rcases resourceUpdate_cases w c with ⟨_, heq⟩ | ⟨p', hs', _, hstep⟩
  · rw [heq]
  · rw [hs] at hs'
    cases hs'
    rcases hstep with ⟨_, heq⟩ | ⟨hrapid, _⟩ | ⟨hinterval, _⟩
    · rw [heq]
    · have hleast := hrapid.least
      have hmost := hrapid.most
      rcases h with h | h | h | h | h
      · exact absurd hrapid.pid h
      · exact absurd hrapid.identity h
      · exact absurd hrapid.cpu (Nat.not_le_of_lt h)
      · linarith
      · linarith
    · have hleast := hinterval.least
      have hmost := hinterval.most
      rcases h with h | h | h | h | h
      · exact absurd hinterval.pid h
      · exact absurd hinterval.identity h
      · exact absurd hinterval.cpu (Nat.not_le_of_lt h)
      · linarith
      · linarith

theorem Explained.forgets {calls : List ResourceCall} {w : Window} (h : Explained calls w)
    {c : ResourceCall} (hpid : Positive c)
    (hc : Forgets w.previous (Observe.lastSample calls) c) :
    (resourceUpdate w c).cpuKnown = false := by
  rcases hc with hmissing | ⟨p, hs, hc⟩
  · rw [resourceUpdate_missing hmissing]
  · refine breaksOff_unknown hs ?_
    rcases h with ⟨hw, _⟩ | ⟨before, d, after, hbased, _⟩
    · rw [hw]
      exact .inl (Nat.ne_of_gt (hpid p hs))
    · obtain ⟨last, hlast, hlpid, hlidentity, hlclock, -⟩ := hbased.lastSample
      rcases hc with ⟨q, hq, hc⟩ | hcpu | hclock
      · rw [hlast] at hq
        cases hq
        rcases hc with hc | hc | hc
        · exact .inl fun heq => hc (heq.trans hlpid.symm)
        · exact .inr (.inl fun heq => hc (heq.trans hlidentity.symm))
        · exact .inr (.inr (.inr (.inr (by linarith))))
      · exact .inr (.inr (.inl hcpu))
      · exact .inr (.inr (.inr (.inl hclock)))

/-- After every sequence of calls. -/
theorem resourceRun_lawful {calls : List ResourceCall} (h : ∀ c ∈ calls, Positive c) :
    ShareLaw calls := by
  have hexplained := resourceRun_explained h
  refine ⟨hexplained.range, hexplained.computed, fun last hl => hexplained.base hl, ?_⟩
  intro c hpid hc
  rw [resourceRun_concat]
  exact hexplained.forgets hpid hc

/-- A process that is read twice in a second, and twice more within half a second. -/
def rapidCalls : List ResourceCall :=
  [⟨some { pid := 42, identity := 7, cpuNs := 100000000, monotonicMs := 0 }, 4⟩,
    ⟨some { pid := 42, identity := 7, cpuNs := 200000000, monotonicMs := 1000 }, 4⟩,
    ⟨some { pid := 42, identity := 7, cpuNs := 500000000, monotonicMs := 1100 }, 4⟩]

theorem resourceRun_lawful_rapid : ShareLaw rapidCalls :=
  resourceRun_lawful (by simp [rapidCalls, Positive])

/-- The CPU time falls behind the one of the last sample, and the share stays. -/
theorem rapid_fall_keeps :
    ¬ ∀ calls : List ResourceCall, (∀ c ∈ calls, Positive c) → ∀ c p last, Positive c →
      c.sample = some p → lastSample calls = some last → p.cpuNs < last.cpuNs →
      (resourceRun (calls ++ [c])).cpuKnown = false := by
  intro h
  have hrun := h rapidCalls (by simp [rapidCalls, Positive])
    ⟨some { pid := 42, identity := 7, cpuNs := 300000000, monotonicMs := 1200 }, 4⟩ _ _
    (by simp [Positive]) rfl rfl (by decide)
  exact absurd hrun (by decide +kernel)

end GeistServe.Observe
