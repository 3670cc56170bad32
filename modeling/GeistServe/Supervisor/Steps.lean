import GeistServe.Supervisor.Threads

/-!
# What a step can do

`Section` lists the steps of the threads, each with where its thread stands and
what it makes of the state. Every result about the runs of the app goes through
`step_section`, and no proof unfolds the step function again.
-/

namespace GeistServe.Supervisor

open GeistServe.Lib

theorem roundEnd_snd (t : Thread) (r : AppState × Pc) (w : World) : (roundEnd t r w).2 = r.2 := by
  unfold roundEnd
  split
  · next h => exact h.2.symm
  · rfl

theorem roundEnd_waiting {t : Thread} {r : AppState × Pc} (w : World) {wait : Wait} {k : Cont}
    (h : r.2 = .waiting wait k) : roundEnd t r w = r :=
  if_neg fun hidle => by
    rw [h] at hidle
    cases hidle.2

/-- A section of a thread: the action, the thread, and the result. -/
inductive Section (s : Sys) : Act → Thread → AppState × Pc → Prop where
  | startup {b : Boot} {w : World} (h : s.pc .main = .starting) :
      Section s (.startup b w) .main (startup s.app b w)
  | accept {i : Fin WORKER_CAP} (h : s.pc .main = .serving) (hi : s.pc (.worker i) = .idle) :
      Section s (.accept i) (.worker i) (s.app, .accepted)
  | handle {i : Fin WORKER_CAP} {r : Req} {w : World} (h : s.pc (.worker i) = .accepted) :
      Section s (.handle i r w) (.worker i) (handle s.app (.worker i) r w)
  | poll {r : Round} {w : World} (h : s.pc .monitor = .idle) (hmain : s.pc .main ≠ .starting) :
      Section s (.poll r w) .monitor (monitorRound s.app r w)
  | wake {t : Thread} {wait : Wait} {k : Cont} {w : World} (h : s.pc t = .waiting wait k) :
      Section s (.wake t w) t (roundEnd t (wakes s.app wait k w) w)
  | jobStart (h : s.pc .job = .idle) (hrun : s.app.job.running = true) :
      Section s .jobStart .job (s.app, .working)
  | jobEnd {ok : Bool} {w : World} (h : s.pc .job = .working) :
      Section s (.jobEnd ok w) .job (jobEnd s.app ok w)
  | connect {t : Thread} {succeeds : Bool} {a : Answer} {o : Origin} (h : s.pc t = .admitted o) :
      Section s (.connect t succeeds a) t (s.app, connects s.app o succeeds a)
  | answer {t : Thread} {a : Answer} {o : Origin} {k : Nat} {r : AppState × Pc}
      (h : s.pc t = .inferring o k) (hr : answers s.app t o k a = some r) :
      Section s (.answer t a) t r
  | observed {t : Thread} {w : World} {o : Origin} {a : Answer} (h : s.pc t = .answered o a) :
      Section s (.observed t w) t
        ((s.app.observationEnd t a w).1, .observed o a (s.app.observationEnd t a w).2)
  | conclude {t : Thread} {w : World} {o : Origin} {a : Answer} {rc : Nat}
      (h : s.pc t = .observed o a rc) :
      Section s (.conclude t w) t (conclude s.app o a rc w)
  | compare {expired : Bool} {w : World} {r : AppState × Pc}
      (hr : comparisonMain s.app (s.pc .comparison) expired w = some r) :
      Section s (.compare expired w) .comparison r
  | monitorEnd (h : s.pc .monitor = .idle) (hclosing : s.app.closing = true) :
      Section s .monitorEnd .monitor (s.app, .gone)
  | drain (h : s.pc .main = .serving) :
      Section s .drain .main ({ s.app with
        closing := true
        cancelled := if s.app.cancelled.isSet then s.app.cancelled else .set none }, .draining)
  | leave {w : World} (h : s.pc .main = .draining) (hi : ∀ i, s.pc (.worker i) = .idle)
      (hm : s.pc .monitor = .gone) (hc : s.pc .comparison = .idle)
      (hrun : s.app.compare.running = false) (hj : s.pc .job = .idle)
      (hjob : s.app.job.running = false) :
      Section s (.leave w) .main (stopChild s.app none .exit w)

/-- A step is a section of a thread, or a process ends. -/
theorem step_section {s s' : Sys} {act : Act} (h : s.step act = some s') :
    (∃ k, act = .exit k ∧ s' = ⟨s.app.own (s.app.child.exit k), s.pc⟩) ∨
    ∃ t r, Section s act t r ∧ s' = s.put t r := by
  cases act with
  | exit k => exact .inl ⟨k, rfl, (Option.some.inj h).symm⟩
  | startup b w =>
      simp only [Sys.step] at h
      split at h
      · next hpc => exact .inr ⟨_, _, .startup hpc, (Option.some.inj h).symm⟩
      · cases h
  | accept i =>
      simp only [Sys.step] at h
      split at h
      · next hpc => exact .inr ⟨_, _, .accept hpc.1 hpc.2, (Option.some.inj h).symm⟩
      · cases h
  | handle i r w =>
      simp only [Sys.step] at h
      split at h
      · next hpc => exact .inr ⟨_, _, .handle hpc, (Option.some.inj h).symm⟩
      · cases h
  | poll r w =>
      simp only [Sys.step] at h
      split at h
      · next hpc => exact .inr ⟨_, _, .poll hpc.1 hpc.2, (Option.some.inj h).symm⟩
      · cases h
  | wake t w =>
      simp only [Sys.step] at h
      split at h
      · next wait k hpc => exact .inr ⟨_, _, .wake hpc, (Option.some.inj h).symm⟩
      · cases h
  | jobStart =>
      simp only [Sys.step] at h
      split at h
      · next hpc => exact .inr ⟨_, _, .jobStart hpc.1 hpc.2, (Option.some.inj h).symm⟩
      · cases h
  | jobEnd ok w =>
      simp only [Sys.step] at h
      split at h
      · next hpc => exact .inr ⟨_, _, .jobEnd hpc, (Option.some.inj h).symm⟩
      · cases h
  | connect t succeeds a =>
      simp only [Sys.step] at h
      split at h
      · next o hpc => exact .inr ⟨_, _, .connect hpc, (Option.some.inj h).symm⟩
      · cases h
  | answer t a =>
      simp only [Sys.step] at h
      split at h
      · next o k hpc =>
          obtain ⟨r, hr, rfl⟩ := Option.map_eq_some_iff.mp h
          exact .inr ⟨_, _, .answer hpc hr, rfl⟩
      · cases h
  | observed t w =>
      simp only [Sys.step] at h
      split at h
      · next o a hpc => exact .inr ⟨_, _, .observed hpc, (Option.some.inj h).symm⟩
      · cases h
  | conclude t w =>
      simp only [Sys.step] at h
      split at h
      · next o a rc hpc => exact .inr ⟨_, _, .conclude hpc, (Option.some.inj h).symm⟩
      · cases h
  | compare expired w =>
      simp only [Sys.step] at h
      obtain ⟨r, hr, rfl⟩ := Option.map_eq_some_iff.mp h
      exact .inr ⟨_, _, .compare hr, rfl⟩
  | monitorEnd =>
      simp only [Sys.step] at h
      split at h
      · next hpc => exact .inr ⟨_, _, .monitorEnd hpc.1 hpc.2, (Option.some.inj h).symm⟩
      · cases h
  | drain =>
      simp only [Sys.step] at h
      split at h
      · next hpc => exact .inr ⟨_, _, .drain hpc, (Option.some.inj h).symm⟩
      · cases h
  | leave w =>
      simp only [Sys.step] at h
      split at h
      · next hpc =>
          obtain ⟨hmain, hm, hi, hc, hrun, hj, hjob⟩ := hpc
          exact .inr ⟨_, _, .leave hmain hi hm hc hrun hj hjob, (Option.some.inj h).symm⟩
      · cases h

theorem Section.thread {s : Sys} {act : Act} {t : Thread} {r : AppState × Pc}
    (h : Section s act t r) : act.thread = some t := by
  cases h <;> rfl

@[simp] theorem put_app (s : Sys) (t : Thread) (r : AppState × Pc) : (s.put t r).app = r.1 := rfl

theorem put_pc_same (s : Sys) (t : Thread) (r : AppState × Pc) : (s.put t r).pc t = r.2 :=
  Function.update_self ..

theorem put_pc_ne (s : Sys) {t t' : Thread} (r : AppState × Pc) (h : t' ≠ t) :
    (s.put t r).pc t' = s.pc t' :=
  Function.update_of_ne h ..

/-- A step moves one thread. -/
theorem step_pc {s s' : Sys} {act : Act} (h : s.step act = some s') {t : Thread}
    (ht : act.thread ≠ some t) : s'.pc t = s.pc t := by
  rcases step_section h with ⟨k, rfl, rfl⟩ | ⟨t', r, hsec, rfl⟩
  · rfl
  · rw [hsec.thread] at ht
    exact put_pc_ne s r fun he => ht (congrArg some he.symm)

/-- The app at its start with a GPU, over a table of models and a selection. -/
def coldStart (models : List Model) (selected : Option Nat) : Sys where
  app := {
    child := ⟨none, none, none, none, false, false, 0, 0, .cpu, fun _ => none, fun _ => false,
      fun _ => false, []⟩
    activeId := none, chosen := 0, mode := .auto, save := false
    gpuAvailable := true, gpuBit := 2, packaged := 7
    models := models, revision := 1, generating := false
    job := ⟨none, false, false, false, 0, none⟩
    compare := ⟨false, 0, none, .auto, false, []⟩
    observe := none, records := fun _ => ⟨0, .cpu, 0, false, [], [], none, 0, none⟩
    load := ⟨0, 0, none⟩, request := ⟨0, 0, none⟩, download := ⟨0, 0, none⟩, operationId := 0
    selected := selected, selection := selected, preference := fun _ => none
    closing := false, cancelled := .clear, compareCancelled := .clear
    requestCancelled := .clear, loadCancelled := .clear
    submitted := [], ended := [], fallbacks := [], begun := (fun _ => none, .auto)
    compared := [], hits := [] }
  pc := fun
    | .main => .starting
    | _ => .idle

theorem coldStart_initial (models : List Model) (selected : Option Nat) :
    (coldStart models selected).Initial where
  main := rfl
  others := fun t ht => by
    cases t with
    | main => exact absurd rfl ht
    | monitor | job | comparison | worker i => rfl
  pid := rfl
  socketPath := rfl
  runtimeDir := rfl
  lifecycle := rfl
  ready := rfl
  stopping := rfl
  generation := rfl
  procs := fun _ => rfl
  touched := rfl
  activeId := rfl
  save := rfl
  generating := rfl
  job := rfl
  compare := rfl
  observe := rfl
  load := rfl
  request := rfl
  download := rfl
  operationId := rfl
  closing := rfl
  cancelled := rfl
  compareCancelled := rfl
  requestCancelled := rfl
  loadCancelled := rfl
  submitted := rfl
  ended := rfl
  fallbacks := rfl
  compared := rfl
  hits := rfl

/-- Three models; the second is large enough for the GPU. -/
def shelf : List Model :=
  [⟨1, 11, 111, 5, 6, false⟩, ⟨2, 22, 222, 2 ^ 31, 6, false⟩, ⟨3, 33, 333, 5, 6, false⟩]

/-- The start with a selection: its process is started. -/
def boots : List Act := [.startup (.selected true) {}, .jobStart, .jobEnd true {}]

/-- A request that selects a model, and the job that it begins. -/
def selects (i : Fin WORKER_CAP) (id : Nat) : List Act :=
  [.accept i, .handle i (.choose .select (some id) {}) {}, .jobStart]

def threads : List Thread :=
  [Thread.main, .monitor, .job, .comparison] ++ (List.finRange WORKER_CAP).map Thread.worker

theorem mem_threads (t : Thread) : t ∈ threads := by
  cases t with
  | worker i => exact List.mem_append_right _ (List.mem_map_of_mem (List.mem_finRange i))
  | main | monitor | job | comparison => exact List.mem_append_left _ (by decide)

/-- No thread waits in a `stop_child`. -/
def noWait (s : Sys) : Bool :=
  threads.all fun t =>
    match s.pc t with
    | .waiting _ _ => false
    | _ => true

theorem noWait_ne {s : Sys} (h : noWait s = true) (t : Thread) (wait : Wait) (k : Cont) :
    s.pc t ≠ .waiting wait k := by
  intro hpc
  have := List.all_eq_true.mp h t (mem_threads t)
  rw [hpc] at this
  cases this

/-- A run in which no thread ever waits meets a condition on the threads that
wait. -/
theorem cold_runs (ok : Sys → Act → Prop) (hok : ∀ s a, noWait s = true → ok s a)
    (models : List Model) (selected : Option Nat) (as : List Act)
    (h : appMachine.checks (fun s _ => noWait s) (coldStart models selected) as = true) :
    ∃ s, appMachine.run (coldStart models selected) as = some s ∧ appMachine.Reach ok s :=
  Machine.checks_reach hok as (.init (coldStart_initial models selected)) h

theorem cold_reaches (models : List Model) (selected : Option Nat) (as : List Act)
    (p : Sys → Bool) (h : (appMachine.run (coldStart models selected) as).any p = true) :
    ∃ s, appMachine.Reach Machine.free s ∧ p s = true :=
  Machine.run_any (fun _ _ => trivial) (.init (coldStart_initial models selected)) as p h

end GeistServe.Supervisor
