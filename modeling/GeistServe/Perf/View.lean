import GeistServe.Perf.Fields

/-!
# The view of an artifact: `perf_view`

One scan of the store, newest first. The first record that counts is the anchor: it
fixes the engine and whether a comparison is shown. For each of the two processors
the first record that goes with the anchor fixes the group, and the first thirty of
that group are the samples. The JSON around them is not modelled.
-/

namespace GeistServe.Perf

open GeistServe.Geistd

/-- `eligible`. -/
def eligible (r : PerfRecord) : Bool :=
  decide (r.outcome = lit "completed") && decide (r.source ≠ lit "legacy_last_reply") &&
    !r.warmup && decide (0 < r.output) && Double.lt (.fin 0) r.generationNs &&
    (match r.firstNs with
      | .fin q => decide (0 ≤ q)
      | .inf neg => !neg
      | .nan => false)

/-- `perf_group`. -/
def perfGroup (r : PerfRecord) : Nat :=
  let input := if r.input ≤ 512 then 0 else if r.input ≤ 2048 then 1 else 2
  let output := if r.output < 32 then 0 else if r.output < 128 then 1 else if r.output < 512 then 2
    else 3
  input + 3 * output + 12 * (decide (0 < r.reused)).toNat + 24 * r.cold.toNat +
    48 * r.contention.toNat + 96 * (decide (r.source = lit "controlled_test")).toNat

/-- The two processors of the view. -/
inductive Slot where
  | cpu | gpu
  deriving DecidableEq

/-- The state of the scan. -/
structure View where
  recent : List PerfRecord := []
  decided : Bool := false
  comparison : Bool := false
  run : CStr := []
  group : PerfRecord := {}
  ref : Slot → PerfRecord := fun _ => {}
  samples : Slot → List PerfRecord := fun _ => []

/-- The processor that a record belongs to. -/
def slotOf (cpu gpu : CStr) (r : PerfRecord) : Option Slot :=
  if r.backend = cpu then some .cpu else if r.backend = gpu then some .gpu else none

/-- `!strcmp(r->source, "controlled_test")`. -/
def controlled (r : PerfRecord) : Bool := decide (r.source = lit "controlled_test")

/-- The record is the anchor if there is none yet. -/
def View.decide (v : View) (r : PerfRecord) : View :=
  if v.decided then v
  else { v with decided := true, comparison := controlled r, run := fit 80 r.run, group := r }

/-- A record that goes with the anchor, at its processor. -/
def View.place (v : View) (slot : Slot) (r : PerfRecord) : View :=
  let v := if (v.ref slot).id = [] then { v with ref := Function.update v.ref slot r } else v
  if perfGroup r ≠ perfGroup (v.ref slot) then v
  else if (v.samples slot).length < 30 then
    { v with samples := Function.update v.samples slot (v.samples slot ++ [r]) }
  else v

/-- One turn of the scan. -/
def View.scan (artifact series cpu gpu : CStr) (v : View) (r : PerfRecord) : View :=
  if r.artifact ≠ artifact then v
  else
    let v := if v.recent.length < 12 then { v with recent := v.recent ++ [r] } else v
    if r.series ≠ series ∨ eligible r = false ∨ r.contention = true then v
    else
      let v := v.decide r
      if (if v.comparison then !controlled r || (r.run != v.run) else controlled r) = true then v
      else if r.engine ≠ v.group.engine then v
      else match slotOf cpu gpu r with
        | none => v
        | some slot => v.place slot r

/-- `perf_view`, of the records in the store, oldest first. -/
def perfView (recs : List PerfRecord) (artifact series cpu gpu : CStr) : View :=
  recs.reverse.foldl (View.scan artifact series cpu gpu) {}

end GeistServe.Perf
