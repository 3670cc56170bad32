import GeistServe.Lib.Cells
import GeistServe.Lib.Quantile
import GeistServe.Perf.View
import Mathlib.Data.Rat.Floor

/-!
# What the view says of its samples: `percentile` and `aggregate`

One array of thirty doubles serves for all fields: each fills it from the front with the
values that the samples have, and `percentile` sorts them in place. Doubles are rationals
here. The records of the store have been checked, so none of their numbers is infinite.
-/

namespace GeistServe.Perf

open GeistServe.Lib GeistServe.Geistd

/-- The value of a number of a checked record. What is no number is dropped by `v >= 0`, and
so is -1. -/
def numValue : Double → Rat
  | .fin q => q
  | _ => -1

/-- `percentile` of the first `n` values: the array as it leaves it, and the result. An index
that is not one of the values has no result. -/
def percentile (values : List Rat) (n : Nat) (q : Rat) : Option (List Rat × Rat) :=
  if n = 0 then some (values, -1)
  else
    let sorted := inOrder (values.take n) -- `qsort`
    let pos := ((n - 1 : Nat) : Rat) * q
    let i := ⌊pos⌋₊
    match sorted[i]?, sorted[i + (if i + 1 < n then 1 else 0)]? with
    | some x, some y => some (sorted ++ values.drop n, x + (y - x) * (pos - i))
    | _, _ => none

/-- `AGG`: the median of what is known. -/
def agg (values vs : List Rat) : Option (List Rat × Rat) :=
  (Pen.puts ⟨values, 0⟩ (vs.filter (0 ≤ ·))).bind fun p => percentile p.cells p.pos (1 / 2)

/-- `rs[i].output / (rs[i].generation_ns / 1e9)`. -/
def rate (r : PerfRecord) : Rat :=
  match r.generationNs with
  | .fin g => r.output / (g / 1000000000)
  | _ => 0

/-- The object that `aggregate` prints, less the processor and the engine. -/
structure Summary where
  count : Nat
  rate : Rat
  q25 : Rat
  q75 : Rat
  first : Rat
  firstAnswer : Rat
  firstAnswerCount : Nat
  total : Rat
  tokens : Rat
  rssBytes : Rat
  sampledPeakRss : Rat
  gpuAllocatedBytes : Rat
  gpuSampledPeak : Rat
  gpuKnownCount : Nat
  recordedAt : Double

/-- `aggregate`, with what is in its array before it starts; `null` of no samples. -/
def aggregate (values : List Rat) : List PerfRecord → Option (Option Summary)
  | [] => some none
  | r :: rest => do
      let rs := r :: rest
      let (values, median) ← agg values (rs.map rate)
      let p ← Pen.puts ⟨values, 0⟩ (rs.map rate)
      let (values, q25) ← percentile p.cells rs.length (1 / 4)
      let (values, q75) ← percentile values rs.length (3 / 4)
      let (values, first) ← agg values (rs.map fun r => numValue r.firstNs / 1000000000)
      let (values, firstAnswer) ← agg values (rs.map fun r => numValue r.firstAnswerNs / 1000000000)
      let (values, total) ← agg values (rs.map fun r => numValue r.totalNs / 1000000000)
      let (values, tokens) ← agg values (rs.map fun r => (r.output : Rat))
      let (values, rss) ← agg values (rs.map fun r => numValue r.rss)
      let (values, peak) ← agg values (rs.map fun r => numValue r.peakRss)
      let (values, gpu) ← agg values (rs.map fun r =>
        if r.memory.status = 1 then numValue r.memory.gpuEnd else -1)
      let (_, gpuPeak) ← agg values (rs.map fun r =>
        if r.memory.gpuSamples ≠ 0 then numValue r.memory.gpuPeak else -1)
      some (some
        { count := rs.length, rate := median, q25 := q25, q75 := q75, first := first
          firstAnswer := firstAnswer
          firstAnswerCount := rs.countP fun r => decide (0 ≤ numValue r.firstAnswerNs)
          total := total, tokens := tokens, rssBytes := rss, sampledPeakRss := peak
          gpuAllocatedBytes := gpu, gpuSampledPeak := gpuPeak
          gpuKnownCount := rs.countP fun r => decide (r.memory.status = 1)
          recordedAt := r.timestamp })

end GeistServe.Perf
