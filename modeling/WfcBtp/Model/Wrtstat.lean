import WfcBtp.Model.Types

/-!
# The aggregation library

`wrtstat` is a dependency whose code is not in the repository. The model takes it as a
parameter: one aggregator type with the calls the repository makes, at the options the
storage was configured with. What a result relies on is one of the `Prop`-valued
structures below, stated through `opened`, the sum of the counts that were pushed or
added for the aggregator's current period (`none` if nothing was).
-/

namespace WfcBtp

/-- The calls of `wrtstat` that the storage makes. `push` returns what it hands to the
handler, in order; `plus` is `operator+=` of `aggregated_info`. -/
structure Wrtstat where
  Aggregator : Type
  create : ℤ → Aggregator
  currentTime : Aggregator → ℤ
  getTs : ℤ → ℤ
  push : Aggregator → AggregatedData → List AggregatedData × Aggregator
  add : Aggregator → ReducedData → Aggregator
  aggregateCurrent : Aggregator → Option AggregatedData × Aggregator
  forcePop : Aggregator → Option AggregatedData × Aggregator
  calcPerc : AggregatedData → AggregatedData
  plus : AggregatedInfo → AggregatedInfo → AggregatedInfo

namespace Wrtstat

variable (W : Wrtstat)

/-- `get_ts` takes a time to the start of its period. -/
structure AlignsTime : Prop where
  getTs_le : ∀ t, W.getTs t ≤ t
  getTs_mono : ∀ t u, t ≤ u → W.getTs t ≤ W.getTs u
  getTs_idem : ∀ t, W.getTs (W.getTs t) = W.getTs t

/-- A fresh aggregator does not start after its creation time. -/
def StartsInTime : Prop := ∀ t, W.currentTime (W.create t) ≤ t

/-- There is a later period after every time. -/
def PeriodsGoOn : Prop := ∀ t, ∃ u, t < W.getTs u

/-- Two points of one time combine into a point of that time. -/
def KeepsTime : Prop := ∀ a b, a.ts = b.ts → (W.plus a b).ts = a.ts

/-- What the library returns for a period that starts at `ts` with sum `opened`. -/
def Reports (opened : Option ℕ) (ts : ℤ) : Option AggregatedData → Prop
  | none => opened = none
  | some ag => opened = some ag.count ∧ ag.ts = ts

/-- The library sums counts per period, moves only forward, emits a finished period on
the first push of a later one and reports the open period on request. -/
structure SumsCounts (opened : W.Aggregator → Option ℕ) : Prop where
  currentTime_create : ∀ t, W.currentTime (W.create t) = W.getTs t
  opened_create : ∀ t, opened (W.create t) = none
  push_current : ∀ s d, W.getTs d.ts = W.currentTime s →
    (W.push s d).1 = [] ∧ W.currentTime (W.push s d).2 = W.currentTime s ∧
      opened (W.push s d).2 = some ((opened s).getD 0 + d.count)
  push_later : ∀ s d, W.currentTime s < W.getTs d.ts →
    (∃ r, Reports (opened s) (W.currentTime s) r ∧ (W.push s d).1 = r.toList) ∧
      W.currentTime (W.push s d).2 = W.getTs d.ts ∧ opened (W.push s d).2 = some d.count
  aggregateCurrent : ∀ s, Reports (opened s) (W.currentTime s) (W.aggregateCurrent s).1 ∧
    W.currentTime (W.aggregateCurrent s).2 = W.currentTime s ∧
      opened (W.aggregateCurrent s).2 = opened s
  forcePop : ∀ s, Reports (opened s) (W.currentTime s) (W.forcePop s).1

/-- Percentiles computed past the aggregator change nothing else, and `+=` adds counts. -/
structure CombinesCounts : Prop where
  calcPerc : ∀ d, (W.calcPerc d).toReducedInfo = d.toReducedInfo
  plus : ∀ a b, (W.plus a b).count = a.count + b.count

/-- A `reduced_data` of the current period is added to it, and an older one is added or
ignored as `addsOld` says; one that counts nothing never moves the period. -/
structure AddsReduced (opened : W.Aggregator → Option ℕ) (addsOld : Bool) : Prop where
  add_current : ∀ s rd, W.getTs rd.ts = W.currentTime s →
    W.currentTime (W.add s rd) = W.currentTime s ∧
      opened (W.add s rd) = some ((opened s).getD 0 + rd.count)
  add_old : ∀ s rd, W.getTs rd.ts ≠ W.currentTime s → rd.ts < W.currentTime s ∨ rd.count = 0 →
    W.currentTime (W.add s rd) = W.currentTime s ∧
      opened (W.add s rd) = if addsOld then some ((opened s).getD 0 + rd.count) else opened s

/-- What `force_pop` returns after one `reduced_data` was added to a new aggregator: those
data at the start of the period, with percentiles of their values, if they were taken. -/
structure PopsReduced (addsOld : Bool) (perc : List ℤ → AggregatedPerc) : Prop where
  pop_added : ∀ t rd, W.getTs rd.ts = W.getTs t ∨ addsOld = true ∧ (rd.ts < W.getTs t ∨ rd.count = 0) →
    ∃ ag, (W.forcePop (W.add (W.create t) rd)).1 = some ag ∧
      ag.toPoint = { toReducedInfo := { rd.toReducedInfo with ts := W.getTs t },
                     toAggregatedPerc := perc rd.data }
  pop_ignored : ∀ t rd, W.getTs rd.ts ≠ W.getTs t → addsOld = false →
    rd.ts < W.getTs t ∨ rd.count = 0 → (W.forcePop (W.add (W.create t) rd)).1 = none

/-- The aggregator is at the start of a period. -/
def Aligned (s : W.Aggregator) : Prop := W.getTs (W.currentTime s) = W.currentTime s

/-- No call takes an aggregator off the start of a period. -/
structure StaysAligned : Prop where
  push : ∀ s d, W.Aligned s → W.Aligned (W.push s d).2
  add : ∀ s rd, W.Aligned s → W.Aligned (W.add s rd)
  aggregateCurrent : ∀ s, W.Aligned s → W.Aligned (W.aggregateCurrent s).2
  forcePop : ∀ s, W.Aligned s → W.Aligned (W.forcePop s).2

/-- Pushed data older than the current period leave the period where it is. -/
structure KeepsPeriod (opened : W.Aggregator → Option ℕ) : Prop where
  push_old : ∀ s d, W.getTs d.ts < W.currentTime s →
    (W.push s d).1 = [] ∧ W.currentTime (W.push s d).2 = W.currentTime s

end Wrtstat

end WfcBtp
