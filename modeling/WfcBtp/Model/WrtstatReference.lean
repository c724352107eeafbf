import Mathlib.Algebra.BigOperators.Group.List.Basic
import Mathlib.Data.List.Sort
import Mathlib.Tactic.Linarith
import WfcBtp.Model.Wrtstat

/-!
# A reference aggregation library

A concrete library with the documented behaviour: it keeps everything that was pushed or
added for the current period and aggregates it on request. It shows that what the results
assume of the library can be met, and runs the model on concrete data.
-/

namespace WfcBtp

namespace Wrtstat

/-- The period an aggregator is in and what was added for it. -/
structure Period where
  current : ℤ
  items : List ReducedData
  deriving DecidableEq

/-- Rounds down to a multiple of `step`. -/
def align (step t : ℤ) : ℤ := t - t % step

/-- The percentile `p` of a list of values, zero for the empty list. -/
def nth (sorted : List ℤ) (p : ℕ) : ℤ := sorted.getD (min (sorted.length * p / 100) (sorted.length - 1)) 0

def percOf (data : List ℤ) : AggregatedPerc :=
  let sorted := data.insertionSort (· ≤ ·)
  { perc50 := nth sorted 50
    perc80 := nth sorted 80
    perc95 := nth sorted 95
    perc99 := nth sorted 99
    perc100 := nth sorted 100 }

/-- The mean of two values weighted by their counts. -/
def weighted (v : ℤ) (n : ℕ) (v' : ℤ) (n' : ℕ) : ℤ := if n + n' = 0 then 0 else (v * n + v' * n') / (n + n')

/-- Both parts of a period together. -/
def reduce (a b : ReducedData) : ReducedData where
  ts := a.ts
  count := a.count + b.count
  lossy := a.lossy + b.lossy
  min := min a.min b.min
  max := max a.max b.max
  avg := weighted a.avg a.count b.avg b.count
  data := a.data ++ b.data

def aggregate (s : Period) : Option AggregatedData :=
  match s.items with
  | [] => none
  | rd :: rest =>
    let r := rest.foldl reduce rd
    some { toReducedData := { r with ts := s.current }, toAggregatedPerc := percOf r.data }

/-- `operator+=` of `aggregated_info`. -/
def combine (a b : AggregatedInfo) : AggregatedInfo where
  ts := b.ts
  count := a.count + b.count
  lossy := a.lossy + b.lossy
  min := if a.count = 0 then b.min else min a.min b.min
  max := max a.max b.max
  avg := weighted a.avg a.count b.avg b.count
  perc50 := weighted a.perc50 a.count b.perc50 b.count
  perc80 := weighted a.perc80 a.count b.perc80 b.count
  perc95 := weighted a.perc95 a.count b.perc95 b.count
  perc99 := weighted a.perc99 a.count b.perc99 b.count
  perc100 := weighted a.perc100 a.count b.perc100 b.count

/-- Periods of length `step`; `addsOld` says what happens to data older than the period. -/
def reference (step : ℤ) (addsOld : Bool) : Wrtstat where
  Aggregator := Period
  create t := ⟨align step t, []⟩
  currentTime s := s.current
  getTs := align step
  push s d :=
    if s.current < align step d.ts then
      ((aggregate s).toList, ⟨align step d.ts, [d.toReducedData]⟩)
    else if align step d.ts = s.current ∨ addsOld then
      ([], { s with items := s.items ++ [d.toReducedData] })
    else ([], s)
  add s rd :=
    if align step rd.ts = s.current ∨ addsOld then { s with items := s.items ++ [rd] } else s
  aggregateCurrent s := (aggregate s, s)
  forcePop s := (aggregate s, { s with items := [] })
  calcPerc d := if d.data.isEmpty then d else { d with toAggregatedPerc := percOf d.data }
  plus := combine

/-- The sum of the counts of the open period. -/
def openedSum (s : Period) : Option ℕ := if s.items.isEmpty then none else some (s.items.map (·.count)).sum

lemma foldl_reduce_count (l : List ReducedData) (rd : ReducedData) :
    (l.foldl reduce rd).count = rd.count + (l.map (·.count)).sum := by
  induction l generalizing rd with
  | nil => simp
  | cons d rest ih =>
    rw [List.foldl_cons, ih, List.map_cons, List.sum_cons]
    exact Nat.add_assoc _ _ _

lemma reports_aggregate (s : Period) : Reports (openedSum s) s.current (aggregate s) := by
  obtain ⟨current, items⟩ := s
  cases items with
  | nil => rfl
  | cons rd rest => exact ⟨by simp [openedSum, foldl_reduce_count], rfl⟩

lemma openedSum_append (s : Period) (rd : ReducedData) :
    openedSum { s with items := s.items ++ [rd] } = some ((openedSum s).getD 0 + rd.count) := by
  obtain ⟨current, items⟩ := s
  cases items with
  | nil => simp [openedSum]
  | cons d rest => simp [openedSum, Nat.add_assoc]

theorem reference_alignsTime {step : ℤ} (hstep : 0 < step) (addsOld : Bool) :
    (reference step addsOld).AlignsTime where
  getTs_le t := by
    have := Int.emod_nonneg t hstep.ne'
    change t - t % step ≤ t
    omega
  getTs_mono t u h := by
    change t - t % step ≤ u - u % step
    have ht := Int.mul_ediv_add_emod t step
    have hu := Int.mul_ediv_add_emod u step
    have hdiv : t / step ≤ u / step := Int.ediv_le_ediv hstep h
    have hmul : step * (t / step) ≤ step * (u / step) := Int.mul_le_mul_of_nonneg_left hdiv hstep.le
    omega
  getTs_idem t := by
    change align step (align step t) = align step t
    have h : (t - t % step) % step = 0 := by rw [Int.sub_emod, Int.emod_emod, sub_self, Int.zero_emod]
    simp [align, h]

theorem reference_startsInTime {step : ℤ} (hstep : 0 < step) (addsOld : Bool) :
    (reference step addsOld).StartsInTime :=
  (reference_alignsTime hstep addsOld).getTs_le

theorem reference_periodsGoOn {step : ℤ} (hstep : 0 < step) (addsOld : Bool) :
    (reference step addsOld).PeriodsGoOn := by
  intro t
  have := Int.emod_lt_of_pos (t + step) hstep
  refine ⟨t + step, ?_⟩
  change t < t + step - (t + step) % step
  omega

theorem reference_sumsCounts (step : ℤ) (addsOld : Bool) :
    (reference step addsOld).SumsCounts openedSum where
  currentTime_create _ := rfl
  opened_create _ := rfl
  push_current s d h := by
    replace h : align step d.ts = s.current := h
    simp only [reference, h, lt_irrefl, if_false, true_or, if_true]
    exact ⟨trivial, trivial, openedSum_append s d.toReducedData⟩
  push_later s d h := by
    replace h : s.current < align step d.ts := h
    simp only [reference, h, if_true]
    exact ⟨⟨aggregate s, reports_aggregate s, rfl⟩, trivial, by simp [openedSum]⟩
  aggregateCurrent s := ⟨reports_aggregate s, rfl, rfl⟩
  forcePop s := reports_aggregate s

theorem reference_combinesCounts (step : ℤ) (addsOld : Bool) :
    (reference step addsOld).CombinesCounts where
  calcPerc d := by
    simp only [reference]
    split <;> rfl
  plus _ _ := rfl

theorem reference_keepsTime (step : ℤ) (addsOld : Bool) : (reference step addsOld).KeepsTime :=
  fun _ _ h => h.symm

theorem reference_addsReduced (step : ℤ) (addsOld : Bool) :
    (reference step addsOld).AddsReduced openedSum addsOld where
  add_current s rd h := by
    have hadd : (reference step addsOld).add s rd = { s with items := s.items ++ [rd] } :=
      if_pos (Or.inl h)
    rw [hadd]
    exact ⟨rfl, openedSum_append s rd⟩
  add_old s rd h _ := by
    cases addsOld with
    | true =>
      have hadd : (reference step true).add s rd = { s with items := s.items ++ [rd] } :=
        if_pos (Or.inr rfl)
      rw [hadd]
      exact ⟨rfl, openedSum_append s rd⟩
    | false =>
      have hadd : (reference step false).add s rd = s := if_neg (by rintro (he | he); exacts [h he, by cases he])
      rw [hadd]
      exact ⟨rfl, rfl⟩

theorem reference_popsReduced (step : ℤ) (addsOld : Bool) :
    (reference step addsOld).PopsReduced addsOld percOf where
  pop_added t rd h := by
    have hadd : (reference step addsOld).add ((reference step addsOld).create t) rd = ⟨align step t, [rd]⟩ :=
      if_pos (h.imp id And.left)
    rw [hadd]
    exact ⟨_, rfl, rfl⟩
  pop_ignored t rd h hold _ := by
    have hadd : (reference step addsOld).add ((reference step addsOld).create t) rd = ⟨align step t, []⟩ :=
      if_neg (by rintro (he | he); exacts [h he, absurd he (by simp [hold])])
    rw [hadd]
    rfl

theorem reference_staysAligned {step : ℤ} (hstep : 0 < step) (addsOld : Bool) :
    (reference step addsOld).StaysAligned where
  push s d h := by
    have hidem := (reference_alignsTime hstep addsOld).getTs_idem d.ts
    change (reference step addsOld).Aligned (if s.current < align step d.ts then
      ((aggregate s).toList, (⟨align step d.ts, [d.toReducedData]⟩ : Period))
      else if align step d.ts = s.current ∨ addsOld then ([], { s with items := s.items ++ [d.toReducedData] })
      else ([], s)).2
    split_ifs
    · exact hidem
    · exact h
    · exact h
  add s rd h := by
    by_cases hc : align step rd.ts = s.current ∨ addsOld = true
    · have hadd : (reference step addsOld).add s rd = { s with items := s.items ++ [rd] } := if_pos hc
      rw [hadd]
      exact h
    · have hadd : (reference step addsOld).add s rd = s := if_neg hc
      rw [hadd]
      exact h
  aggregateCurrent _ h := h
  forcePop _ h := h

theorem reference_keepsPeriod (step : ℤ) (addsOld : Bool) :
    (reference step addsOld).KeepsPeriod openedSum where
  push_old s d h := by
    replace h : align step d.ts < s.current := h
    simp only [reference, h.not_gt, h.ne, if_false, false_or]
    cases addsOld <;> exact ⟨rfl, rfl⟩

end Wrtstat

end WfcBtp
