import WfcBtp.Proofs.Accounting
import WfcBtp.Model.WrtstatReference

/-!
# Conservation of counts

Over adds in any time order, the stored counts are the sums of the added ones.
-/

namespace WfcBtp
open Library

variable {W : Wrtstat}

/-- The data that were added to `name`. -/
def callsOf (name : Name) (adds : List AddCall) : List AggregatedData :=
  (adds.filter fun c => c.name = name).map (·.data)

lemma callsOf_snoc (name : Name) (adds : List AddCall) (c : AddCall) :
    callsOf name (adds ++ [c]) = if c.name = name then callsOf name adds ++ [c.data] else callsOf name adds := by
  unfold callsOf
  by_cases h : c.name = name <;> simp [h]

/-- What holds after a run of adds: every name's data are on the ledger of its id. -/
structure AddsAccounted (opened : W.Aggregator → Option ℕ) (adds : List AddCall) (s : Storage W) : Prop where
  aggregates : s.keyCache.options.aggregateLastPoint = true
  merges : s.disableMerge = false
  accounted : ∃ added, Book.Accounted opened ⟨s, added⟩ ∧
    ∀ name, added (s.keyCache.getId name) = callsOf name adds

namespace AddsAccounted

variable {opened : W.Aggregator → Option ℕ}

lemma add (hA : W.AlignsTime) (hS : W.SumsCounts opened) (hC : W.CombinesCounts) {adds : List AddCall}
    {s : Storage W} (h : AddsAccounted opened adds s) {c : AddCall} (hts : c.data.ts ≠ 0)
    (hok : (s.add c.clock allOk c.name c.data).1 = .ok ()) :
    AddsAccounted opened (adds ++ [c]) (s.addStep c) := by
  obtain ⟨added, hacc, hcalls⟩ := h.accounted
  have hnext := hacc.add hA hS hC (c := c) ⟨hts, hok, fun _ => h.merges⟩
  refine ⟨?_, ?_, _, hnext, fun name => ?_⟩
  · rw [Storage.addStep, Storage.add_options]
    exact h.aggregates
  · rw [Storage.addStep, Storage.add_disableMerge]
    exact h.merges
  · have hfind : (s.addStep c).keyCache.keyMap.find? name =
        if name = c.name then some (s.addKey c.name c.data).1 else s.keyCache.keyMap.find? name :=
      Storage.add_find? _ _ _ _ _ _
    rw [callsOf_snoc]
    by_cases hn : name = c.name
    · subst hn
      rw [if_pos rfl] at hfind
      rw [if_pos rfl, KeyCache.getId_of_some hfind, Storage.addKey_getId]
      change (if _ then added (s.keyId c.name) ++ [c.data] else _) = _
      rw [if_pos rfl, ← hcalls]
      -- a name that is not cached has had no data, under no id
      cases hk : s.keyCache.keyMap.find? c.name with
      | some ka => rw [Storage.keyId_of_some hk, KeyCache.getId_of_some hk]
      | none =>
        have hgetId : s.keyCache.getId c.name = badKey := by simp [KeyCache.getId, hk]
        have hnew : added (s.keyId c.name) = [] :=
          (hacc.unused _ (by rw [Storage.keyId_eq_succ hacc.counter_lt hk]; exact Nat.lt_succ_self _)).2
        have hbad : added badKey = [] := (hacc.unused _ hacc.counter_lt).2
        rw [hgetId, hnew, hbad]
    · rw [if_neg hn] at hfind
      have hsame : (s.addStep c).keyCache.getId name = s.keyCache.getId name := by
        simp only [KeyCache.getId, hfind]
      have hother : s.keyCache.getId name ≠ s.keyId c.name := by
        cases hk : s.keyCache.keyMap.find? name with
        | some ka =>
          rw [KeyCache.getId_of_some hk]
          exact fun he => hn (hacc.name_eq_of_keyId hk he)
        | none =>
          have hgetId : s.keyCache.getId name = badKey := by simp [KeyCache.getId, hk]
          rw [hgetId]
          exact ((Storage.add_status_iff _ _ _ _).mp hok).symm
      rw [if_neg (Ne.symm hn), hsame, ← hcalls]
      exact if_neg hother

end AddsAccounted

lemma addsAccounted_of_run {opened : W.Aggregator → Option ℕ} (hA : W.AlignsTime) (hS : W.SumsCounts opened)
    (hC : W.CombinesCounts) {opt : StorageOptions} (hlast : opt.keyCache.aggregateLastPoint = true)
    (hmerge : opt.disableMerge = false) (clock : ℤ) (hashSize resultLimit : ℕ) {adds : List AddCall}
    (hadds : RunMeets Storage.addStep
      (fun s c => c.data.ts ≠ 0 ∧ (s.add c.clock allOk c.name c.data).1 = .ok ())
      (Storage.fresh W opt clock hashSize resultLimit) adds) :
    AddsAccounted opened adds (adds.foldl Storage.addStep (Storage.fresh W opt clock hashSize resultLimit)) := by
  refine RunMeets.invariant (AddsAccounted opened) ?_ ?_ hadds
  · refine ⟨?_, hmerge, fun _ => [], Book.accounted_fresh hA hS opt clock hashSize resultLimit, fun _ => rfl⟩
    rw [Storage.fresh, Storage.openOn_options]
    exact hlast
  · intro hist s c h hc
    exact h.add hA hS hC hc.1 hc.2

/-- However the times of the adds are ordered, after every one of them the count stored
at a time is the sum of the counts of the adds of that period, and a time that no add
aligns to has no point. -/
theorem counts_conserved {opened : W.Aggregator → Option ℕ} (hA : W.AlignsTime) (hS : W.SumsCounts opened)
    (hC : W.CombinesCounts) (opt : StorageOptions) (hlast : opt.keyCache.aggregateLastPoint = true)
    (hmerge : opt.disableMerge = false) (clock : ℤ) (hashSize resultLimit : ℕ) (adds : List AddCall)
    (hadds : RunMeets Storage.addStep
      (fun s c => c.data.ts ≠ 0 ∧ (s.add c.clock allOk c.name c.data).1 = .ok ())
      (Storage.fresh W opt clock hashSize resultLimit) adds) (name : Name) (t : ℤ) :
    let s := adds.foldl Storage.addStep (Storage.fresh W opt clock hashSize resultLimit)
    (s.dataStorage.point? (s.keyCache.getId name) t).map (·.count) = recorded W (callsOf name adds) t := by
  intro s
  have h := addsAccounted_of_run hA hS hC hlast hmerge clock hashSize resultLimit hadds
  obtain ⟨added, hacc, hcalls⟩ := h.accounted
  obtain ⟨ka, hopt, hledger, _, _⟩ := hacc.ledger (s.keyCache.getId name)
  rw [← hcalls name]
  change countAt? _ t = _
  by_cases ht : t = W.currentTime ka.aggregator
  · rw [ht, hledger.stored_open, hopt, h.aggregates, if_pos rfl]
  · exact hledger.stored t ht

theorem counts_conserved_with_late_data :
    let adds : List AddCall := [⟨0, [97], { ts := 7, count := 1 }⟩, ⟨0, [97], { ts := 12, count := 2 }⟩,
      ⟨0, [98], { ts := 5, count := 3 }⟩, ⟨0, [97], { ts := 6, count := 4 }⟩]
    let s := adds.foldl Storage.addStep
      (Storage.fresh (Wrtstat.reference 5 false) { keyCache := { aggregateLastPoint := true, resolution := 1 } } 0 4 10)
    (s.dataStorage.point? (s.keyCache.getId [97]) 5).map (·.count) = some 5 :=
  counts_conserved (Wrtstat.reference_alignsTime (by omega) false) (Wrtstat.reference_sumsCounts 5 false)
    (Wrtstat.reference_combinesCounts 5 false) { keyCache := { aggregateLastPoint := true, resolution := 1 } } rfl rfl 0 4 10
    [⟨0, [97], { ts := 7, count := 1 }⟩, ⟨0, [97], { ts := 12, count := 2 }⟩,
      ⟨0, [98], { ts := 5, count := 3 }⟩, ⟨0, [97], { ts := 6, count := 4 }⟩]
    ⟨⟨by decide, rfl⟩, ⟨by decide, rfl⟩, ⟨by decide, rfl⟩, ⟨by decide, rfl⟩, trivial⟩ [97] 5

end WfcBtp
