import Mathlib.Data.List.Induction
import Mathlib.Order.Bounds.Basic
import WfcBtp.Library.Runs
import WfcBtp.Model.WrtstatReference
import WfcBtp.Proofs.Writes

/-!
# The last update of a key

Every point that is recorded in a key info assigns its time to `last_update`. An add
records the period its aggregator leaves and the one it is in, a merge the points of its
list in the order they come.
-/

namespace WfcBtp
open Library

variable {W : Wrtstat} {opened : W.Aggregator → Option ℕ} {addsOld : Bool}

/-- Data older than the current period that are pushed all the same are added to it or
ignored as `addsOld` says. -/
structure Wrtstat.PushesOld (W : Wrtstat) (opened : W.Aggregator → Option ℕ) (addsOld : Bool) : Prop where
  push_old : ∀ s d, W.getTs d.ts < W.currentTime s →
    (W.push s d).1 = [] ∧ W.currentTime (W.push s d).2 = W.currentTime s ∧
      opened (W.push s d).2 = if addsOld then some ((opened s).getD 0 + d.count) else opened s

theorem Wrtstat.reference_pushesOld (step : ℤ) (addsOld : Bool) :
    (Wrtstat.reference step addsOld).PushesOld openedSum addsOld where
  push_old s d h := by
    replace h : align step d.ts < s.current := h
    simp only [reference, h.not_gt, h.ne, if_false, false_or]
    cases addsOld with
    | true => exact ⟨rfl, rfl, openedSum_append s d.toReducedData⟩
    | false => exact ⟨rfl, rfl, rfl⟩

namespace KeyAggregator

inductive Call
  | add (data : AggregatedData)
  | merge (data : List AggregatedInfo)

/-- The times of the points that a call records in the key info. -/
def recordedTimes (ka : KeyAggregator W) : Call → List ℤ
  | .add data => if ka.isLate data.ts then [] else (ka.currentPoints data).map (·.ts)
  | .merge data => data.map fun d => W.getTs d.ts

/-- The periods an on-time add records: the one that is finished by it, if that has data,
and the open one, if the last point is aggregated. -/
def addedTimes (opened : W.Aggregator → Option ℕ) (addsOld : Bool) (ka : KeyAggregator W) (data : AggregatedData) :
    List ℤ :=
  if W.currentTime ka.aggregator < W.getTs data.ts then
    (if (opened ka.aggregator).isSome then [W.currentTime ka.aggregator] else []) ++
      if ka.aggregateLastPoint then [W.getTs data.ts] else []
  else if ka.aggregateLastPoint ∧
      (W.getTs data.ts = W.currentTime ka.aggregator ∨ addsOld ∨ (opened ka.aggregator).isSome) then
    [W.currentTime ka.aggregator]
  else []

lemma map_ts_of_reports {o : Option ℕ} {t : ℤ} {r : Option AggregatedData} (h : Wrtstat.Reports o t r) :
    (r.toList.map AggregatedData.toPoint).map (·.ts) = if o.isSome then [t] else [] := by
  cases r with
  | none =>
    have ho : o = none := h
    simp [ho]
  | some ag => simp [h.1, h.2]

lemma currentPoints_times (hS : W.SumsCounts opened) (hO : W.PushesOld opened addsOld) (ka : KeyAggregator W)
    (data : AggregatedData) : (ka.currentPoints data).map (·.ts) = addedTimes opened addsOld ka data := by
  have hts : (fillData data).ts = data.ts := congrArg ReducedInfo.ts (fillData_toReducedInfo data)
  obtain ⟨hrep, -, -⟩ := hS.aggregateCurrent (W.push ka.aggregator (fillData data)).2
  have hopen := map_ts_of_reports hrep
  have hsplit : (ka.currentPoints data).map (·.ts) =
      ((W.push ka.aggregator (fillData data)).1.map AggregatedData.toPoint).map (·.ts) ++
        if ka.aggregateLastPoint then
          (if (opened (W.push ka.aggregator (fillData data)).2).isSome then
            [W.currentTime (W.push ka.aggregator (fillData data)).2] else [])
        else [] := by
    rw [← hopen, currentPoints, List.map_append, List.map_append]
    cases ka.aggregateLastPoint <;> simp
  rw [hsplit, addedTimes]
  rcases lt_trichotomy (W.currentTime ka.aggregator) (W.getTs data.ts) with hlt | heq | hgt
  · obtain ⟨⟨r, hr, hlist⟩, htime, hsome⟩ := hS.push_later ka.aggregator (fillData data) (by rwa [hts])
    rw [hlist, map_ts_of_reports hr, htime, hsome, hts, if_pos hlt]
    rfl
  · obtain ⟨hnil, htime, hsome⟩ := hS.push_current ka.aggregator (fillData data) (by rw [hts, heq])
    rw [hnil, htime, hsome, if_neg heq.not_lt]
    simp [heq]
  · obtain ⟨hnil, htime, hsome⟩ := hO.push_old ka.aggregator (fillData data) (by rwa [hts])
    rw [hnil, htime, hsome, if_neg hgt.not_gt]
    cases addsOld with
    | true => simp
    | false => cases ka.aggregateLastPoint <;> simp [hgt.ne]

/-- The last recorded time is the one that stays. -/
lemma foldl_updateInfo_lastUpdate_getD (ds : List AggregatedInfo) (ki : StoredKey) :
    (ds.foldl updateInfo ki).lastUpdate = ((ds.map (·.ts)).getLast?).getD ki.lastUpdate := by
  induction ds using List.reverseRecOn with
  | nil => rfl
  | append_singleton ds d ih =>
    rw [List.foldl_append, List.map_append, List.map_singleton, List.getLast?_concat]
    rfl

end KeyAggregator

open KeyAggregator

/-- A key with the times recorded in its key info so far, and with what its storage has
written for it. -/
structure KeyHistory (W : Wrtstat) where
  key : KeyAggregator W
  times : List ℤ
  stored : Option StoredKey

namespace KeyHistory

/-- A call on the key. Its key info is written by every call that may have changed it. -/
def step (h : KeyHistory W) : Call → KeyHistory W
  | .add data =>
    let r := h.key.add data []
    { key := r.1
      times := h.times ++ h.key.recordedTimes (.add data)
      stored := if r.2.2 then some r.1.getKeyInfo else h.stored }
  | .merge data =>
    let r := h.key.merge [] data
    { key := r.1
      times := h.times ++ h.key.recordedTimes (.merge data)
      stored := if data.isEmpty then h.stored else some r.1.getKeyInfo }

/-- `last_update` is the newest recorded time, in memory and as it is stored. -/
structure UpToDate (h : KeyHistory W) : Prop where
  newest : h.times ≠ [] → IsGreatest {t | t ∈ h.times} h.key.keyInfo.lastUpdate
  stored : ∀ ki ∈ h.stored, ki.lastUpdate = h.key.keyInfo.lastUpdate

/-- The call does not take `last_update` back, and leaves it the newest recorded time. -/
def Advances (h : KeyHistory W) (c : Call) : Prop :=
  h.key.keyInfo.lastUpdate ≤ (h.step c).key.keyInfo.lastUpdate ∧ (h.step c).UpToDate

/-- The newest time a call records comes last, and is not before `last_update`. -/
def InOrder (opened : W.Aggregator → Option ℕ) (addsOld : Bool) (h : KeyHistory W) : Call → Prop
  | .add data => h.key.isLate data.ts ∨
      ∀ t ∈ (addedTimes opened addsOld h.key data).getLast?, h.key.keyInfo.lastUpdate ≤ t
  | .merge data => ∀ d ∈ data.getLast?, h.key.keyInfo.lastUpdate ≤ W.getTs d.ts ∧
      ∀ e ∈ data, W.getTs e.ts ≤ W.getTs d.ts

/-- A key before anything is recorded in it. -/
def fresh (W : Wrtstat) (id : KeyId) (ts : ℤ) (opt : KeyCacheOptions) : KeyHistory W where
  key := KeyAggregator.create 0 id ts opt
  times := []
  stored := none

lemma upToDate_fresh (id : KeyId) (ts : ℤ) (opt : KeyCacheOptions) : (fresh W id ts opt).UpToDate :=
  ⟨fun hne => absurd rfl hne, fun ki hki => by cases hki⟩

lemma step_times (h : KeyHistory W) (c : Call) : (h.step c).times = h.times ++ h.key.recordedTimes c := by
  cases c <;> rfl

/-- After a call, `last_update` is the last time it recorded, if it recorded one. -/
lemma step_lastUpdate (h : KeyHistory W) (c : Call) :
    (h.step c).key.keyInfo.lastUpdate =
      ((h.key.recordedTimes c).getLast?).getD h.key.keyInfo.lastUpdate := by
  cases c with
  | add data =>
    change (h.key.add data []).1.keyInfo.lastUpdate = _
    by_cases hl : h.key.isLate data.ts
    · rw [add_of_late hl, recordedTimes, if_pos hl]
      rfl
    · rw [add_of_not_late hl, recordedTimes, if_neg hl]
      exact foldl_updateInfo_lastUpdate_getD _ _
  | merge data =>
    change (h.key.merge [] data).1.keyInfo.lastUpdate = _
    rw [merge_keyInfo]
    dsimp only
    rw [foldl_updateInfo_lastUpdate_getD, List.map_map]
    rfl

/-- What was stored is the key info, or still what it was with the same `last_update`. -/
lemma step_stored {h : KeyHistory W} (hstored : ∀ ki ∈ h.stored, ki.lastUpdate = h.key.keyInfo.lastUpdate)
    (c : Call) : ∀ ki ∈ (h.step c).stored, ki.lastUpdate = (h.step c).key.keyInfo.lastUpdate := by
  intro ki hki
  cases c with
  | add data =>
    by_cases hl : h.key.isLate data.ts
    · simp only [step, add_of_late hl, Bool.false_eq_true, if_false] at hki ⊢
      exact hstored ki hki
    · simp only [step, add_of_not_late hl, if_true, Option.mem_some_iff] at hki ⊢
      rw [← hki]
      rfl
  | merge data =>
    cases data with
    | nil => exact hstored ki hki
    | cons d rest =>
      simp only [step, List.isEmpty_cons, Bool.false_eq_true, if_false, Option.mem_some_iff] at hki ⊢
      rw [← hki]
      rfl

lemma UpToDate.le {h : KeyHistory W} (hup : h.UpToDate) {t : ℤ} (ht : t ∈ h.times) :
    t ≤ h.key.keyInfo.lastUpdate :=
  (hup.newest (List.ne_nil_of_mem ht)).2 ht

/-- A call advances the key exactly when the last time it records is the newest. -/
lemma UpToDate.advances_iff {h : KeyHistory W} (hup : h.UpToDate) (c : Call) :
    h.Advances c ↔ ∀ t ∈ (h.key.recordedTimes c).getLast?,
      h.key.keyInfo.lastUpdate ≤ t ∧ ∀ u ∈ h.key.recordedTimes c, u ≤ t := by
  have hlast := h.step_lastUpdate c
  have htimes := h.step_times c
  constructor
  · rintro ⟨hle, hnext⟩ t ht
    rw [Option.mem_def] at ht
    rw [ht, Option.getD_some] at hlast
    refine ⟨hlast ▸ hle, fun u hu => ?_⟩
    rw [← hlast]
    apply hnext.le
    rw [htimes]
    exact List.mem_append_right _ hu
  · intro hcond
    have hstored := step_stored hup.stored c
    cases hr : (h.key.recordedTimes c).getLast? with
    | none =>
      have hnil : h.key.recordedTimes c = [] := List.getLast?_eq_none_iff.mp hr
      rw [hr, Option.getD_none] at hlast
      rw [hnil, List.append_nil] at htimes
      refine ⟨hlast.ge, fun hne => ?_, hstored⟩
      rw [hlast, htimes]
      exact hup.newest (htimes ▸ hne)
    | some t =>
      obtain ⟨hle, hnewest⟩ := hcond t hr
      rw [hr, Option.getD_some] at hlast
      refine ⟨hlast ▸ hle, fun _ => ?_, hstored⟩
      rw [hlast, htimes]
      constructor
      · exact List.mem_append_right _ (List.mem_of_getLast? hr)
      · intro u hu
        rcases List.mem_append.mp hu with hu | hu
        · exact (hup.le hu).trans hle
        · exact hnewest u hu

lemma le_getLast_addedTimes {ka : KeyAggregator W} {data : AggregatedData} {t : ℤ}
    (ht : t ∈ (addedTimes opened addsOld ka data).getLast?) : ∀ u ∈ addedTimes opened addsOld ka data, u ≤ t := by
  have hsorted : (addedTimes opened addsOld ka data).Pairwise (· ≤ ·) := by
    unfold addedTimes
    by_cases hlt : W.currentTime ka.aggregator < W.getTs data.ts
    · rw [if_pos hlt]
      split_ifs <;> simp [hlt.le]
    · rw [if_neg hlt]
      split_ifs <;> simp
  intro u hu
  obtain ⟨before, hsplit⟩ := List.getLast?_eq_some_iff.mp ht
  rw [hsplit] at hsorted hu
  rcases List.mem_append.mp hu with hu | hu
  · exact (List.pairwise_append.mp hsorted).2.2 u hu t List.mem_cons_self
  · exact (List.mem_singleton.mp hu).le

/-- So it does for the calls whose newest time comes last and is not before `last_update`. -/
lemma UpToDate.advances_iff_inOrder (hS : W.SumsCounts opened) (hO : W.PushesOld opened addsOld)
    {h : KeyHistory W} (hup : h.UpToDate) (c : Call) : h.Advances c ↔ h.InOrder opened addsOld c := by
  rw [hup.advances_iff]
  cases c with
  | add data =>
    rw [recordedTimes, InOrder]
    by_cases hl : h.key.isLate data.ts
    · simp [hl]
    · rw [if_neg hl, currentPoints_times hS hO, or_iff_right hl]
      exact forall₂_congr fun t ht => and_iff_left (le_getLast_addedTimes ht)
  | merge data =>
    rw [recordedTimes, InOrder, List.getLast?_map]
    simp

end KeyHistory

/-! ### Through the storage -/

namespace Storage

/-- The cache has the key under a real id, and key storage what was written for it. -/
structure Keeps (s : Storage W) (name : Name) (h : KeyHistory W) : Prop where
  cached : s.keyCache.keyMap.find? name = some h.key
  stored : s.keyStorage.key? name = h.stored
  real : h.key.getId ≠ badKey

/-- A call on the key made through the storage at some clock, with no failing write. -/
def callStep (name : Name) (s : Storage W) (c : ℤ × Call) : Storage W :=
  match c.2 with
  | .add data => (s.add c.1 allOk name data).2
  | .merge data => (s.merge c.1 allOk name data).2

lemma Keeps.step {s : Storage W} {name : Name} {h : KeyHistory W} (hs : s.Keeps name h) (c : ℤ × Call) :
    (s.callStep name c).Keeps name (h.step c.2) := by
  have hid : s.keyId name ≠ badKey := by
    rw [keyId_of_some hs.cached]
    exact hs.real
  obtain ⟨clock, c⟩ := c
  cases c with
  | add data =>
    have hadd : s.addKey name data = h.key.add data [] := by
      rw [addKey, KeyCache.keyOrNew_of_some _ hs.cached]
    constructor
    · change (s.add clock allOk name data).2.keyCache.keyMap.find? name = _
      rw [add_find?, if_pos rfl, hadd]
      rfl
    · change (s.add clock allOk name data).2.keyStorage.key? name = _
      rw [add_key? hid, hadd, hs.stored]
      simp only [true_and, KeyHistory.step]
      rfl
    · change (h.key.add data []).1.getId ≠ badKey
      rw [add_getId]
      exact hs.real
  | merge data =>
    by_cases hne : data = []
    · subst hne
      exact ⟨hs.cached, hs.stored, hs.real⟩
    · have hok : (s.merge clock allOk name data).1 = .ok () := (merge_status_iff _ _ _ _).mpr ⟨hne, hid⟩
      have hmerge : (s.mergeKey name data) = h.key.merge [] data := by
        rw [mergeKey, KeyCache.keyOrNew_of_some _ hs.cached]
      constructor
      · change (s.merge clock allOk name data).2.keyCache.keyMap.find? name = _
        rw [merge_find? s allOk hne, if_pos rfl, hmerge]
        rfl
      · change (s.merge clock allOk name data).2.keyStorage.key? name = _
        rw [merge_key? hok, if_pos rfl, hmerge]
        simp [KeyHistory.step, hne, getKeyInfo]
      · change (h.key.merge [] data).1.getId ≠ badKey
        rw [merge_getId]
        exact hs.real

lemma Keeps.run {s : Storage W} {name : Name} {h : KeyHistory W} (hs : s.Keeps name h) (calls : List (ℤ × Call)) :
    (calls.foldl (callStep name) s).Keeps name ((calls.map Prod.snd).foldl KeyHistory.step h) := by
  induction calls generalizing s h with
  | nil => exact hs
  | cons c rest ih => exact ih (hs.step c)

end Storage

/-- In a run of calls on a key, all advance it exactly if the newest time that each records
comes last and is not before `last_update`. Then key storage has the newest time as well. -/
theorem last_update_advances_iff (hS : W.SumsCounts opened) (hO : W.PushesOld opened addsOld)
    (h : KeyHistory W) (hup : h.UpToDate) (calls : List (ℤ × Call)) :
    let steps := calls.map Prod.snd
    (RunMeets KeyHistory.step KeyHistory.Advances h steps ↔
      RunMeets KeyHistory.step (KeyHistory.InOrder opened addsOld) h steps) ∧
    (RunMeets KeyHistory.step (KeyHistory.InOrder opened addsOld) h steps →
      ∀ (s : Storage W) (name : Name), s.Keeps name h →
        ∀ ki ∈ (calls.foldl (Storage.callStep name) s).keyStorage.key? name,
          (steps.foldl KeyHistory.step h).times ≠ [] →
            IsGreatest {t | t ∈ (steps.foldl KeyHistory.step h).times} ki.lastUpdate) := by
  intro steps
  have hiff : ∀ l, RunMeets KeyHistory.step KeyHistory.Advances h l ↔
      RunMeets KeyHistory.step (KeyHistory.InOrder opened addsOld) h l :=
    RunMeets.congr KeyHistory.UpToDate hup (fun h c hup => hup.advances_iff_inOrder hS hO c)
      fun _ _ _ hadv => hadv.2
  refine ⟨hiff steps, fun hrun s name hs ki hki hne => ?_⟩
  have hlast : (steps.foldl KeyHistory.step h).UpToDate :=
    RunMeets.invariant (fun _ h => h.UpToDate) hup (fun _ _ _ _ hadv => hadv.2) ((hiff steps).mpr hrun)
  rw [(hs.run calls).stored] at hki
  rw [hlast.stored ki hki]
  exact hlast.newest hne

theorem last_update_advances_in_order :
    let h := KeyHistory.fresh (Wrtstat.reference 5 false) 1 0 { aggregateLastPoint := true, resolution := 1 }
    let calls : List Call := [.add { ts := 1, count := 1 }, .merge [{ ts := 3 }, { ts := 8 }],
      .add { ts := 12, count := 1 }, .add { ts := 4, count := 2 }]
    RunMeets KeyHistory.step KeyHistory.Advances h calls := by
  intro h calls
  refine (last_update_advances_iff (Wrtstat.reference_sumsCounts 5 false)
    (Wrtstat.reference_pushesOld 5 false) h (KeyHistory.upToDate_fresh 1 0 _)
    (calls.map fun c => (0, c))).1.mpr ?_
  refine ⟨.inr (by decide +kernel), ?_, .inr (by decide +kernel), .inl (by decide +kernel), trivial⟩
  simp only [KeyHistory.InOrder]
  decide +kernel

/-- A merge of an older point takes `last_update` back from 10 to 0, and stores that. -/
theorem last_update_goes_back :
    let h := KeyHistory.fresh (Wrtstat.reference 5 false) 1 0 { resolution := 1 }
    let calls : List Call := [.merge [{ ts := 12, count := 1 }], .merge [{ ts := 3, count := 1 }]]
    let last := calls.foldl KeyHistory.step h
    last.times = [10, 0] ∧ last.key.keyInfo.lastUpdate = 0 ∧ last.stored.map (·.lastUpdate) = some 0 ∧
      ¬RunMeets KeyHistory.step KeyHistory.Advances h calls := by
  intro h calls last
  have hbefore : (h.step (.merge [{ ts := 12, count := 1 }])).key.keyInfo.lastUpdate = 10 := by decide +kernel
  have hafter : last.key.keyInfo.lastUpdate = 0 := by decide +kernel
  refine ⟨by decide +kernel, hafter, by decide +kernel, fun hrun => ?_⟩
  have hle := hrun.2.1.1
  rw [hbefore] at hle
  change 10 ≤ last.key.keyInfo.lastUpdate at hle
  omega

end WfcBtp
