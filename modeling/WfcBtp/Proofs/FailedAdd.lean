import WfcBtp.Model.WrtstatReference
import WfcBtp.Proofs.KeyIds

/-!
# What an add that fails leaves

By the time a write of an add fails, the aggregator has taken the data and may have handed
over the period it finished. Data that come late pass it by.
-/

namespace WfcBtp
open Library

variable {W : Wrtstat} {opened : W.Aggregator → Option ℕ}

/-! ### Aligned aggregators -/

namespace KeyAggregator

lemma add_aligned (hK : W.StaysAligned) {ka : KeyAggregator W} (h : W.Aligned ka.aggregator)
    (d : AggregatedData) : W.Aligned (ka.add d []).1.aggregator := by
  by_cases hl : ka.isLate d.ts
  · rw [add_of_late hl]
    exact h
  · rw [add_of_not_late hl]
    dsimp only [currentAggregator]
    split_ifs
    · exact hK.aggregateCurrent _ (hK.push _ _ h)
    · exact hK.push _ _ h

lemma aggregateLastPointIf_aligned (hK : W.StaysAligned) {ka : KeyAggregator W} (h : W.Aligned ka.aggregator) :
    W.Aligned (ka.aggregateLastPointIf [] true).1.aggregator := by
  unfold aggregateLastPointIf
  cases ka.aggregateLastPoint with
  | false => exact h
  | true =>
    simp only [if_true]
    cases (W.forcePop ka.aggregator).1 with
    | none => exact hK.forcePop _ h
    | some ag => exact hK.forcePop _ h

end KeyAggregator

/-- Every cached aggregator is at the start of a period. -/
def Storage.AllAligned (s : Storage W) : Prop :=
  ∀ name ka, s.keyCache.keyMap.find? name = some ka → W.Aligned ka.aggregator

namespace Storage.AllAligned

variable {s : Storage W}

lemma create (hA : W.AlignsTime) (hS : W.SumsCounts opened) (ts : ℤ) : W.Aligned (W.create ts) := by
  unfold Wrtstat.Aligned
  rw [hS.currentTime_create, hA.getTs_idem]

lemma keyOrNew (hA : W.AlignsTime) (hS : W.SumsCounts opened) (h : s.AllAligned) (name : Name) (ts : ℤ) :
    W.Aligned (s.keyCache.keyOrNew name ts).aggregator := by
  cases hk : s.keyCache.keyMap.find? name with
  | some ka =>
    rw [KeyCache.keyOrNew_of_some ts hk]
    exact h name ka hk
  | none =>
    rw [KeyCache.keyOrNew_of_none ts hk]
    exact create hA hS ts

/-- Data that are not late belong to the current period of their key or to a later one. -/
lemma le_of_not_late (hA : W.AlignsTime) (hS : W.SumsCounts opened) (h : s.AllAligned) {name : Name} {ts : ℤ}
    (hts : ts ≠ 0) (hon : ¬(s.keyCache.keyOrNew name ts).isLate ts) :
    W.currentTime (s.keyCache.keyOrNew name ts).aggregator ≤ W.getTs ts := by
  have hge : W.currentTime (s.keyCache.keyOrNew name ts).aggregator ≤ ts := not_lt.mp fun hlt => hon ⟨hts, hlt⟩
  exact (h.keyOrNew hA hS name ts).ge.trans (hA.getTs_mono _ _ hge)

lemma openOn (hA : W.AlignsTime) (hS : W.SumsCounts opened) (hK : W.StaysAligned) (opt : StorageOptions)
    (clock : ℤ) (ks : KeyStorage) (ds : DataStorage) : (Storage.openOn opt clock ks ds : Storage W).AllAligned := by
  intro name ka hk
  obtain ⟨sk, _, rfl⟩ := openOn_find?_of_some hk
  exact hK.add _ _ (create hA hS _)

lemma call (hA : W.AlignsTime) (hS : W.SumsCounts opened) (hK : W.StaysAligned) {p : Process W}
    (h : p.storage.AllAligned) (c : StorageCall) : (p.call c).2.storage.AllAligned := by
  cases c with
  | add clock ok name data =>
    intro n ka hk
    change (p.storage.add clock ok name data).2.keyCache.keyMap.find? n = some ka at hk
    rw [add_find?] at hk
    split_ifs at hk
    · rw [← Option.some.inj hk]
      exact KeyAggregator.add_aligned hK (h.keyOrNew hA hS name data.ts) data
    · exact h n ka hk
  | merge clock ok name data =>
    by_cases hd : data = []
    · subst hd
      exact h
    · intro n ka hk
      change (p.storage.merge clock ok name data).2.keyCache.keyMap.find? n = some ka at hk
      rw [merge_find? _ ok hd] at hk
      split_ifs at hk
      · rw [← Option.some.inj hk, mergeKey, KeyAggregator.merge_keyInfo]
        exact h.keyOrNew hA hS name _
      · exact h n ka hk
  | del ok name =>
    intro n ka hk
    change (p.storage.del ok name).2.keyCache.keyMap.find? n = some ka at hk
    rw [del_keyCache, KeyCache.del_find?] at hk
    split_ifs at hk
    exact h n ka hk
  | gc clock =>
    intro n ka hk
    change (p.storage.keyCache.gc clock).2.keyMap.find? n = some ka at hk
    rw [KeyCache.gc_find?] at hk
    split_ifs at hk
    exact h n ka hk
  | close ok =>
    rw [Process.call_close_storage]
    intro n ka hk
    rw [close_keyCache, release_find?] at hk
    obtain ⟨kb, hkb, rfl⟩ := Option.map_eq_some_iff.mp hk
    exact KeyAggregator.aggregateLastPointIf_aligned hK (h n kb hkb)
  | reopen opt clock => exact openOn hA hS hK opt clock _ _

lemma run (hA : W.AlignsTime) (hS : W.SumsCounts opened) (hK : W.StaysAligned) (calls : List StorageCall)
    {p : Process W} (h : p.storage.AllAligned) : (calls.foldl Process.step p).storage.AllAligned :=
  Process.run_of_call (P := fun p => p.storage.AllAligned) (fun _ c h => h.call hA hS hK c) h calls

end Storage.AllAligned

/-! ### Counts after an on-time add -/

namespace KeyAggregator

/-- The finished period that a push of `d` hands over. -/
def finished (ka : KeyAggregator W) (d : AggregatedData) : List AggregatedInfo :=
  (W.push ka.aggregator (fillData d)).1.map AggregatedData.toPoint

/-- What the period of `d` has summed after a push of `d`. -/
def periodSum (opened : W.Aggregator → Option ℕ) (ka : KeyAggregator W) (d : AggregatedData) : ℕ :=
  (if W.getTs d.ts = W.currentTime ka.aggregator then (opened ka.aggregator).getD 0 else 0) + d.count

/-- The points of a key after an add of `d` and one of later data. -/
def twoAdds (disableMerge : Bool) (ka : KeyAggregator W) (d later : AggregatedData) (pts : Points) : Points :=
  let k := ka.add d []
  let k' := k.1.add later []
  writePoints W disableMerge k'.2.2 (writePoints W disableMerge k.2.2 pts k.2.1) k'.2.1

section OnTime

variable {ka : KeyAggregator W} {d : AggregatedData}

lemma push_on_time (hS : W.SumsCounts opened) (hle : W.currentTime ka.aggregator ≤ W.getTs d.ts) :
    let r := W.push ka.aggregator (fillData d)
    W.currentTime r.2 = W.getTs d.ts ∧ opened r.2 = some (periodSum opened ka d) ∧
      ∀ counts t, ((ka.finished d).map (toWrite true)).foldl applyCount counts t =
        if W.currentTime ka.aggregator < W.getTs d.ts ∧ t = W.currentTime ka.aggregator then
          (opened ka.aggregator).orElse (fun _ => counts t)
        else counts t := by
  have hts : (fillData d).ts = d.ts := congrArg ReducedInfo.ts (fillData_toReducedInfo d)
  have hcount : (fillData d).count = d.count := congrArg ReducedInfo.count (fillData_toReducedInfo d)
  intro r
  rcases hle.eq_or_lt with heq | hlt
  · obtain ⟨hnil, htime, hopen⟩ := hS.push_current ka.aggregator (fillData d) (by rw [hts, heq])
    have hfin : ka.finished d = [] := by rw [finished, hnil, List.map_nil]
    refine ⟨htime.trans heq, ?_, fun counts t => ?_⟩
    · rw [hopen, periodSum, if_pos heq.symm, hcount]
    · rw [hfin, if_neg fun h => heq.not_lt h.1]
      rfl
  · obtain ⟨⟨rep, hrep, hlist⟩, htime, hopen⟩ := hS.push_later ka.aggregator (fillData d) (by rwa [hts])
    refine ⟨by rw [htime, hts], ?_, fun counts t => ?_⟩
    · rw [hopen, periodSum, if_neg hlt.ne', Nat.zero_add, hcount]
    · rw [finished, hlist, applyCount_reports hrep]
      simp only [hlt, true_and]

/-- The aggregator and the counts after an on-time add whose writes succeed. -/
lemma add_on_time (hS : W.SumsCounts opened) (hon : ¬ka.isLate d.ts)
    (hle : W.currentTime ka.aggregator ≤ W.getTs d.ts) :
    W.currentTime (ka.add d []).1.aggregator = W.getTs d.ts ∧
      opened (ka.add d []).1.aggregator = some (periodSum opened ka d) ∧
      ∀ disableMerge pts t,
        countAt? (writePoints W disableMerge (ka.add d []).2.2 pts (ka.add d []).2.1) t =
          if ka.aggregateLastPoint = true ∧ t = W.getTs d.ts then some (periodSum opened ka d)
          else ((ka.finished d).map (toWrite true)).foldl applyCount (countAt? pts) t := by
  obtain ⟨htime, hopen, -⟩ := push_on_time hS hle
  obtain ⟨hrep, hcur, hopen'⟩ := hS.aggregateCurrent (W.push ka.aggregator (fillData d)).2
  rw [add_of_not_late hon]
  dsimp only [currentAggregator, currentPoints]
  refine ⟨?_, ?_, ?_⟩
  · split_ifs
    · rw [hcur, htime]
    · exact htime
  · split_ifs
    · rw [hopen', hopen]
    · exact hopen
  · intro disableMerge pts t
    have hset : ∀ ds : List AggregatedInfo, writePoints W disableMerge true pts ds = ds.foldl setPoint pts :=
      fun _ => rfl
    rw [List.nil_append, hset, countAt?_foldl_setPoint, List.map_append, List.map_append, List.foldl_append]
    by_cases hlast : ka.aggregateLastPoint = true
    · rw [if_pos hlast, applyCount_reports hrep, htime, hopen]
      simp only [hlast, true_and]
      rfl
    · rw [if_neg hlast, if_neg fun h => hlast h.1]
      rfl

/-- Later data complete the period: its sum is what is stored for it. -/
lemma countAt?_twoAdds (hA : W.AlignsTime) (hS : W.SumsCounts opened) (hon : ¬ka.isLate d.ts)
    (hle : W.currentTime ka.aggregator ≤ W.getTs d.ts) {later : AggregatedData}
    (hlater : W.getTs d.ts < W.getTs later.ts) (disableMerge : Bool) (pts : Points) (t : ℤ) :
    countAt? (twoAdds disableMerge ka d later pts) t =
      if ka.aggregateLastPoint = true ∧ t = W.getTs later.ts then some later.count
      else if t = W.getTs d.ts then some (periodSum opened ka d)
      else ((ka.finished d).map (toWrite true)).foldl applyCount (countAt? pts) t := by
  obtain ⟨htime, hopen, hcounts⟩ := add_on_time hS hon hle
  have hlate : ¬(ka.add d []).1.isLate later.ts := by
    intro h
    rw [isLate, htime] at h
    exact absurd (hlater.trans_le (hA.getTs_le later.ts)) h.2.not_gt
  have hle' : W.currentTime (ka.add d []).1.aggregator ≤ W.getTs later.ts := by
    rw [htime]
    exact hlater.le
  obtain ⟨-, -, hcounts'⟩ := add_on_time hS hlate hle'
  obtain ⟨-, -, hfinished⟩ := push_on_time hS hle'
  have hsum : periodSum opened (ka.add d []).1 later = later.count := by
    rw [periodSum, htime, if_neg hlater.ne', Nat.zero_add]
  rw [twoAdds, hcounts', hfinished, hsum, htime, hopen, hcounts, add_aggregateLastPoint]
  simp only [hlater, true_and]
  by_cases hopenPoint : ka.aggregateLastPoint = true ∧ t = W.getTs later.ts
  · rw [if_pos hopenPoint, if_pos hopenPoint]
  · rw [if_neg hopenPoint, if_neg hopenPoint]
    by_cases ht : t = W.getTs d.ts
    · rw [if_pos ht, if_pos ht]
      rfl
    · rw [if_neg ht, if_neg ht, if_neg fun h => ht h.2]

/-- The same data added to a key that has taken them before are counted twice. -/
lemma count_eq_zero_of_twoAdds (hA : W.AlignsTime) (hS : W.SumsCounts opened) (hon : ¬ka.isLate d.ts)
    (hle : W.currentTime ka.aggregator ≤ W.getTs d.ts) {later : AggregatedData}
    (hlater : W.getTs d.ts < W.getTs later.ts) {disableMerge disableMerge' : Bool} {pts pts' : Points}
    (h : (countAt? (twoAdds disableMerge (ka.add d []).1 d later pts) (W.getTs d.ts)).getD 0 =
      (countAt? (twoAdds disableMerge' ka d later pts') (W.getTs d.ts)).getD 0) : d.count = 0 := by
  obtain ⟨htime, hopen, -⟩ := add_on_time hS hon hle
  -- the repeated data belong to the period that the failed call has left open
  have hon' : ¬(ka.add d []).1.isLate d.ts := by
    intro h
    have hlt : d.ts < W.getTs d.ts := htime ▸ h.2
    exact absurd (hA.getTs_le d.ts) hlt.not_ge
  have hsum : periodSum opened (ka.add d []).1 d = periodSum opened ka d + d.count := by
    rw [periodSum, if_pos htime.symm, hopen, Option.getD_some]
  rw [countAt?_twoAdds hA hS hon' htime.le hlater, countAt?_twoAdds hA hS hon hle hlater,
    if_neg fun h => hlater.ne h.2, if_pos rfl, if_neg fun h => hlater.ne h.2, if_pos rfl, hsum, Option.getD_some,
    Option.getD_some] at h
  omega

end OnTime

end KeyAggregator

/-! ### What a failed add leaves -/

namespace Storage

lemma setAll_cons (ok : Outcomes) (id : KeyId) (d : AggregatedInfo) (rest : List AggregatedInfo) (i : ℕ)
    (s : DataStorage) :
    setAll ok id (d :: rest) i s =
      if ok i = true then setAll ok id rest (i + 1) (s.set true id d).2
      else (.error (.dataPut id d.ts), s) := by
  rw [setAll]
  cases ok i with
  | false => rw [DataStorage.set_false]; rfl
  | true => rfl

lemma incAll_singleton (ok : Outcomes) (id : KeyId) (d : AggregatedInfo) (i : ℕ) (s : DataStorage) :
    incAll W ok id [d] i s =
      if ok i = true then (.ok (), (s.inc W true id d).2) else (.error (.dataPut id d.ts), s) := by
  rw [incAll]
  cases ok i with
  | false => rw [DataStorage.inc_false]; rfl
  | true => rfl

section FailedAdd

variable {s : Storage W} {clock : ℤ} {ok : Outcomes} {name : Name} {d : AggregatedData}

lemma keyId_of_writeFailed (hfail : Status.writeFailed (s.add clock ok name d).1 = true) :
    s.keyId name ≠ badKey := by
  intro hbad
  unfold add at hfail
  rw [add_result] at hfail
  simp [hbad, Status.writeFailed] at hfail

/-- An add of which no write succeeds fails. -/
lemma writeFailed_of_no_write (hid : s.keyId name ≠ badKey) :
    Status.writeFailed (s.add clock (fun _ => false) name d).1 = true := by
  by_cases hlate : (s.keyCache.keyOrNew name d.ts).isLate d.ts
  · have hkey : s.addKey name d = (s.keyCache.keyOrNew name d.ts, [KeyAggregator.latePoint W d], false) :=
      KeyAggregator.add_of_late hlate []
    unfold add
    rw [add_result, hkey]
    simp only [hid, Bool.false_eq_true, if_false]
    split_ifs
    · rfl
    · rfl
  · have hkey : (s.addKey name d).2.2 = true := by
      rw [addKey, KeyAggregator.add_of_not_late hlate]
    unfold add
    rw [add_result, hkey]
    simp only [hid, if_true, if_false]
    rfl

/-- A new key starts no later than the data it is created for. -/
lemma exists_of_isLate (hA : W.AlignsTime) (hS : W.SumsCounts opened) {ts : ℤ}
    (h : (s.keyCache.keyOrNew name ts).isLate ts) :
    ∃ ka, s.keyCache.keyMap.find? name = some ka ∧ ka.isLate ts := by
  cases hk : s.keyCache.keyMap.find? name with
  | none =>
    rw [KeyCache.keyOrNew_of_none _ hk] at h
    have hle : W.currentTime (W.create ts) ≤ ts := by
      rw [hS.currentTime_create]
      exact hA.getTs_le ts
    exact absurd h.2 hle.not_gt
  | some ka =>
    rw [KeyCache.keyOrNew_of_some _ hk] at h
    exact ⟨ka, rfl, h⟩

end FailedAdd

/-- An add and one of later data, both of which succeed. -/
lemma two_adds_points {s : Storage W} {name : Name} (hid : s.keyId name ≠ badKey) (clock clock' : ℤ)
    (d later : AggregatedData) :
    ((s.add clock allOk name d).2.add clock' allOk name later).2.dataStorage.point? (s.keyId name) =
      (s.keyCache.keyOrNew name d.ts).twoAdds s.disableMerge d later (s.dataStorage.point? (s.keyId name)) := by
  have hfind : (s.add clock allOk name d).2.keyCache.keyMap.find? name = some (s.addKey name d).1 := by
    rw [add_find?, if_pos rfl]
  have hid' : (s.add clock allOk name d).2.keyId name = s.keyId name := by
    rw [keyId_of_some hfind, addKey_getId]
  have hkey : (s.add clock allOk name d).2.addKey name later = (s.addKey name d).1.add later [] := by
    rw [addKey, KeyCache.keyOrNew_of_some _ hfind]
  have hpts := @add_point? W (s.add clock allOk name d).2 name (by rwa [hid']) clock' later (s.keyId name)
  rw [hid', if_pos rfl, add_point? hid, if_pos rfl, add_disableMerge, hkey] at hpts
  exact hpts

end Storage

end WfcBtp
