import WfcBtp.Proofs.Reopening
import WfcBtp.Model.WrtstatReference

/-!
# Adding on top of merged points

A merge writes points that the aggregator of the key never hears of. An add that comes
late increments what is stored; an on-time add replaces it by the aggregator's own sum.
-/

namespace WfcBtp

variable {W : Wrtstat}

/-- Every cached aggregator is at the start of a period, and has the option the storage
was opened with. -/
structure PeriodsAligned (opt : StorageOptions) (s : Storage W) : Prop where
  options : s.keyCache.options = opt.keyCache
  disableMerge : s.disableMerge = opt.disableMerge
  aligned : ∀ name ka, s.keyCache.keyMap.find? name = some ka →
    W.getTs (W.currentTime ka.aggregator) = W.currentTime ka.aggregator
  aggregates : ∀ name ka, s.keyCache.keyMap.find? name = some ka →
    ka.aggregateLastPoint = opt.keyCache.aggregateLastPoint

namespace PeriodsAligned

variable {opened : W.Aggregator → Option ℕ} {opt : StorageOptions}

lemma of_fresh (opt : StorageOptions) (clock : ℤ) (hashSize resultLimit : ℕ) :
    PeriodsAligned opt (Storage.fresh W opt clock hashSize resultLimit) where
  options := Storage.fresh_options _ _ _ _
  disableMerge := rfl
  aligned name ka h := absurd h (by simp)
  aggregates name ka h := absurd h (by simp)

lemma keyOrNew (hA : W.AlignsTime) (hS : W.SumsCounts opened) {s : Storage W} (h : PeriodsAligned opt s)
    (name : Name) (ts : ℤ) :
    W.getTs (W.currentTime (s.keyCache.keyOrNew name ts).aggregator) =
        W.currentTime (s.keyCache.keyOrNew name ts).aggregator ∧
      (s.keyCache.keyOrNew name ts).aggregateLastPoint = opt.keyCache.aggregateLastPoint := by
  cases hk : s.keyCache.keyMap.find? name with
  | some ka =>
    rw [KeyCache.keyOrNew_of_some ts hk]
    exact ⟨h.aligned name ka hk, h.aggregates name ka hk⟩
  | none =>
    rw [KeyCache.keyOrNew_of_none ts hk]
    refine ⟨?_, congrArg (·.aggregateLastPoint) h.options⟩
    change W.getTs (W.currentTime (W.create ts)) = W.currentTime (W.create ts)
    rw [hS.currentTime_create, hA.getTs_idem]

/-- A push leaves the aggregator at the start of a period. -/
lemma getTs_push (hA : W.AlignsTime) (hS : W.SumsCounts opened) (hK : W.KeepsPeriod opened)
    {a : W.Aggregator} (h : W.getTs (W.currentTime a) = W.currentTime a) (d : AggregatedData) :
    W.getTs (W.currentTime (W.push a d).2) = W.currentTime (W.push a d).2 := by
  rcases lt_trichotomy (W.getTs d.ts) (W.currentTime a) with hlt | heq | hgt
  · rw [(hK.push_old a d hlt).2, h]
  · rw [(hS.push_current a d heq).2.1, h]
  · rw [(hS.push_later a d hgt).2.1, hA.getTs_idem]

lemma getTs_add (hA : W.AlignsTime) (hS : W.SumsCounts opened) (hK : W.KeepsPeriod opened)
    {ka : KeyAggregator W} (h : W.getTs (W.currentTime ka.aggregator) = W.currentTime ka.aggregator)
    (d : AggregatedData) :
    W.getTs (W.currentTime (ka.add d []).1.aggregator) = W.currentTime (ka.add d []).1.aggregator := by
  by_cases hl : ka.isLate d.ts
  · rw [KeyAggregator.add_of_late hl, h]
  · rw [KeyAggregator.add_of_not_late hl]
    dsimp only [KeyAggregator.currentAggregator]
    split_ifs
    · rw [(hS.aggregateCurrent _).2.1]
      exact getTs_push hA hS hK h _
    · exact getTs_push hA hS hK h _

lemma serve (hA : W.AlignsTime) (hS : W.SumsCounts opened) (hK : W.KeepsPeriod opened) {s : Storage W}
    (h : PeriodsAligned opt s) (r : Request) : PeriodsAligned opt (s.serve r).2 := by
  refine ⟨?_, ?_, ?_, ?_⟩
  · rw [Storage.serve_options, h.options]
  · rw [Storage.serve_disableMerge, h.disableMerge]
  · intro name ka hk
    rcases Storage.serve_find?_of_some hk with hk | ⟨clock, data, _, rfl⟩ | ⟨clock, data, _, _, rfl⟩
    · exact h.aligned name ka hk
    · exact getTs_add hA hS hK (h.keyOrNew hA hS name data.ts).1 data
    · rw [Storage.mergeKey, KeyAggregator.merge_keyInfo]
      exact (h.keyOrNew hA hS name _).1
  · intro name ka hk
    rcases Storage.serve_find?_of_some hk with hk | ⟨clock, data, _, rfl⟩ | ⟨clock, data, _, _, rfl⟩
    · exact h.aggregates name ka hk
    · rw [Storage.addKey, KeyAggregator.add_aggregateLastPoint]
      exact (h.keyOrNew hA hS name data.ts).2
    · rw [Storage.mergeKey, KeyAggregator.merge_keyInfo]
      exact (h.keyOrNew hA hS name _).2

lemma of_requests (hA : W.AlignsTime) (hS : W.SumsCounts opened) (hK : W.KeepsPeriod opened)
    (requests : List Request) {s : Storage W} (h : PeriodsAligned opt s) :
    PeriodsAligned opt (requests.foldl (fun s r => (s.serve r).2) s) := by
  induction requests generalizing s with
  | nil => exact h
  | cons r rest ih => exact ih (h.serve hA hS hK r)

end PeriodsAligned

/-- The condition for an add of `data` to keep what is stored at its time: it comes late,
or the aggregator knows of all that is stored there, or its time of zero sent it through
an aggregator that is in a later period and it counts nothing. -/
def AccumulatesOn (opened : W.Aggregator → Option ℕ) (s : Storage W) (name : Name) (data : AggregatedData) :
    Prop :=
  let ka := s.keyCache.keyOrNew name data.ts
  let current := W.currentTime ka.aggregator
  let t := W.getTs data.ts
  ka.isLate data.ts ∨
    (current ≤ t ∧ s.dataStorage.count (s.keyId name) t =
      if t = current then (opened ka.aggregator).getD 0 else 0) ∨
    (t < current ∧ data.ts = 0 ∧ data.count = 0)

/-- The count an on-time add leaves at its own time. -/
lemma countAt?_currentPoints {opened : W.Aggregator → Option ℕ} (hS : W.SumsCounts opened)
    (hK : W.KeepsPeriod opened) {ka : KeyAggregator W} (hlast : ka.aggregateLastPoint = true)
    (data : AggregatedData) (pts : Points) :
    countAt? ((ka.currentPoints data).foldl setPoint pts) (W.getTs data.ts) =
      if W.getTs data.ts < W.currentTime ka.aggregator then countAt? pts (W.getTs data.ts)
      else if W.getTs data.ts = W.currentTime ka.aggregator then
        some ((opened ka.aggregator).getD 0 + data.count)
      else some data.count := by
  have hts : (KeyAggregator.fillData data).ts = data.ts :=
    congrArg ReducedInfo.ts (KeyAggregator.fillData_toReducedInfo data)
  have hcount : (KeyAggregator.fillData data).count = data.count :=
    congrArg ReducedInfo.count (KeyAggregator.fillData_toReducedInfo data)
  obtain ⟨hrep, -, -⟩ := hS.aggregateCurrent (W.push ka.aggregator (KeyAggregator.fillData data)).2
  rw [countAt?_foldl_setPoint]
  simp only [KeyAggregator.currentPoints, hlast, if_true, List.map_append, List.foldl_append]
  rw [applyCount_reports hrep]
  rcases lt_trichotomy (W.getTs data.ts) (W.currentTime ka.aggregator) with hlt | heq | hgt
  · obtain ⟨hnil, htime⟩ := hK.push_old ka.aggregator (KeyAggregator.fillData data) (by rwa [hts])
    rw [if_pos hlt, htime, if_neg hlt.ne, hnil]
    rfl
  · obtain ⟨-, htime, hopen⟩ := hS.push_current ka.aggregator (KeyAggregator.fillData data) (by rwa [hts])
    rw [if_neg heq.not_lt, if_pos heq, htime, if_pos heq, hopen, hcount]
    rfl
  · obtain ⟨-, htime, hopen⟩ := hS.push_later ka.aggregator (KeyAggregator.fillData data) (by rwa [hts])
    rw [if_neg hgt.not_gt, if_neg hgt.ne', htime, hts, if_pos rfl, hopen, hcount]
    rfl

/-- Which count an add leaves at its own time, next to what was there. -/
lemma count_writePoints_iff {opened : W.Aggregator → Option ℕ} (hA : W.AlignsTime) (hS : W.SumsCounts opened)
    (hC : W.CombinesCounts) (hK : W.KeepsPeriod opened) {ka : KeyAggregator W}
    (hlast : ka.aggregateLastPoint = true)
    (halign : W.getTs (W.currentTime ka.aggregator) = W.currentTime ka.aggregator) (data : AggregatedData)
    (pts : Points) :
    let current := W.currentTime ka.aggregator
    let t := W.getTs data.ts
    let before := (countAt? pts t).getD 0
    (countAt? (writePoints W false (ka.add data []).2.2 pts (ka.add data []).2.1) t).getD 0 =
        before + data.count ↔
      ka.isLate data.ts ∨
        (current ≤ t ∧ before = if t = current then (opened ka.aggregator).getD 0 else 0) ∨
        (t < current ∧ data.ts = 0 ∧ data.count = 0) := by
  dsimp only
  by_cases hl : ka.isLate data.ts
  · -- the late path increments what is there
    rw [KeyAggregator.add_of_late hl]
    change (countAt? (incPoint W pts (KeyAggregator.latePoint W data)) _).getD 0 = _ ↔ _
    rw [countAt?_incPoint hC]
    simp [applyCount, toWrite, KeyAggregator.latePoint_ts hC, KeyAggregator.latePoint_count hC, hl]
  · rw [KeyAggregator.add_of_not_late hl]
    change (countAt? ((ka.currentPoints data).foldl setPoint pts) _).getD 0 = _ ↔ _
    rw [countAt?_currentPoints hS hK hlast]
    rw [or_iff_right hl]
    rcases lt_trichotomy (W.getTs data.ts) (W.currentTime ka.aggregator) with hlt | heq | hgt
    · -- only a time of zero gets past an aggregator that is further on
      have hzero : data.ts = 0 := by
        by_contra hne
        have hmono := hA.getTs_mono _ _ (not_lt.mp fun h => hl ⟨hne, h⟩)
        rw [halign] at hmono
        exact hlt.not_ge hmono
      rw [if_pos hlt, or_iff_right (fun h => hlt.not_ge h.1)]
      constructor
      · intro h
        exact ⟨hlt, hzero, by omega⟩
      · rintro ⟨_, _, h⟩
        rw [h, Nat.add_zero]
    · rw [if_neg heq.not_lt, if_pos heq, if_pos heq, or_iff_left (fun h => heq.not_lt h.1)]
      simp only [Option.getD_some, Nat.add_right_cancel_iff, heq.ge, true_and]
      exact eq_comm
    · rw [if_neg hgt.not_gt, if_neg hgt.ne', if_neg hgt.ne', or_iff_left (fun h => hgt.not_gt h.1)]
      simp only [Option.getD_some, hgt.le, true_and]
      omega

/-- After any requests, merges among them, an add puts its count on top of what is stored
at its time exactly when the condition holds before it. -/
theorem add_accumulates_iff {opened : W.Aggregator → Option ℕ} (hA : W.AlignsTime)
    (hS : W.SumsCounts opened) (hC : W.CombinesCounts) (hK : W.KeepsPeriod opened) (opt : StorageOptions)
    (hlast : opt.keyCache.aggregateLastPoint = true) (hmerge : opt.disableMerge = false) (clock : ℤ)
    (hashSize resultLimit : ℕ) (requests : List Request) (clock' : ℤ) (name : Name) (data : AggregatedData) :
    let s := requests.foldl (fun s r => (s.serve r).2) (Storage.fresh W opt clock hashSize resultLimit)
    (s.add clock' allOk name data).1 = .ok () →
    ((s.add clock' allOk name data).2.dataStorage.count (s.keyId name) (W.getTs data.ts) =
        s.dataStorage.count (s.keyId name) (W.getTs data.ts) + data.count ↔
      AccumulatesOn opened s name data) := by
  intro s hok
  have haligned : PeriodsAligned opt s :=
    PeriodsAligned.of_requests hA hS hK requests (PeriodsAligned.of_fresh opt clock hashSize resultLimit)
  obtain ⟨halign, hka⟩ := haligned.keyOrNew hA hS name data.ts
  have hcount : (s.add clock' allOk name data).2.dataStorage.count (s.keyId name) (W.getTs data.ts) =
      (countAt? (writePoints W false (s.addKey name data).2.2
        (s.dataStorage.point? (s.keyId name)) (s.addKey name data).2.1) (W.getTs data.ts)).getD 0 := by
    have hid := (Storage.add_status_iff _ _ _ _).mp hok
    rw [DataStorage.count, Storage.add_point? hid, if_pos rfl, haligned.disableMerge, hmerge]
    rfl
  rw [hcount]
  exact count_writePoints_iff hA hS hC hK (hka.trans hlast) halign data (s.dataStorage.point? (s.keyId name))

theorem add_accumulates_late_after_merge :
    let s := [Request.merge 0 [97] [{ ts := 5, count := 10 }, { ts := 10, count := 20 }]].foldl
      (fun s r => (s.serve r).2)
      (Storage.fresh (Wrtstat.reference 5 false) { keyCache := { aggregateLastPoint := true, resolution := 1 } } 0 4 10)
    (s.add 0 allOk [97] { ts := 6, count := 1 }).2.dataStorage.count (s.keyId [97]) 5 =
      s.dataStorage.count (s.keyId [97]) 5 + 1 :=
  (add_accumulates_iff (Wrtstat.reference_alignsTime (by omega) false) (Wrtstat.reference_sumsCounts 5 false)
    (Wrtstat.reference_combinesCounts 5 false) (Wrtstat.reference_keepsPeriod 5 false)
    { keyCache := { aggregateLastPoint := true, resolution := 1 } } rfl rfl 0 4 10
    [Request.merge 0 [97] [{ ts := 5, count := 10 }, { ts := 10, count := 20 }]] 0 [97]
    { ts := 6, count := 1 } rfl).mpr (.inl (by decide))

/-- An on-time add after a merge replaces the merged count. -/
theorem add_replaces_merged_point :
    let s := [Request.merge 0 [97] [{ ts := 5, count := 10 }]].foldl (fun s r => (s.serve r).2)
      (Storage.fresh (Wrtstat.reference 5 false) { keyCache := { aggregateLastPoint := true, resolution := 1 } } 0 4 10)
    (s.add 0 allOk [97] { ts := 6, count := 1 }).1 = .ok () ∧
      s.dataStorage.count (s.keyId [97]) 5 = 10 ∧
      (s.add 0 allOk [97] { ts := 6, count := 1 }).2.dataStorage.count (s.keyId [97]) 5 = 1 ∧
      ¬((s.add 0 allOk [97] { ts := 6, count := 1 }).2.dataStorage.count (s.keyId [97]) 5 =
        s.dataStorage.count (s.keyId [97]) 5 + 1) := by
  exact ⟨rfl, by decide +kernel, by decide +kernel, by decide +kernel⟩

end WfcBtp
