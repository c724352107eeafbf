import WfcBtp.Proofs.FailedAdd
import WfcBtp.Proofs.GcTolerance
import WfcBtp.Proofs.Reseeding

/-!
# Telling two storages apart

What a few calls bring to light of the state of a name that no stored point shows: a point that
is merged under the id of the name, the time it would be evicted by, and the sum of its open
period.
-/

namespace WfcBtp
open Library

variable {W : Wrtstat} {opened : W.Aggregator → Option ℕ}

namespace KeyCache

variable {c : KeyCache W} {name : Name}

/-- A cleanup between two times of a name evicts it under the earlier one only. -/
lemma gc_find?_of_time (hagree : c.IndexesAgree) (hg : c.options.gcInterval ≠ 0) {t : ℤ}
    (ht : c.keyTimeMap.find? name = some t) (clock : ℤ) :
    (c.gc clock).2.keyMap.find? name = if t < clock - c.options.ttl then none else c.keyMap.find? name := by
  have hexp := hagree.mem_expired_iff hg clock name
  rw [ht] at hexp
  rw [gc_find?]
  refine if_congr (hexp.trans ?_) rfl rfl
  constructor
  · rintro ⟨u, hu, hlt⟩
    rwa [Option.some.inj hu]
  · exact fun hlt => ⟨t, rfl, hlt⟩

end KeyCache

namespace Storage

/-! ### A mark that a retry does not touch -/

/-- One point, at a time later than the data that are added again. -/
def mark (z : ℤ) (m : ℕ) : List AggregatedInfo := [{ ts := z, count := m }]

lemma mark_ne_nil (z : ℤ) (m : ℕ) : mark z m ≠ [] := List.cons_ne_nil _ _

section Mark

variable {s : Storage W} {name : Name}

lemma add_find?_self (s : Storage W) (clock : ℤ) (ok : Outcomes) (name : Name) (d : AggregatedData) :
    (s.add clock ok name d).2.keyCache.keyMap.find? name = some (s.addKey name d).1 := by
  rw [add_find?, if_pos rfl]

lemma add_keyId (s : Storage W) (clock : ℤ) (ok : Outcomes) (name : Name) (d : AggregatedData) :
    (s.add clock ok name d).2.keyId name = s.keyId name := by
  rw [keyId_of_some (s.add_find?_self clock ok name d), addKey_getId]

lemma merge_keyId (s : Storage W) (clock : ℤ) (ok : Outcomes) (name : Name) {data : List AggregatedInfo}
    (h : data ≠ []) : (s.merge clock ok name data).2.keyId name = s.keyId name := by
  have hk : (s.merge clock ok name data).2.keyCache.keyMap.find? name = some (s.mergeKey name data).1 := by
    rw [merge_find? s ok h, if_pos rfl]
  rw [keyId_of_some hk, mergeKey_getId]

lemma merge_mark_ok (hid : s.keyId name ≠ badKey) (clock z : ℤ) (m : ℕ) :
    (s.merge clock allOk name (mark z m)).1 = .ok () :=
  (merge_status_iff s clock name _).mpr ⟨mark_ne_nil z m, hid⟩

/-- Later data complete the period of the key: what is stored for it is its sum, if it has one. -/
lemma countAt?_add_later (hA : W.AlignsTime) (hS : W.SumsCounts opened) (hid : s.keyId name ≠ badKey)
    {ka : KeyAggregator W} (hk : s.keyCache.keyMap.find? name = some ka) {later : AggregatedData}
    (hlater : W.currentTime ka.aggregator < W.getTs later.ts) {t : ℤ} (ht : t ≠ W.getTs later.ts) :
    countAt? ((s.add 0 allOk name later).2.dataStorage.point? (s.keyId name)) t =
      if t = W.currentTime ka.aggregator then
        (opened ka.aggregator).orElse fun _ => countAt? (s.dataStorage.point? (s.keyId name)) t
      else countAt? (s.dataStorage.point? (s.keyId name)) t := by
  have hon : ¬ka.isLate later.ts := fun h => absurd (hlater.trans_le (hA.getTs_le later.ts)) h.2.not_gt
  obtain ⟨-, -, hcounts⟩ := KeyAggregator.add_on_time hS hon hlater.le
  obtain ⟨-, -, hfinished⟩ := KeyAggregator.push_on_time hS hlater.le
  rw [add_point? hid, if_pos rfl, addKey, KeyCache.keyOrNew_of_some _ hk, hcounts, hfinished, if_neg fun h => ht h.2]
  exact if_congr (and_iff_right hlater) rfl rfl

/-- The storage after the mark, the retry and an add of later data. -/
def markAndRetry (s : Storage W) (name : Name) (z : ℤ) (m : ℕ) (d later : AggregatedData) : Storage W :=
  (((s.merge 0 allOk name (mark z m)).2.add 0 allOk name d).2.add 0 allOk name later).2

/-- Nothing is written under another id. -/
lemma markAndRetry_point?_of_ne (hid : s.keyId name ≠ badKey) {id : KeyId} (hne : id ≠ s.keyId name) (z : ℤ) (m : ℕ)
    (d later : AggregatedData) :
    (s.markAndRetry name z m d later).dataStorage.point? id = s.dataStorage.point? id := by
  have hid₁ := s.merge_keyId 0 allOk name (mark_ne_nil z m)
  have hid₂ := (s.merge 0 allOk name (mark z m)).2.add_keyId 0 allOk name d
  rw [markAndRetry, add_point? (by rwa [hid₂, hid₁]), if_neg (by rwa [hid₂, hid₁]), add_point? (by rwa [hid₁]),
    if_neg (by rwa [hid₁]), merge_point? (merge_mark_ok hid 0 z m), if_neg hne]

/-- Under a new id the mark stays: its period is the open one, and nothing has been pushed for it. -/
lemma markAndRetry_count (hA : W.AlignsTime) (hS : W.SumsCounts opened) (hC : W.CombinesCounts)
    (hnone : s.keyCache.keyMap.find? name = none) (hid : s.keyId name ≠ badKey) {z : ℤ} (m : ℕ)
    {d later : AggregatedData} (hts : d.ts ≠ 0) (hd : d.ts < W.getTs z) (hlater : W.getTs z < W.getTs later.ts) :
    (s.markAndRetry name z m d later).dataStorage.count (s.keyId name) (W.getTs z) = m := by
  have hne := mark_ne_nil z m
  let s₁ := (s.merge 0 allOk name (mark z m)).2
  let s₂ := (s₁.add 0 allOk name d).2
  let ka := (s.mergeKey name (mark z m)).1
  have hk₁ : s₁.keyCache.keyMap.find? name = some ka := by
    rw [merge_find? s allOk hne, if_pos rfl]
  have hid₁ : s₁.keyId name = s.keyId name := s.merge_keyId 0 allOk name hne
  have hid₂ : s₂.keyId name = s.keyId name := (s₁.add_keyId 0 allOk name d).trans hid₁
  have hka : ka.aggregator = W.create z := by
    change ((s.keyCache.keyOrNew name z).merge [] (mark z m)).1.aggregator = W.create z
    rw [KeyAggregator.merge_keyInfo, KeyCache.keyOrNew_of_none z hnone]
    rfl
  have htime : W.currentTime ka.aggregator = W.getTs z := by
    rw [hka, hS.currentTime_create]
  -- the retry is late
  have hadd : s₁.addKey name d = (ka, [KeyAggregator.latePoint W d], false) := by
    rw [addKey, KeyCache.keyOrNew_of_some _ hk₁]
    exact KeyAggregator.add_of_late ⟨hts, by rwa [htime]⟩ []
  have hk₂ : s₂.keyCache.keyMap.find? name = some ka := by
    rw [add_find?, if_pos rfl, hadd]
  have hpts₁ : s₁.dataStorage.point? (s.keyId name) =
      setPoint (s.dataStorage.point? (s.keyId name)) { ts := W.getTs z, count := m } := by
    rw [merge_point? (merge_mark_ok hid 0 z m), if_pos rfl]
    rfl
  have hpts₂ : s₂.dataStorage.point? (s.keyId name) (W.getTs z) =
      s₁.dataStorage.point? (s.keyId name) (W.getTs z) := by
    have hpast : W.getTs z ≠ (KeyAggregator.latePoint W d).ts := by
      rw [KeyAggregator.latePoint_ts hC]
      exact ((hA.getTs_le d.ts).trans_lt hd).ne'
    have hpoint := @add_point? W s₁ name (by rwa [hid₁]) 0 d (s.keyId name)
    rw [hid₁, if_pos rfl, hadd] at hpoint
    rw [hpoint, writePoints]
    cases s₁.disableMerge
    · exact if_neg hpast
    · exact if_neg hpast
  -- later data complete the period of the mark, which has no sum
  have hpts₃ := countAt?_add_later (t := W.getTs z) hA hS (by rwa [hid₂]) hk₂ (by rwa [htime]) hlater.ne
  rw [hid₂, htime, if_pos rfl, hka, hS.opened_create] at hpts₃
  change (countAt? ((s₂.add 0 allOk name later).2.dataStorage.point? (s.keyId name)) (W.getTs z)).getD 0 = m
  rw [hpts₃, countAt?, hpts₂, hpts₁]
  simp [setPoint]

/-- Where the name is cached in one storage only, and under another id than it gets in the other, a
mark tells them apart. -/
lemma exists_markAndRetry_ne (hA : W.AlignsTime) (hS : W.SumsCounts opened) (hC : W.CombinesCounts)
    {a b : Storage W} (hnone : a.keyCache.keyMap.find? name = none) (hid : a.keyId name ≠ badKey)
    (hid' : b.keyId name ≠ badKey) (hne : a.keyId name ≠ b.keyId name) {z : ℤ} {d : AggregatedData} (hts : d.ts ≠ 0)
    (hd : d.ts < W.getTs z) :
    ∃ m, ∀ later : AggregatedData, W.getTs z < W.getTs later.ts →
      (a.markAndRetry name z m d later).dataStorage.count (a.keyId name) (W.getTs z) ≠
        (b.markAndRetry name z m d later).dataStorage.count (a.keyId name) (W.getTs z) := by
  refine ⟨b.dataStorage.count (a.keyId name) (W.getTs z) + 1, fun later hlater => ?_⟩
  rw [markAndRetry_count hA hS hC hnone hid _ hts hd hlater, DataStorage.count, DataStorage.count,
    markAndRetry_point?_of_ne hid' hne]
  exact Nat.succ_ne_self _

end Mark

/-! ### Two times of one name -/

/-- The key `ka` of the name is cached under the time `t`, and `n` ids have been given. -/
structure Dated (s : Storage W) (name : Name) (ka : KeyAggregator W) (ttl t : ℤ) (n : KeyId) : Prop where
  interval : s.keyCache.options.gcInterval ≠ 0
  indexes : s.keyCache.IndexesAgree
  ttl : s.keyCache.options.ttl = ttl
  key : s.keyCache.keyMap.find? name = some ka
  time : s.keyCache.keyTimeMap.find? name = some t
  counter : s.keyCache.keyCounter = n

namespace Dated

variable {s s' : Storage W} {name : Name} {ka : KeyAggregator W} {ttl t t' : ℤ} {n : KeyId} {d : AggregatedData}

/-- A late add that refreshes the time of the name changes nothing else in the cache. -/
lemma add_of_late (h : s.Dated name ka ttl t n) {clock : ℤ} (hold : ¬clock - s.keyCache.options.gcInterval < t)
    (hlate : ka.isLate d.ts) (ok : Outcomes) : (s.add clock ok name d).2.Dated name ka ttl clock n := by
  refine ⟨?_, ?_, ?_, ?_, ?_, ?_⟩
  · rw [add_options]
    exact h.interval
  · rw [add_keyCache]
    exact h.indexes.add h.interval clock name d
  · rw [add_options]
    exact h.ttl
  · rw [add_find?_self, addKey, KeyCache.keyOrNew_of_some _ h.key, KeyAggregator.add_of_late hlate]
  · have htime := KeyCache.getOrCreate_keyTime h.interval clock name d.ts name
    rw [if_pos rfl, h.time, KeyCache.refreshed, if_neg hold] at htime
    rw [add_keyCache]
    exact htime
  · rw [add_keyCounter, h.key]
    exact h.counter

lemma gc_find? (h : s.Dated name ka ttl t n) (clock : ℤ) :
    (s.gc clock).2.keyCache.keyMap.find? name = if t < clock - ttl then none else some ka := by
  rw [← h.ttl, ← h.key]
  exact KeyCache.gc_find?_of_time h.indexes h.interval h.time clock

/-- A cleanup with a death time after the time of the name: it gets a new id. -/
lemma keyId_gc_of_lt (h : s.Dated name ka ttl t n) (hnext : n + 1 < badKey) {clock : ℤ} (hlt : t < clock - ttl) :
    (s.gc clock).2.keyId name = n + 1 := by
  have hnone := h.gc_find? clock
  rw [if_pos hlt] at hnone
  have hcounter : (s.gc clock).2.keyCache.keyCounter = n := (KeyCache.gc_keyCounter _ _).trans h.counter
  rw [keyId_eq_succ _ hnone, hcounter]
  rw [hcounter]
  exact (Nat.lt_succ_self n).trans hnext

lemma keyId_gc_of_le (h : s.Dated name ka ttl t n) {clock : ℤ} (hle : clock - ttl ≤ t) :
    (s.gc clock).2.keyId name = ka.getId := by
  have hkept := h.gc_find? clock
  rw [if_neg hle.not_gt] at hkept
  exact keyId_of_some hkept

/-- A cleanup between the two times, and a mark. -/
lemma exists_markAndRetry_ne (hA : W.AlignsTime) (hS : W.SumsCounts opened) (hC : W.CombinesCounts)
    (h : s.Dated name ka ttl t n) (h' : s'.Dated name ka ttl t' n) (hnext : n + 1 < badKey) (hid : ka.getId ≤ n)
    (hbad : ka.getId ≠ badKey) (hlt : t < t') {z : ℤ} (hts : d.ts ≠ 0) (hd : d.ts < W.getTs z) :
    (s.gc (t' + ttl)).2.keyId name ≠ badKey ∧ (s'.gc (t' + ttl)).2.keyId name ≠ badKey ∧
      ∃ m, ∀ later : AggregatedData, W.getTs z < W.getTs later.ts →
        ((s.gc (t' + ttl)).2.markAndRetry name z m d later).dataStorage.count (n + 1) (W.getTs z) ≠
          ((s'.gc (t' + ttl)).2.markAndRetry name z m d later).dataStorage.count (n + 1) (W.getTs z) := by
  have hdeath : t' + ttl - ttl = t' := Int.add_sub_cancel _ _
  have hnone := h.gc_find? (t' + ttl)
  rw [hdeath, if_pos hlt] at hnone
  have hnew := h.keyId_gc_of_lt hnext (hlt.trans_eq hdeath.symm)
  have hold := h'.keyId_gc_of_le hdeath.le
  have hbadNew : (s.gc (t' + ttl)).2.keyId name ≠ badKey := by
    rw [hnew]
    exact hnext.ne
  have hbadOld : (s'.gc (t' + ttl)).2.keyId name ≠ badKey := by rwa [hold]
  have hne : (s.gc (t' + ttl)).2.keyId name ≠ (s'.gc (t' + ttl)).2.keyId name := by
    rw [hnew, hold]
    exact (Nat.lt_succ_of_le hid).ne'
  have hmark := Storage.exists_markAndRetry_ne hA hS hC hnone hbadNew hbadOld hne hts hd
  rw [hnew] at hmark
  exact ⟨hbadNew, hbadOld, hmark⟩

end Dated

/-! ### The sum of the open period -/

/-- A point of one in the period of `t`, then an add of nothing that ends the period and a point
of nothing later still. -/
def endPeriod (s : Storage W) (name : Name) (t x y : ℤ) : Storage W :=
  (((s.merge 0 allOk name (mark t 1)).2.add 0 allOk name { ts := x }).2.merge 0 allOk name (mark y 0)).2

def reopenOptions : StorageOptions := { keyCache := { resolution := 1 } }

/-- The storage opened over its databases. -/
def reopened (s : Storage W) : Storage W := openOn reopenOptions 0 s.keyStorage s.dataStorage

section OpenPeriod

variable {s : Storage W} {name : Name} {t x y : ℤ}

lemma mergeKey_mark (s : Storage W) (name : Name) (z : ℤ) (m : ℕ) :
    s.mergeKey name (mark z m) =
      ({ s.keyCache.keyOrNew name z with
          keyInfo := KeyAggregator.updateInfo (s.keyCache.keyOrNew name z).keyInfo { ts := W.getTs z, count := m } },
        [{ ts := W.getTs z, count := m }]) := rfl

lemma merge_mark_point? (hid : s.keyId name ≠ badKey) (z : ℤ) (m : ℕ) :
    (s.merge 0 allOk name (mark z m)).2.dataStorage.point? (s.keyId name) =
      setPoint (s.dataStorage.point? (s.keyId name)) { ts := W.getTs z, count := m } := by
  rw [merge_point? (merge_mark_ok hid 0 z m), if_pos rfl, mergeKey_mark]
  rfl

/-- The point of one is what is left, unless the aggregator had a sum for its period. -/
lemma endPeriod_countAt? (hA : W.AlignsTime) (hS : W.SumsCounts opened) (hid : s.keyId name ≠ badKey)
    (hle : W.currentTime (s.keyCache.keyOrNew name t).aggregator ≤ W.getTs t) (hx : W.getTs t < W.getTs x)
    (hy : W.getTs t < W.getTs y) :
    countAt? ((s.endPeriod name t x y).dataStorage.point? (s.keyId name)) (W.getTs t) =
      if W.getTs t = W.currentTime (s.keyCache.keyOrNew name t).aggregator then
        (opened (s.keyCache.keyOrNew name t).aggregator).orElse fun _ => some 1
      else some 1 := by
  let s₁ := (s.merge 0 allOk name (mark t 1)).2
  let s₂ := (s₁.add 0 allOk name { ts := x }).2
  let k₁ := (s.mergeKey name (mark t 1)).1
  have hid₁ : s₁.keyId name = s.keyId name := s.merge_keyId 0 allOk name (mark_ne_nil t 1)
  have hid₂ : s₂.keyId name = s.keyId name := (s₁.add_keyId 0 allOk name _).trans hid₁
  have hk₁ : s₁.keyCache.keyMap.find? name = some k₁ := by
    rw [merge_find? s allOk (mark_ne_nil t 1), if_pos rfl]
  have hcurrent : W.currentTime k₁.aggregator < W.getTs x := hle.trans_lt hx
  have hmark : countAt? (s₁.dataStorage.point? (s.keyId name)) (W.getTs t) = some 1 := by
    rw [merge_mark_point? hid]
    simp [countAt?, setPoint]
  have hended : countAt? (s₂.dataStorage.point? (s₁.keyId name)) (W.getTs t) = _ :=
    countAt?_add_later hA hS (by rwa [hid₁]) hk₁ hcurrent hx.ne
  rw [hid₁, hmark] at hended
  have hlast : (s₂.merge 0 allOk name (mark y 0)).2.dataStorage.point? (s₂.keyId name) = _ :=
    merge_mark_point? (by rwa [hid₂]) y 0
  rw [hid₂] at hlast
  have hpast : countAt? (setPoint (s₂.dataStorage.point? (s.keyId name)) { ts := W.getTs y, count := 0 }) (W.getTs t) =
      countAt? (s₂.dataStorage.point? (s.keyId name)) (W.getTs t) := by
    simp [countAt?, setPoint, hy.ne]
  change countAt? ((s₂.merge 0 allOk name (mark y 0)).2.dataStorage.point? (s.keyId name)) (W.getTs t) = _
  rw [hlast, hpast]
  exact hended

/-- The key that is stored last is restored in the period of its last point. -/
lemma reopened_endPeriod_find? (hA : W.AlignsTime) (hS : W.SumsCounts opened) {addsOld : Bool}
    (hR : W.AddsReduced opened addsOld) (hid : s.keyId name ≠ badKey)
    (hcount : (((s.merge 0 allOk name (mark t 1)).2.addKey name { ts := x }).1.keyInfo.count.ts) < W.getTs y) :
    ∃ ka, (s.endPeriod name t x y).reopened.keyCache.keyMap.find? name = some ka ∧ ka.getId = s.keyId name ∧
      W.currentTime ka.aggregator = W.getTs y := by
  let s₁ := (s.merge 0 allOk name (mark t 1)).2
  let s₂ := (s₁.add 0 allOk name { ts := x }).2
  let ki := (s₁.addKey name { ts := x }).1.keyInfo
  let sk := KeyAggregator.updateInfo ki { ts := W.getTs y, count := 0 }
  have hid₁ : s₁.keyId name = s.keyId name := s.merge_keyId 0 allOk name (mark_ne_nil t 1)
  have hid₂ : s₂.keyId name = s.keyId name := (s₁.add_keyId 0 allOk name _).trans hid₁
  have hstored : (s.endPeriod name t x y).keyStorage.key? name = some sk := by
    have hok : (s₂.merge 0 allOk name (mark y 0)).1 = .ok () := merge_mark_ok (by rwa [hid₂]) 0 y 0
    have hkey := merge_key? hok name
    rw [if_pos rfl, mergeKey_mark, KeyCache.keyOrNew_of_some _ (s₁.add_find?_self 0 allOk name _)] at hkey
    exact hkey
  have hfind : (s.endPeriod name t x y).reopened.keyCache.keyMap.find? name = _ :=
    openOn_find?_of_interval_zero rfl 0 _ _ name
  rw [hstored, Option.map_some] at hfind
  have huntil : KeyAggregator.CountUntil sk.toStoredValues sk.lastUpdate := by
    refine .inl ?_
    change (KeyAggregator.updateField ki.count (toValue 0) (W.getTs y)).ts ≤ W.getTs y
    unfold KeyAggregator.updateField
    split_ifs
    · exact le_rfl
    · exact hcount.le
  obtain ⟨htime, -⟩ := restored_opened hS hR reopenOptions.keyCache (hA.getTs_idem y) huntil
  refine ⟨_, hfind, ?_, htime⟩
  change ki.id = s.keyId name
  rw [← hid₁]
  exact addKey_getId s₁ name _

/-- Data of the period are added to what is left of its point. -/
lemma reopened_endPeriod_count (hA : W.AlignsTime) (hS : W.SumsCounts opened) (hC : W.CombinesCounts) {addsOld : Bool}
    (hR : W.AddsReduced opened addsOld) (hid : s.keyId name ≠ badKey) {d later : AggregatedData} (hts : d.ts ≠ 0)
    (hle : W.currentTime (s.keyCache.keyOrNew name d.ts).aggregator ≤ W.getTs d.ts) (hx : W.getTs d.ts < W.getTs x)
    (hy : W.getTs d.ts < W.getTs y)
    (hcount : (((s.merge 0 allOk name (mark d.ts 1)).2.addKey name { ts := x }).1.keyInfo.count.ts) < W.getTs y)
    (hlater : W.getTs y < W.getTs later.ts) :
    ((((s.endPeriod name d.ts x y).reopened.add 0 allOk name d).2.add 0 allOk name later).2.dataStorage.count
      (s.keyId name) (W.getTs d.ts)) =
      ((if W.getTs d.ts = W.currentTime (s.keyCache.keyOrNew name d.ts).aggregator then
        (opened (s.keyCache.keyOrNew name d.ts).aggregator).orElse fun _ => some 1
      else some 1).getD 0) + d.count := by
  let r := (s.endPeriod name d.ts x y).reopened
  obtain ⟨ka, hk, hkid, htime⟩ := reopened_endPeriod_find? hA hS hR hid hcount
  have hidr : r.keyId name = s.keyId name := (keyId_of_some hk).trans hkid
  have hid' : (r.add 0 allOk name d).2.keyId name = s.keyId name := (r.add_keyId 0 allOk name d).trans hidr
  have hpast : d.ts < W.getTs y := by
    by_contra hge
    have hmono := hA.getTs_mono _ _ (not_lt.mp hge)
    rw [hA.getTs_idem] at hmono
    exact absurd hy hmono.not_gt
  have hadd : r.addKey name d = (ka, [KeyAggregator.latePoint W d], false) := by
    rw [addKey, KeyCache.keyOrNew_of_some _ hk]
    exact KeyAggregator.add_of_late ⟨hts, by rwa [htime]⟩ []
  have hk' : (r.add 0 allOk name d).2.keyCache.keyMap.find? name = some ka := by
    rw [add_find?_self, hadd]
  have hpts := @add_point? W r name (by rwa [hidr]) 0 d (s.keyId name)
  rw [hidr, if_pos rfl, hadd] at hpts
  have hadded : countAt? ((r.add 0 allOk name d).2.dataStorage.point? (s.keyId name)) (W.getTs d.ts) =
      some ((countAt? (r.dataStorage.point? (s.keyId name)) (W.getTs d.ts)).getD 0 + d.count) := by
    have hmerge : r.disableMerge = false := rfl
    rw [hpts, countAt?_writePoints hC, hmerge]
    simp [applyCount, toWrite, KeyAggregator.latePoint_ts hC, KeyAggregator.latePoint_count hC]
  have hdone := countAt?_add_later hA hS (by rwa [hid']) hk' (by rwa [htime]) (hy.trans hlater).ne
  rw [hid', htime, if_neg hy.ne, hadded] at hdone
  change (countAt? (((r.add 0 allOk name d).2.add 0 allOk name later).2.dataStorage.point? (s.keyId name))
    (W.getTs d.ts)).getD 0 = _
  rw [hdone, Option.getD_some, ← endPeriod_countAt? hA hS hid hle hx hy]
  rfl

end OpenPeriod

end Storage

end WfcBtp
