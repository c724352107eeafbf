import WfcBtp.Proofs.Reopening

/-!
# Persisted key infos

As long as no key is evicted, key storage holds the key info of every cached key, and
restoring it brings back every recorded maximum.
-/

namespace WfcBtp
open Library

variable {W : Wrtstat}

/-! ### Recorded maxima -/

namespace KeyAggregator

/-- No recorded maximum of a group is negative. -/
structure BasicNonneg (b : StoredBasic) : Prop where
  min : 0 ≤ b.min.value
  perc50 : 0 ≤ b.perc50.value
  perc80 : 0 ≤ b.perc80.value
  perc95 : 0 ≤ b.perc95.value
  perc99 : 0 ≤ b.perc99.value
  perc100 : 0 ≤ b.perc100.value
  max : 0 ≤ b.max.value
  avg : 0 ≤ b.avg.value

structure InfoNonneg (ki : StoredValues) : Prop where
  count : 0 ≤ ki.count.value
  lossy : 0 ≤ ki.lossy.value
  max : BasicNonneg ki.max
  pow : BasicNonneg ki.pow

lemma le_updateField (field : StoredPair) (v t : ℤ) : field.value ≤ (updateField field v t).value := by
  unfold updateField
  split_ifs with h
  · exact h.le
  · exact le_rfl

lemma BasicNonneg.update {b : StoredBasic} (h : BasicNonneg b) (value : ℤ → ℤ) (d : AggregatedInfo) :
    BasicNonneg (updateBasic value b d) where
  min := h.min.trans (le_updateField _ _ _)
  perc50 := h.perc50.trans (le_updateField _ _ _)
  perc80 := h.perc80.trans (le_updateField _ _ _)
  perc95 := h.perc95.trans (le_updateField _ _ _)
  perc99 := h.perc99.trans (le_updateField _ _ _)
  perc100 := h.perc100.trans (le_updateField _ _ _)
  max := h.max.trans (le_updateField _ _ _)
  avg := h.avg.trans (le_updateField _ _ _)

lemma InfoNonneg.foldl_update (ds : List AggregatedInfo) {ki : StoredKey}
    (h : InfoNonneg ki.toStoredValues) : InfoNonneg (ds.foldl updateInfo ki).toStoredValues := by
  induction ds generalizing ki with
  | nil => exact h
  | cons d rest ih =>
    exact ih ⟨h.count.trans (le_updateField ki.count (toValue d.count) d.ts),
      h.lossy.trans (le_updateField ki.lossy (toValue d.lossy) d.ts), h.max.update id d,
      h.pow.update (powValue · d.count) d⟩

lemma InfoNonneg.add {ka : KeyAggregator W} (h : InfoNonneg ka.keyInfo.toStoredValues)
    (data : AggregatedData) : InfoNonneg (ka.add data []).1.keyInfo.toStoredValues := by
  by_cases hl : ka.isLate data.ts
  · rw [add_of_late hl]
    exact h
  · rw [add_of_not_late hl]
    exact h.foldl_update _

lemma InfoNonneg.merge {ka : KeyAggregator W} (h : InfoNonneg ka.keyInfo.toStoredValues)
    (data : List AggregatedInfo) : InfoNonneg (ka.merge [] data).1.keyInfo.toStoredValues := by
  rw [merge_keyInfo]
  exact h.foldl_update _

/-- Copying a maximum into a new key can only skip a zero. -/
lemma setField_value {f : StoredPair} (h : 0 ≤ f.value) (begTs : ℤ) : (setField begTs {} f).value = f.value := by
  unfold setField
  split_ifs with hc
  · rfl
  · have hnot : ¬0 < f.value := fun hlt => hc (.inr hlt)
    exact le_antisymm h (not_lt.mp hnot)

/-- A restored key has the maxima of the one that was stored. -/
lemma getAggregatedInfo_restored {ka : KeyAggregator W} (h : InfoNonneg ka.keyInfo.toStoredValues)
    (opt : KeyCacheOptions) (power : Bool) :
    (Storage.restored opt ka.keyInfo : KeyAggregator W).getAggregatedInfo power =
      ka.getAggregatedInfo power := by
  have hbasic : ∀ {b : StoredBasic}, BasicNonneg b → ∀ t,
      (setBasic t {} b).min.value = b.min.value ∧ (setBasic t {} b).perc50.value = b.perc50.value ∧
      (setBasic t {} b).perc80.value = b.perc80.value ∧ (setBasic t {} b).perc95.value = b.perc95.value ∧
      (setBasic t {} b).perc99.value = b.perc99.value ∧ (setBasic t {} b).perc100.value = b.perc100.value ∧
      (setBasic t {} b).max.value = b.max.value ∧ (setBasic t {} b).avg.value = b.avg.value :=
    fun hb t => ⟨setField_value hb.min t, setField_value hb.perc50 t, setField_value hb.perc80 t,
      setField_value hb.perc95 t, setField_value hb.perc99 t, setField_value hb.perc100 t,
      setField_value hb.max t, setField_value hb.avg t⟩
  obtain ⟨h1, h2, h3, h4, h5, h6, h7, h8⟩ := hbasic h.max ka.keyInfo.lastUpdate
  obtain ⟨p1, p2, p3, p4, p5, p6, p7, p8⟩ := hbasic h.pow ka.keyInfo.lastUpdate
  have hcount := setField_value h.count ka.keyInfo.lastUpdate
  have hlossy := setField_value h.lossy ka.keyInfo.lastUpdate
  simp only [getAggregatedInfo, Storage.restored, setKeyInfo, create, setInfo, hcount, hlossy]
  cases power with
  | false => simp only [Bool.false_eq_true, if_false, h1, h2, h3, h4, h5, h6, h7, h8]
  | true => simp only [if_true, p1, p2, p3, p4, p5, p6, p7, p8]

end KeyAggregator

/-! ### Stored and cached keys -/

/-- Key storage holds the key info of exactly the cached keys. -/
structure KeysPersisted (s : Storage W) : Prop where
  stored : ∀ name, s.keyStorage.key? name = (s.keyCache.keyMap.find? name).map (·.keyInfo)
  nonneg : ∀ name ka, s.keyCache.keyMap.find? name = some ka →
    KeyAggregator.InfoNonneg ka.keyInfo.toStoredValues
  id_ne : ∀ name ka, s.keyCache.keyMap.find? name = some ka → ka.getId ≠ badKey

namespace KeysPersisted

lemma of_fresh (opt : StorageOptions) (clock : ℤ) (hashSize resultLimit : ℕ) :
    KeysPersisted (Storage.fresh W opt clock hashSize resultLimit) where
  stored name := by simp
  nonneg name ka h := absurd h (by simp)
  id_ne name ka h := absurd h (by simp)

lemma keyOrNew_nonneg {s : Storage W} (h : KeysPersisted s) (name : Name) (ts : ℤ) :
    KeyAggregator.InfoNonneg (s.keyCache.keyOrNew name ts).keyInfo.toStoredValues := by
  cases hk : s.keyCache.keyMap.find? name with
  | some ka =>
    rw [KeyCache.keyOrNew_of_some ts hk]
    exact h.nonneg name ka hk
  | none =>
    rw [KeyCache.keyOrNew_of_none ts hk]
    constructor
    all_goals first | exact le_rfl | (constructor <;> exact le_rfl)

/-- Only a cached key gets late data. -/
lemma cached_of_late (hstart : W.StartsInTime) {s : Storage W} {name : Name} {ts : ℤ}
    (hlate : (s.keyCache.keyOrNew name ts).isLate ts) :
    s.keyCache.keyMap.find? name = some (s.keyCache.keyOrNew name ts) := by
  cases hk : s.keyCache.keyMap.find? name with
  | some ka => rw [KeyCache.keyOrNew_of_some ts hk]
  | none =>
    rw [KeyCache.keyOrNew_of_none ts hk] at hlate
    exact absurd hlate.2 (hstart ts).not_gt

lemma add (hstart : W.StartsInTime) {s : Storage W} (h : KeysPersisted s) {clock : ℤ} {name : Name}
    {data : AggregatedData} (hok : (s.add clock allOk name data).1 = .ok ()) :
    KeysPersisted (s.add clock allOk name data).2 := by
  have hid := (Storage.add_status_iff _ _ _ _).mp hok
  refine ⟨?_, ?_, ?_⟩
  · intro n
    rw [Storage.add_key? hid, Storage.add_find?, h.stored n]
    by_cases hn : n = name
    · subst hn
      by_cases hl : (s.keyCache.keyOrNew n data.ts).isLate data.ts
      · have hlate : s.addKey n data = (s.keyCache.keyOrNew n data.ts, [KeyAggregator.latePoint W data], false) :=
          KeyAggregator.add_of_late hl []
        rw [hlate, cached_of_late hstart hl]
        simp
      · have hlast : (s.addKey n data).2.2 = true := by
          rw [Storage.addKey, KeyAggregator.add_of_not_late hl]
        simp [hlast]
    · simp [hn]
  · intro n ka hk
    rw [Storage.add_find?] at hk
    split_ifs at hk with hn
    · rw [← Option.some.inj hk]
      exact (h.keyOrNew_nonneg name data.ts).add data
    · exact h.nonneg n ka hk
  · intro n ka hk
    rw [Storage.add_find?] at hk
    split_ifs at hk with hn
    · rw [← Option.some.inj hk, Storage.addKey_getId]
      exact hid
    · exact h.id_ne n ka hk

lemma merge {s : Storage W} (h : KeysPersisted s) {clock : ℤ} {name : Name} {data : List AggregatedInfo}
    (hok : (s.merge clock allOk name data).1 = .ok ()) : KeysPersisted (s.merge clock allOk name data).2 := by
  obtain ⟨hne, hid⟩ := (Storage.merge_status_iff _ _ _ _).mp hok
  refine ⟨?_, ?_, ?_⟩
  · intro n
    rw [Storage.merge_key? hok, Storage.merge_find? s allOk hne, h.stored n]
    split_ifs <;> rfl
  · intro n ka hk
    rw [Storage.merge_find? s allOk hne] at hk
    split_ifs at hk with hn
    · rw [← Option.some.inj hk]
      exact (h.keyOrNew_nonneg name _).merge data
    · exact h.nonneg n ka hk
  · intro n ka hk
    rw [Storage.merge_find? s allOk hne] at hk
    split_ifs at hk with hn
    · rw [← Option.some.inj hk, Storage.mergeKey_getId]
      exact hid
    · exact h.id_ne n ka hk

lemma del {s : Storage W} (h : KeysPersisted s) (hgc : s.keyCache.options.gcInterval = 0) (name : Name) :
    KeysPersisted (s.del allOk name).2 := by
  have hfind : ∀ n, (s.del allOk name).2.keyCache.keyMap.find? n =
      if n = name then none else s.keyCache.keyMap.find? n := by
    intro n
    rw [Storage.del_keyCache, KeyCache.del_find?]
  refine ⟨?_, ?_, ?_⟩
  · intro n
    rw [hfind]
    cases hk : s.keyCache.keyMap.find? name with
    | none =>
      have hbad : (s.keyCache.del name).1 = badKey := by rw [KeyCache.del_of_none hk]
      rw [Storage.del_of_badKey hbad]
      change s.keyStorage.key? n = _
      rw [h.stored n]
      by_cases hn : n = name
      · rw [if_pos hn, hn, hk]
      · rw [if_neg hn]
    | some ka =>
      have hdel : (s.keyCache.del name).1 = ka.getId :=
        KeyCache.del_fst (fun hg => absurd hgc hg) hk
      have hok := (Storage.del_status_iff s name).mpr (by rw [hdel]; exact h.id_ne name ka hk)
      rw [Storage.del_key? hok, h.stored n]
      split_ifs <;> rfl
  · intro n ka hk
    rw [hfind] at hk
    split_ifs at hk
    exact h.nonneg n ka hk
  · intro n ka hk
    rw [hfind] at hk
    split_ifs at hk
    exact h.id_ne n ka hk

lemma serve (hstart : W.StartsInTime) {s : Storage W} (h : KeysPersisted s)
    (hgc : s.keyCache.options.gcInterval = 0) {r : Request} (hr : s.Served r) :
    KeysPersisted (s.serve r).2 := by
  rcases hr with hok | ⟨name, rfl⟩ | ⟨clock, name, rfl⟩
  · cases r with
    | add clock name data => exact h.add hstart hok
    | merge clock name data => exact h.merge hok
    | del name => exact h.del hgc name
  · exact h.del hgc name
  · exact h

lemma close_key? {s : Storage W} (h : KeysPersisted s) (name : Name) :
    (s.close allOk).2.keyStorage.key? name = s.keyStorage.key? name := by
  rw [Storage.close_key?, h.stored]
  cases s.keyCache.keyMap.find? name <;> rfl

end KeysPersisted

end WfcBtp
