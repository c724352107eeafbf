import WfcBtp.Model.WrtstatReference
import WfcBtp.Proofs.LastPeriod

/-!
# Going on with the last period after a restart

Opening the databases again seeds every aggregator with the maxima recorded for its key.
Further data of the last period are added to the seed, and the sum replaces what was
stored.
-/

namespace WfcBtp
open Library

variable {W : Wrtstat} {opened : W.Aggregator → Option ℕ}

/-- The count the library takes over from the seed of a stored key. -/
def seededCount (W : Wrtstat) (addsOld : Bool) (sk : StoredValues) : ℕ :=
  if W.getTs sk.count.ts = sk.lastUpdate ∨ addsOld then toSize sk.count.value else 0

lemma recorded_append_of_aligned {l l' : List AggregatedData} {t : ℤ} (h : ∀ d ∈ l', W.getTs d.ts = t)
    (hne : l' ≠ []) :
    recorded W (l ++ l') t = some ((recorded W l t).getD 0 + (l'.map (·.count)).sum) := by
  have hall : l'.filter (fun d => W.getTs d.ts = t) = l' := by
    apply List.filter_eq_self.mpr
    intro d hd
    exact decide_eq_true (h d hd)
  unfold recorded
  rw [List.filter_append, hall]
  cases hl : l.filter (fun d => W.getTs d.ts = t) with
  | nil =>
    cases l' with
    | nil => exact absurd rfl hne
    | cons d rest => simp
  | cons d rest => simp [Nat.add_assoc]

lemma callsOf_append_of_name {name : Name} (adds : List AddCall) {after : List AddCall}
    (h : ∀ c ∈ after, c.name = name) : callsOf name (adds ++ after) = callsOf name adds ++ after.map (·.data) := by
  have hall : after.filter (fun c => c.name = name) = after := by
    apply List.filter_eq_self.mpr
    intro c hc
    exact decide_eq_true (h c hc)
  rw [callsOf, List.filter_append, List.map_append, hall]
  rfl

/-- The aggregator of a restored key is in the last period and has taken over the seed. -/
lemma restored_opened (hS : W.SumsCounts opened) {addsOld : Bool} (hR : W.AddsReduced opened addsOld)
    (opt : KeyCacheOptions) {sk : StoredKey} (halign : W.getTs sk.lastUpdate = sk.lastUpdate)
    (hcount : KeyAggregator.CountUntil sk.toStoredValues sk.lastUpdate) :
    W.currentTime (Storage.restored opt sk : KeyAggregator W).aggregator = sk.lastUpdate ∧
      (opened (Storage.restored opt sk : KeyAggregator W).aggregator).getD 0 =
        seededCount W addsOld sk.toStoredValues := by
  have hcur : W.currentTime (W.create sk.lastUpdate) = sk.lastUpdate := by
    rw [hS.currentTime_create, halign]
  change W.currentTime (W.add (W.create sk.lastUpdate) (KeyAggregator.seed sk.toStoredValues)) = _ ∧
    (opened (W.add (W.create sk.lastUpdate) (KeyAggregator.seed sk.toStoredValues))).getD 0 = _
  unfold seededCount
  by_cases hts : W.getTs sk.count.ts = sk.lastUpdate
  · obtain ⟨htime, hopen⟩ := hR.add_current (W.create sk.lastUpdate) (KeyAggregator.seed sk.toStoredValues)
      (hts.trans hcur.symm)
    rw [htime, hopen, hcur, hS.opened_create, if_pos (.inl hts)]
    exact ⟨rfl, Nat.zero_add _⟩
  · -- the seed is older than the last period, or counts nothing
    have hold : sk.count.ts < sk.lastUpdate ∨ toSize sk.count.value = 0 := by
      refine hcount.imp (fun hle => lt_of_le_of_ne hle ?_) id
      rintro heq
      exact hts (by rw [heq, halign])
    obtain ⟨htime, hopen⟩ := hR.add_old (W.create sk.lastUpdate) (KeyAggregator.seed sk.toStoredValues)
      (by rw [hcur]; exact hts) (by rw [hcur]; exact hold)
    rw [htime, hopen, hcur, hS.opened_create]
    cases addsOld with
    | false => simp [hts]
    | true =>
      refine ⟨rfl, ?_⟩
      simp [KeyAggregator.seed]

/-- The adds that go on with the period of a restored key. -/
structure GoesOn (name : Name) (t : ℤ) (s : Storage W) (c : AddCall) : Prop where
  name_eq : c.name = name
  ts_ne : c.data.ts ≠ 0
  aligned : W.getTs c.data.ts = t
  takes : s.Takes c

/-- The key of `name` has summed `n` in its period `t`. -/
structure Summed (opened : W.Aggregator → Option ℕ) (name : Name) (id : KeyId) (t : ℤ) (n : ℕ)
    (s : Storage W) (ka : KeyAggregator W) : Prop where
  cached : s.keyCache.keyMap.find? name = some ka
  id_eq : ka.getId = id
  current : W.currentTime ka.aggregator = t
  aggregates : ka.aggregateLastPoint = true
  open_sum : (opened ka.aggregator).getD 0 = n

namespace Summed

variable {name : Name} {id : KeyId} {t : ℤ} {n : ℕ} {s : Storage W} {ka : KeyAggregator W}

/-- One more add of the period stores the sum so far. -/
lemma add (hA : W.AlignsTime) (hS : W.SumsCounts opened) (h : Summed opened name id t n s ka) {c : AddCall}
    (hc : GoesOn name t s c) :
    (∃ kb, Summed opened name id t (n + c.data.count) (s.addStep c) kb) ∧
      countAt? ((s.addStep c).dataStorage.point? id) t = some (n + c.data.count) := by
  obtain ⟨rfl, hts, haligned, htakes⟩ := hc
  have hid := (Storage.add_status_iff _ _ _ _).mp (Storage.takes_iff.mp htakes).2
  have hkey : s.keyCache.keyOrNew c.name c.data.ts = ka := KeyCache.keyOrNew_of_some _ h.cached
  have hon : ¬ka.isLate c.data.ts := by
    rintro ⟨-, hlt⟩
    rw [h.current, ← haligned] at hlt
    exact hlt.not_ge (hA.getTs_le _)
  have hfts : (KeyAggregator.fillData c.data).ts = c.data.ts :=
    congrArg ReducedInfo.ts (KeyAggregator.fillData_toReducedInfo _)
  have hfcount : (KeyAggregator.fillData c.data).count = c.data.count :=
    congrArg ReducedInfo.count (KeyAggregator.fillData_toReducedInfo _)
  obtain ⟨hnil, htime, hopen⟩ := hS.push_current ka.aggregator (KeyAggregator.fillData c.data)
    (by rw [hfts, haligned, h.current])
  rw [hfcount, h.open_sum] at hopen
  obtain ⟨hrep, htime', hopen'⟩ :=
    hS.aggregateCurrent (W.push ka.aggregator (KeyAggregator.fillData c.data)).2
  rw [htime, h.current] at hrep htime'
  rw [hopen] at hrep hopen'
  have hkb : s.addKey c.name c.data = ka.add c.data [] := by rw [Storage.addKey, hkey]
  constructor
  · refine ⟨(ka.add c.data []).1, ?_, ?_, ?_, ?_, ?_⟩
    · rw [Storage.addStep, Storage.add_find?, if_pos rfl, hkb]
    · rw [KeyAggregator.add_getId, h.id_eq]
    · rw [KeyAggregator.add_of_not_late hon]
      simpa [KeyAggregator.currentAggregator, h.aggregates] using htime'
    · rw [KeyAggregator.add_aggregateLastPoint, h.aggregates]
    · rw [KeyAggregator.add_of_not_late hon]
      simp [KeyAggregator.currentAggregator, h.aggregates, hopen']
  · have hkeyId : s.keyId c.name = id := (Storage.keyId_of_some h.cached).trans h.id_eq
    rw [Storage.addStep, Storage.add_point? hid, if_pos hkeyId.symm, hkb, KeyAggregator.add_of_not_late hon]
    simp only [writePoints, Bool.true_or, if_true, List.nil_append, KeyAggregator.currentPoints, hnil,
      h.aggregates]
    rw [countAt?_foldl_setPoint]
    refine (applyCount_reports hrep _ t).trans ?_
    rw [if_pos rfl]
    rfl

/-- After adds of the period, the sum so far is stored. -/
lemma adds (hA : W.AlignsTime) (hS : W.SumsCounts opened) (h : Summed opened name id t n s ka)
    {after : List AddCall} (hne : after ≠ []) (hafter : RunMeets Storage.addStep (GoesOn name t) s after) :
    (after.foldl Storage.addStep s).keyCache.getId name = id ∧
      countAt? ((after.foldl Storage.addStep s).dataStorage.point? id) t =
        some (n + (after.map (·.data.count)).sum) := by
  induction after generalizing s ka n with
  | nil => exact absurd rfl hne
  | cons c rest ih =>
    obtain ⟨⟨kb, hkb⟩, hcount⟩ := h.add hA hS hafter.1
    cases rest with
    | nil =>
      refine ⟨?_, ?_⟩
      · exact (KeyCache.getId_of_some hkb.cached).trans hkb.id_eq
      · simpa using hcount
    | cons c' rest =>
      obtain ⟨hid, hsum⟩ := ih hkb (List.cons_ne_nil _ _) hafter.2
      refine ⟨hid, ?_⟩
      have hcons : ((c :: c' :: rest).map (·.data.count)).sum =
          c.data.count + ((c' :: rest).map (·.data.count)).sum := by rw [List.map_cons, List.sum_cons]
      rw [List.foldl_cons, hsum, hcons, Nat.add_assoc]

end Summed

lemma goesOn_of_mem {name : Name} {t : ℤ} {s : Storage W} {after : List AddCall}
    (h : RunMeets Storage.addStep (GoesOn name t) s after) :
    ∀ c ∈ after, c.name = name ∧ W.getTs c.data.ts = t := by
  induction after generalizing s with
  | nil => exact fun c hc => absurd hc List.not_mem_nil
  | cons c rest ih =>
    intro c' hc'
    rcases List.mem_cons.mp hc' with rfl | hc'
    · exact ⟨h.1.name_eq, h.1.aligned⟩
    · exact ih h.2 c' hc'

end WfcBtp
