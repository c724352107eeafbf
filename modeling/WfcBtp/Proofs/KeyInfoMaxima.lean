import WfcBtp.Proofs.InfoFields

/-!
# What key info records

Every field of the key info is the largest value recorded so far, counted from zero, with the
time it was first reached at. That makes the copy of `set_key_info` into a new key exact.
-/

namespace WfcBtp
open Library

variable {W : Wrtstat}

namespace KeyAggregator

/-- What a key that was new has recorded of a list of points. -/
def recorded (f : InfoField) (id : KeyId) (points : List AggregatedInfo) : StoredPair :=
  f.stored (points.foldl updateInfo { id := id }).toStoredValues

section Recorded

variable (f : InfoField) (id : KeyId) (points : List AggregatedInfo)

lemma recorded_value : (recorded f id points).value = (points.map f.value).foldl max 0 := by
  rw [recorded, value_foldl_updateInfo, InfoField.stored_new]

lemma recorded_nonneg : 0 ≤ (recorded f id points).value := by
  rw [recorded_value]
  exact le_foldl_max_iff.mpr (.inl le_rfl)

/-- The time is that of the first point with the recorded value, if it is not the zero that
was there before. -/
lemma recorded_ts :
    ((recorded f id points).value = 0 → (recorded f id points).ts = 0) ∧
      ((recorded f id points).value ≠ 0 →
        (points.find? fun p => f.value p = (recorded f id points).value).map (·.ts) =
          some (recorded f id points).ts) := by
  have hpair := labelled_foldl_updateInfo f points { id := id }
  have hfirst := find?_foldl_keepLarger (0, 0) (points.map fun p => (f.value p, p.ts))
  have hzero : (f.stored { id := id : StoredKey }.toStoredValues).labelled = (0, 0) := by
    rw [InfoField.stored_new]
    rfl
  rw [hzero] at hpair
  rw [← hpair] at hfirst
  change ((0, 0) :: _).find? (fun e => decide (e.1 = (recorded f id points).value)) =
    some (recorded f id points).labelled at hfirst
  constructor
  · intro hvalue
    rw [List.find?_cons_of_pos (by simpa using hvalue.symm)] at hfirst
    exact (congrArg Prod.snd (Option.some.inj hfirst)).symm
  · intro hvalue
    rw [List.find?_cons_of_neg (by simpa using hvalue.symm), List.find?_map] at hfirst
    have hts := congrArg (Option.map Prod.snd) hfirst
    rw [Option.map_map] at hts
    exact hts

end Recorded

/-- A new pair takes over a recorded one as it is, from whatever time on. -/
lemma setField_new {f : StoredPair} (hvalue : 0 ≤ f.value) (hts : f.value = 0 → f.ts = 0) (begTs : ℤ) :
    setField begTs {} f = f := by
  unfold setField
  split_ifs with h
  · rfl
  · have hzero : f.value = 0 := le_antisymm (not_lt.mp (not_or.mp h).2) hvalue
    have htime := hts hzero
    cases f
    rw [StoredPair.mk.injEq]
    exact ⟨hzero.symm, htime.symm⟩

lemma setInfo_recorded (id id' : KeyId) (points : List AggregatedInfo) :
    setInfo { id := id' } (points.foldl updateInfo { id := id }).toStoredValues =
      { points.foldl updateInfo { id := id } with id := id' } := by
  have hvalues : (setInfo { id := id' } (points.foldl updateInfo { id := id }).toStoredValues).toStoredValues =
      (points.foldl updateInfo { id := id }).toStoredValues := by
    refine StoredValues.eq_of_fields rfl fun f => ?_
    rw [f.stored_setInfo, f.stored_new]
    exact setField_new (recorded_nonneg f id points) (recorded_ts f id points).1 _
  exact congrArg (fun si : StoredValues => ({ toStoredValues := si, id := id' } : StoredKey)) hvalues

lemma foldl_updateInfo_with_id (points : List AggregatedInfo) (ki : StoredKey) (id : KeyId) :
    points.foldl updateInfo { ki with id := id } = { points.foldl updateInfo ki with id := id } := by
  induction points generalizing ki with
  | nil => rfl
  | cons p rest ih =>
    have hstep : updateInfo { ki with id := id } p = { updateInfo ki p with id := id } := rfl
    rw [List.foldl_cons, hstep, ih, List.foldl_cons]

/-- Each field of a key that was new is the largest recorded value, or zero, at the first
time it was reached. So the order of the points does not matter to the values, and a new
key that is given the info of some points goes on as the one that recorded them. -/
theorem key_info_records_maxima (m : ℕ) (id : KeyId) (ts : ℤ) (opt : KeyCacheOptions)
    (points : List AggregatedInfo) :
    let info := fun points => ((create m id ts opt : KeyAggregator W).recordPoints points).keyInfo
    (∀ f : InfoField,
      IsGreatest {v | v = 0 ∨ v ∈ points.map f.value} (f.stored (info points).toStoredValues).value ∧
      ((f.stored (info points).toStoredValues).value = 0 → (f.stored (info points).toStoredValues).ts = 0) ∧
      ((f.stored (info points).toStoredValues).value ≠ 0 →
        (points.find? fun p => f.value p = (f.stored (info points).toStoredValues).value).map (·.ts) =
          some (f.stored (info points).toStoredValues).ts)) ∧
    (∀ points', points'.Perm points → ∀ f : InfoField,
      (f.stored (info points').toStoredValues).value = (f.stored (info points).toStoredValues).value) ∧
    ∀ (m' : ℕ) (id' : KeyId) (ts' : ℤ) (opt' : KeyCacheOptions) (rest : List AggregatedInfo),
      (((create m' id' ts' opt' : KeyAggregator W).setKeyInfo (info points).toStoredValues).recordPoints rest).keyInfo =
        { info (points ++ rest) with id := id' } := by
  intro info
  refine ⟨fun f => ⟨?_, recorded_ts f id points⟩, fun points' hperm f => ?_, fun m' id' ts' opt' rest => ?_⟩
  · have hgreatest := isGreatest_foldl_max 0 (points.map f.value)
    rwa [← recorded_value f id points] at hgreatest
  · change (recorded f id points').value = (recorded f id points).value
    rw [recorded_value, recorded_value]
    exact foldl_max_perm (hperm.map f.value) 0
  · have hset := setInfo_recorded id id' points
    change rest.foldl updateInfo (setInfo { id := id' } (points.foldl updateInfo { id := id }).toStoredValues) =
      { (points ++ rest).foldl updateInfo { id := id } with id := id' }
    rw [hset, foldl_updateInfo_with_id, List.foldl_append]

end KeyAggregator

end WfcBtp
