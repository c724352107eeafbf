import WfcBtp.Model.WrtstatReference
import WfcBtp.Proofs.LastPeriod

/-!
# Opening and closing without use

Opening seeds every aggregator from the key's recorded maxima, and closing pops what the
seed became and writes it over the last point.
-/

namespace WfcBtp
open Library

variable {W : Wrtstat} {opened : W.Aggregator → Option ℕ}

/-- The library takes the seed of a stored key over. -/
def SeedTaken (W : Wrtstat) (addsOld : Bool) (sk : StoredValues) : Prop :=
  W.getTs sk.count.ts = sk.lastUpdate ∨ addsOld = true

instance (addsOld : Bool) (sk : StoredValues) : Decidable (SeedTaken W addsOld sk) := by
  unfold SeedTaken
  infer_instance

/-- The point the recorded maxima of a key make, with the percentiles of no values. -/
def seedPoint (perc : List ℤ → AggregatedPerc) (sk : StoredValues) : AggregatedInfo where
  ts := sk.lastUpdate
  count := toSize sk.count.value
  lossy := toSize sk.lossy.value
  min := sk.max.min.value
  max := sk.max.max.value
  avg := sk.max.avg.value
  toAggregatedPerc := perc []

/-- A restored key that is closed at once hands on its seed, if the library took it. -/
lemma aggregateLastPointIf_restored {addsOld : Bool} {perc : List ℤ → AggregatedPerc}
    (hP : W.PopsReduced addsOld perc) {opt : KeyCacheOptions} (hlast : opt.aggregateLastPoint = true)
    {sk : StoredKey} (halign : W.getTs sk.lastUpdate = sk.lastUpdate)
    (hcount : KeyAggregator.CountUntil sk.toStoredValues sk.lastUpdate) :
    ((Storage.restored opt sk : KeyAggregator W).aggregateLastPointIf [] true).2 =
      if SeedTaken W addsOld sk.toStoredValues then [seedPoint perc sk.toStoredValues] else [] := by
  have hold : W.getTs sk.count.ts ≠ sk.lastUpdate → sk.count.ts < W.getTs sk.lastUpdate ∨
      (KeyAggregator.seed sk.toStoredValues).count = 0 := by
    intro hts
    rw [halign]
    refine hcount.imp (fun hle => lt_of_le_of_ne hle ?_) id
    rintro heq
    exact hts (by rw [heq, halign])
  have hon : (Storage.restored opt sk : KeyAggregator W).aggregateLastPoint = true := hlast
  have hpop : (Storage.restored opt sk : KeyAggregator W).aggregator =
      W.add (W.create sk.lastUpdate) (KeyAggregator.seed sk.toStoredValues) := rfl
  simp only [KeyAggregator.aggregateLastPointIf, hon, if_true, hpop]
  by_cases htaken : SeedTaken W addsOld sk.toStoredValues
  · have hdomain : W.getTs (KeyAggregator.seed sk.toStoredValues).ts = W.getTs sk.lastUpdate ∨
        addsOld = true ∧ ((KeyAggregator.seed sk.toStoredValues).ts < W.getTs sk.lastUpdate ∨
          (KeyAggregator.seed sk.toStoredValues).count = 0) := by
      by_cases hts : W.getTs sk.count.ts = sk.lastUpdate
      · exact .inl (hts.trans halign.symm)
      · exact .inr ⟨htaken.resolve_left hts, hold hts⟩
    obtain ⟨ag, hag, hpoint⟩ := hP.pop_added _ _ hdomain
    rw [halign] at hpoint
    rw [if_pos htaken, hag]
    dsimp only
    rw [hpoint]
    rfl
  · have hts : W.getTs sk.count.ts ≠ sk.lastUpdate := fun h => htaken (.inl h)
    have hoff : addsOld = false := Bool.eq_false_iff.mpr fun h => htaken (.inr h)
    rw [if_neg htaken, hP.pop_ignored sk.lastUpdate _ (by rw [halign]; exact hts) hoff (hold hts)]

namespace Reopenable

variable {adds : List AddCall} {s : Storage W}

/-- Every key that is restored was cached before, and is stored with its key info. -/
lemma restored_of_find? (h : Reopenable opened adds s) {closed : Bool} {opt : StorageOptions} {clock : ℤ}
    {name : Name} {ka : KeyAggregator W}
    (hka : (Storage.openOn opt clock (s.stop closed).keyStorage (s.stop closed).dataStorage :
      Storage W).keyCache.keyMap.find? name = some ka) :
    ∃ kb, s.keyCache.keyMap.find? name = some kb ∧ ka = Storage.restored opt.keyCache kb.keyInfo ∧
      (s.stop closed).keyStorage.key? name = some kb.keyInfo := by
  obtain ⟨sk, hsk, rfl⟩ := Storage.openOn_find?_of_some hka
  have hstored := hsk
  rw [h.stop_key? closed, h.persisted.stored] at hstored
  obtain ⟨kb, hkb, rfl⟩ := Option.map_eq_some_iff.mp hstored
  exact ⟨kb, hkb, rfl, hsk⟩

/-- Closing at once writes the seed of a restored key over its last point, if it was taken. -/
lemma close_restored_point? {addsOld : Bool} {perc : List ℤ → AggregatedPerc} (hP : W.PopsReduced addsOld perc)
    (h : Reopenable opened adds s) {closed : Bool} {opt : StorageOptions}
    (hlast : opt.keyCache.aggregateLastPoint = true) {clock : ℤ} {name : Name} {kb : KeyAggregator W}
    (hkb : s.keyCache.keyMap.find? name = some kb) :
    let s' : Storage W := Storage.openOn opt clock (s.stop closed).keyStorage (s.stop closed).dataStorage
    s'.keyCache.keyMap.find? name = some (Storage.restored opt.keyCache kb.keyInfo) →
    (s'.close allOk).2.dataStorage.point? kb.getId =
      (if SeedTaken W addsOld kb.keyInfo.toStoredValues then [seedPoint perc kb.keyInfo.toStoredValues]
        else []).foldl setPoint (s'.dataStorage.point? kb.getId) := by
  intro s' hka
  obtain ⟨added, hacc, -⟩ := h.accounted.accounted
  have huniq : ∀ n kc, s'.keyCache.keyMap.find? n = some kc → kc.getId = kb.getId → n = name := by
    intro n kc hkc hid
    obtain ⟨kd, hkd, rfl, -⟩ := h.restored_of_find? hkc
    exact hacc.id_inj n name kd kb hkd hkb hid
  -- the key info is about the period of the aggregator, which is aligned
  have hinfo := h.current name kb hkb
  obtain ⟨kl, -, hledger, -, hl⟩ := hacc.ledger kb.getId
  obtain rfl := hl name kb hkb rfl
  have hcount := hinfo.count_until
  rw [← hinfo.last_update] at hcount
  have halign := hledger.aligned
  rw [← hinfo.last_update] at halign
  have hclose := Storage.close_point?_of_cached hka huniq
  rw [aggregateLastPointIf_restored hP hlast halign hcount] at hclose
  exact hclose

end Reopenable

end WfcBtp
