import WfcBtp.Model.AgDomain
import WfcBtp.Model.WrtstatReference
import WfcBtp.Proofs.InfoFields

/-!
# Power values

The rankings report the running maxima that the aggregator keeps of the products of a
field with the count; `get` multiplies the stored points itself.
-/

namespace WfcBtp
open Library

variable {W : Wrtstat}

namespace Field

lemma value_getAggregatedInfo (f : Field) (ka : KeyAggregator W) (power : Bool) :
    f.value (ka.getAggregatedInfo power) =
      (f.stored (if power then ka.keyInfo.pow else ka.keyInfo.max)).value := by
  cases f <;> rfl

/-- Every field but the average is multiplied with the count. -/
lemma value_toPower (f : Field) (p : AggregatedInfo) :
    f.value (toPower p) = if f = avg then mulValue p.avg p.avg else powValue (f.value p) p.count := by
  rw [← mulValue_toValue]
  cases f <;> rfl

end Field

namespace KeyAggregator

/-- What a new key reports with `power` set, once it has recorded some points. -/
lemma value_recordPoints (f : Field) (m : ℕ) (id : KeyId) (ts : ℤ) (opt : KeyCacheOptions)
    (points : List AggregatedInfo) :
    f.value (((create m id ts opt : KeyAggregator W).recordPoints points).getAggregatedInfo true) =
      (points.map fun p => powValue (f.value p) p.count).foldl max 0 := by
  have hpow := value_foldl_updateInfo (.pow f) points { id := id }
  rw [InfoField.stored_new] at hpow
  rw [Field.value_getAggregatedInfo, if_pos rfl]
  exact hpow

end KeyAggregator

lemma Fits.bmod {v : ℤ} (h : Fits v) : v.bmod (2 ^ 64) = v :=
  Int.bmod_eq_of_le (by have := h.1; omega) (by have := h.2; omega)

/-- The products that the two code paths make of a point. -/
def ProductsFit (p : AggregatedInfo) : Prop := (∀ f : Field, Fits (f.value p * p.count)) ∧ Fits (p.avg * p.avg)

/-- Every field but the average is ranked and returned with the same powers. -/
lemma power_values_agree_of_ne_avg (m : ℕ) (id : KeyId) (ts : ℤ) (opt : KeyCacheOptions)
    (points : List AggregatedInfo) {f : Field} (hf : f ≠ .avg) :
    f.value (((KeyAggregator.create m id ts opt : KeyAggregator W).recordPoints points).getAggregatedInfo true) =
      (points.map fun p => f.value (toPower p)).foldl max 0 := by
  simp only [KeyAggregator.value_recordPoints, Field.value_toPower, if_neg hf]

/-- The recorded power values are the maxima of the transformed points exactly when
squaring the averages and multiplying them with the counts have the same maximum. -/
theorem power_values_agree_iff (m : ℕ) (id : KeyId) (ts : ℤ) (opt : KeyCacheOptions)
    (points : List AggregatedInfo) (hfit : ∀ p ∈ points, ProductsFit p) :
    let ka := (KeyAggregator.create m id ts opt : KeyAggregator W).recordPoints points
    (∀ f : Field, f.value (ka.getAggregatedInfo true) =
        (points.map fun p => f.value (toPower p)).foldl max 0) ↔
      (∀ p ∈ points, ∃ q ∈ points, p.avg * p.count ≤ q.avg * q.avg) ∧
        ∀ p ∈ points, p.avg ≠ 0 → ∃ q ∈ points, p.avg * p.avg ≤ q.avg * q.count := by
  intro ka
  have hcount : points.map (fun p => powValue (Field.avg.value p) p.count) =
      points.map fun p => p.avg * (p.count : ℤ) :=
    List.map_congr_left fun p hp => ((hfit p hp).1 .avg).bmod
  have hsquare : points.map (fun p => Field.avg.value (toPower p)) = points.map fun p => p.avg * p.avg :=
    List.map_congr_left fun p hp => (hfit p hp).2.bmod
  have havg : (∀ f : Field, f.value (ka.getAggregatedInfo true) =
      (points.map fun p => f.value (toPower p)).foldl max 0) ↔
      (points.map fun p => p.avg * (p.count : ℤ)).foldl max 0 = (points.map fun p => p.avg * p.avg).foldl max 0 := by
    rw [← hcount, ← hsquare, ← KeyAggregator.value_recordPoints .avg m id ts opt points]
    constructor
    · intro h
      exact h .avg
    · intro h f
      by_cases hf : f = .avg
      · rw [hf]
        exact h
      · exact power_values_agree_of_ne_avg m id ts opt points hf
  rw [havg, le_antisymm_iff, foldl_max_le_foldl_max_iff, foldl_max_le_foldl_max_iff]
  simp only [List.forall_mem_map]
  simp only [List.mem_map, exists_exists_and_eq_and]
  constructor
  · rintro ⟨hle, hge⟩
    constructor
    · intro p hp
      rcases lt_or_ge 0 (p.avg * p.count) with hpos | hneg
      · exact hle p hp hpos
      · exact ⟨p, hp, hneg.trans (mul_self_nonneg p.avg)⟩
    · intro p hp hne
      exact hge p hp (mul_self_pos.mpr hne)
  · rintro ⟨hle, hge⟩
    constructor
    · intro p hp _
      exact hle p hp
    · intro p hp hpos
      exact hge p hp (mul_self_pos.mp hpos)

/-- The largest product and the largest square are those of the first point. -/
theorem power_values_agree_for_three_points :
    let points : List AggregatedInfo := [{ count := 3, avg := 3, max := 4, perc100 := 4 },
      { count := 2, avg := 2, max := 9, perc100 := 9 }, { count := 5, avg := 1, max := 1, perc100 := 1 }]
    let ka : KeyAggregator (Wrtstat.reference 5 false) :=
      (KeyAggregator.create 0 1 0 { resolution := 1 }).recordPoints points
    ∀ f : Field, f.value (ka.getAggregatedInfo true) =
      (points.map fun p => f.value (toPower p)).foldl max 0 := by
  intro points
  refine (power_values_agree_iff 0 1 0 { resolution := 1 } points ?_).mpr ?_
  · intro p hp
    simp only [points, List.mem_cons, List.not_mem_nil, or_false] at hp
    rcases hp with rfl | rfl | rfl
    all_goals exact ⟨fun f => by cases f <;> decide, by decide⟩
  · exact ⟨by decide, by decide⟩

/-- One point with the average ten of two values is ranked by twenty and returned with a
hundred. -/
theorem power_of_average_differs :
    let p : AggregatedInfo := { count := 2, avg := 10, min := 8, max := 12 }
    let ka : KeyAggregator (Wrtstat.reference 5 false) :=
      (KeyAggregator.create 0 1 0 { resolution := 1 }).recordPoints [p]
    ProductsFit p ∧ getByValue .avg (ka.getAggregatedInfo true) = 20 ∧ getByValue .avg (toPower p) = 100 ∧
      ¬∀ f : Field, f.value (ka.getAggregatedInfo true) =
        ([p].map fun p => f.value (toPower p)).foldl max 0 := by
  refine ⟨⟨fun f => by cases f <;> decide, by decide⟩, by decide, by decide, fun h => ?_⟩
  exact absurd (h .avg) (by decide)

end WfcBtp
