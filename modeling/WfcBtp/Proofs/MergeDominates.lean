import WfcBtp.Proofs.MergeOrder
import WfcBtp.Proofs.PowerValues

/-!
# Key info and merged points

A merge records every point it is given, and hands on their combinations. The recorded
maxima of a field bound any combination of its values; the sums of counts, and the
products with them, are bounded only if some single value reaches them.
-/

namespace WfcBtp
open Library

variable {W : Wrtstat}

/-- What `+=` does to values that are not negative: it adds what was lost, and no field of
the sum is larger than both fields it is made of. -/
structure Wrtstat.CombinesValues (W : Wrtstat) : Prop where
  lossy : ∀ a b, (W.plus a b).lossy = a.lossy + b.lossy
  value : ∀ (f : Field) (a b), 0 ≤ f.value a → 0 ≤ f.value b →
    0 ≤ f.value (W.plus a b) ∧ f.value (W.plus a b) ≤ max (f.value a) (f.value b)

namespace Wrtstat

/-- A mean with non-negative weights lies between the values. -/
lemma weighted_le {v v' : ℤ} (hv : 0 ≤ v) (hv' : 0 ≤ v') (n n' : ℕ) :
    0 ≤ weighted v n v' n' ∧ weighted v n v' n' ≤ max v v' := by
  unfold weighted
  split_ifs with h
  · exact ⟨le_rfl, hv.trans (le_max_left _ _)⟩
  · have hpos : (0 : ℤ) < n + n' := by omega
    refine ⟨Int.ediv_nonneg (by positivity) hpos.le, Int.ediv_le_of_le_mul hpos ?_⟩
    rw [mul_add]
    exact add_le_add (mul_le_mul_of_nonneg_right (le_max_left _ _) (Int.natCast_nonneg n))
      (mul_le_mul_of_nonneg_right (le_max_right _ _) (Int.natCast_nonneg n'))

theorem reference_combinesValues (step : ℤ) (addsOld : Bool) : (reference step addsOld).CombinesValues where
  lossy _ _ := rfl
  value f a b ha hb := by
    cases f with
    | avg => exact weighted_le ha hb _ _
    | perc50 => exact weighted_le ha hb _ _
    | perc80 => exact weighted_le ha hb _ _
    | perc95 => exact weighted_le ha hb _ _
    | perc99 => exact weighted_le ha hb _ _
    | perc100 => exact weighted_le ha hb _ _
    | max => exact ⟨ha.trans (le_max_left a.max b.max), le_rfl⟩
    | min =>
      have ha : 0 ≤ a.min := ha
      have hb : 0 ≤ b.min := hb
      change 0 ≤ (if a.count = 0 then b.min else min a.min b.min) ∧
        (if a.count = 0 then b.min else min a.min b.min) ≤ max a.min b.min
      split_ifs
      · exact ⟨hb, le_max_right _ _⟩
      · exact ⟨le_min ha hb, (min_le_left _ _).trans (le_max_left _ _)⟩

end Wrtstat

/-! ### Recorded maxima -/

/-- The values of a point are not negative, and they and their products fit 64 bits. -/
structure PlainValues (p : AggregatedInfo) : Prop where
  count : p.count < 2 ^ 63
  lossy : p.lossy < 2 ^ 63
  nonneg : ∀ f : Field, 0 ≤ f.value p
  fits : ∀ f : Field, Fits (f.value p * p.count)

/-- The key info reaches the counts, the fields and the products of a point. -/
structure Dominates (ki : StoredKey) (p : AggregatedInfo) : Prop where
  count : (p.count : ℤ) ≤ ki.count.value
  lossy : (p.lossy : ℤ) ≤ ki.lossy.value
  max : ∀ f : Field, f.value p ≤ (f.stored ki.max).value
  pow : ∀ f : Field, f.value p * p.count ≤ (f.stored ki.pow).value

/-- The recorded value or a single one of the new values reaches `x`. -/
def Reaches (recorded : ℤ) (single : AggregatedInfo → ℤ) (points : List AggregatedInfo) (x : ℤ) : Prop :=
  x ≤ recorded ∨ ∃ d ∈ points, x ≤ single d

lemma toValue_of_lt {n : ℕ} (h : n < 2 ^ 63) : toValue n = n :=
  Int.bmod_eq_of_le (by omega) (by omega)

lemma Field.value_aligned (f : Field) (d : AggregatedInfo) : f.value (aligned W d) = f.value d := by
  cases f <;> rfl

namespace KeyAggregator

/-- The key info after recording points reaches a value when it did so before or when one
of the points has it. -/
lemma le_recorded_iff (f : InfoField) {points : List AggregatedInfo} {single : AggregatedInfo → ℤ}
    (h : ∀ p ∈ points, f.value p = single p) (ki : StoredKey) (x : ℤ) :
    x ≤ (f.stored (points.foldl updateInfo ki).toStoredValues).value ↔
      Reaches (f.stored ki.toStoredValues).value single points x := by
  rw [value_foldl_updateInfo, le_foldl_max_iff, List.map_congr_left h]
  simp [Reaches]

section Reaching

variable {points : List AggregatedInfo} (hpoints : ∀ p ∈ points, PlainValues p) (ki : StoredKey)

include hpoints

lemma le_count_iff (x : ℤ) :
    x ≤ (points.foldl updateInfo ki).count.value ↔ Reaches ki.count.value (fun d => d.count) points x :=
  le_recorded_iff .count (fun p hp => toValue_of_lt (hpoints p hp).count) ki x

lemma le_lossy_iff (x : ℤ) :
    x ≤ (points.foldl updateInfo ki).lossy.value ↔ Reaches ki.lossy.value (fun d => d.lossy) points x :=
  le_recorded_iff .lossy (fun p hp => toValue_of_lt (hpoints p hp).lossy) ki x

lemma le_pow_iff (f : Field) (x : ℤ) :
    x ≤ (f.stored (points.foldl updateInfo ki).pow).value ↔
      Reaches (f.stored ki.pow).value (fun d => f.value d * d.count) points x :=
  le_recorded_iff (.pow f) (fun p hp => ((hpoints p hp).fits f).bmod) ki x

omit hpoints in
lemma le_max_iff (f : Field) (x : ℤ) :
    x ≤ (f.stored (points.foldl updateInfo ki).max).value ↔ Reaches (f.stored ki.max).value f.value points x :=
  le_recorded_iff (.max f) (fun _ _ => rfl) ki x

end Reaching

end KeyAggregator

open KeyAggregator

/-- What the key info reached before, it still reaches. -/
lemma Dominates.foldl_updateInfo {points : List AggregatedInfo} (hpoints : ∀ p ∈ points, PlainValues p)
    {ki : StoredKey} {q : AggregatedInfo} (h : Dominates ki q) : Dominates (points.foldl updateInfo ki) q where
  count := (le_count_iff hpoints ki _).mpr (.inl h.count)
  lossy := (le_lossy_iff hpoints ki _).mpr (.inl h.lossy)
  max f := (le_max_iff ki f _).mpr (.inl (h.max f))
  pow f := (le_pow_iff hpoints ki f _).mpr (.inl (h.pow f))

/-! ### Merging -/

/-- The sums of a stretch, and its combined fields multiplied with the sum of its counts,
are reached by a recorded value or by a single point of the list. -/
structure SumsReached (W : Wrtstat) (ki : StoredKey) (data s : List AggregatedInfo) : Prop where
  count : Reaches ki.count.value (fun d => d.count) data ((s.map (·.count)).sum : ℕ)
  lossy : Reaches ki.lossy.value (fun d => d.lossy) data ((s.map (·.lossy)).sum : ℕ)
  pow : ∀ f : Field, Reaches (f.stored ki.pow).value (fun d => f.value d * d.count) data
    (f.value (combined W.plus s) * ((s.map (·.count)).sum : ℕ))

lemma PlainValues.aligned {d : AggregatedInfo} (h : PlainValues d) : PlainValues (aligned W d) where
  count := h.count
  lossy := h.lossy
  nonneg f := by
    rw [Field.value_aligned]
    exact h.nonneg f
  fits f := by
    rw [Field.value_aligned]
    exact h.fits f

lemma reaches_aligned {single : AggregatedInfo → ℤ} (h : ∀ d, single (aligned W d) = single d) (r : ℤ)
    (data : List AggregatedInfo) (x : ℤ) :
    Reaches r single (data.map (aligned W)) x ↔ Reaches r single data x := by
  simp [Reaches, h]

/-- A point that has no neighbour of its period reaches its own sums. -/
lemma SumsReached.singleton {ki : StoredKey} {data : List AggregatedInfo} {d : AggregatedInfo} (hd : d ∈ data) :
    SumsReached W ki data [aligned W d] where
  count := .inr ⟨d, hd, by simp [aligned]⟩
  lossy := .inr ⟨d, hd, by simp [aligned]⟩
  pow f := by
    rw [combined_singleton, Field.value_aligned]
    exact .inr ⟨d, hd, by simp [aligned]⟩

/-- The combination of a stretch is dominated exactly when its sums are reached. -/
lemma dominates_combined_iff (hC : W.CombinesCounts) (hV : W.CombinesValues) {ki : StoredKey}
    {data s : List AggregatedInfo} (hdata : ∀ d ∈ data, PlainValues d) (hne : s ≠ [])
    (hs : ∀ a ∈ s, ∀ f : Field, 0 ≤ f.value a ∧
      f.value a ≤ (f.stored ((data.map (aligned W)).foldl updateInfo ki).max).value) :
    Dominates ((data.map (aligned W)).foldl updateInfo ki) (combined W.plus s) ↔ SumsReached W ki data s := by
  have hpoints : ∀ p ∈ data.map (aligned W), PlainValues p := by
    simpa using fun d hd => (hdata d hd).aligned
  have hcount : (combined W.plus s).count = (s.map (·.count)).sum := combined_sum (·.count) hC.plus hne
  have hlossy : (combined W.plus s).lossy = (s.map (·.lossy)).sum := combined_sum (·.lossy) hV.lossy hne
  have hmax : ∀ f : Field, f.value (combined W.plus s) ≤
      (f.stored ((data.map (aligned W)).foldl updateInfo ki).max).value := by
    intro f
    refine (combined_of_forall (P := fun a => 0 ≤ f.value a ∧
      f.value a ≤ (f.stored ((data.map (aligned W)).foldl updateInfo ki).max).value) ?_ hne
      fun a ha => hs a ha f).2
    intro a b ha hb
    obtain ⟨hnonneg, hle⟩ := hV.value f a b ha.1 hb.1
    exact ⟨hnonneg, hle.trans (max_le ha.2 hb.2)⟩
  have hc := le_count_iff hpoints ki ((s.map (·.count)).sum : ℕ)
  have hl := le_lossy_iff hpoints ki ((s.map (·.lossy)).sum : ℕ)
  rw [reaches_aligned fun _ => rfl] at hc hl
  have hproduct : ∀ (f : Field) (d : AggregatedInfo),
      f.value (aligned W d) * (aligned W d).count = f.value d * d.count := by
    intro f d
    rw [Field.value_aligned]
    rfl
  have hp := fun f : Field =>
    (le_pow_iff hpoints ki f (f.value (combined W.plus s) * ((s.map (·.count)).sum : ℕ))).trans
      (reaches_aligned (hproduct f) _ _ _)
  constructor
  · intro h
    refine ⟨hc.mp (hcount ▸ h.count), hl.mp (hlossy ▸ h.lossy), fun f => (hp f).mp ?_⟩
    rw [← hcount]
    exact h.pow f
  · intro h
    refine ⟨?_, ?_, hmax, fun f => ?_⟩
    · rw [hcount]
      exact hc.mpr h.count
    · rw [hlossy]
      exact hl.mpr h.lossy
    · rw [hcount]
      exact (hp f).mpr (h.pow f)

/-- After a merge the key info dominates every point handed on exactly when it reaches the
sums of every stretch of points of one period. -/
theorem merge_dominated_iff (hC : W.CombinesCounts) (hV : W.CombinesValues) (hT : W.KeepsTime)
    (ka : KeyAggregator W) (upData data : List AggregatedInfo) (hdata : ∀ d ∈ data, PlainValues d)
    (hup : ∀ p ∈ upData, Dominates ka.keyInfo p ∧ ∀ f : Field, 0 ≤ f.value p) :
    (∀ p ∈ (ka.merge upData data).2, Dominates (ka.merge upData data).1.keyInfo p) ↔
      ∀ s ∈ stretches (·.ts) (upData.getLast?.toList ++ data.map (aligned W)),
        SumsReached W ka.keyInfo data s := by
  have hpoints : ∀ p ∈ data.map (aligned W), PlainValues p := by
    simpa using fun d hd => (hdata d hd).aligned
  have hinfo : (ka.merge upData data).1.keyInfo = (data.map (aligned W)).foldl updateInfo ka.keyInfo := by
    rw [merge_keyInfo]
    rfl
  have hkept : ∀ p ∈ upData, Dominates ((data.map (aligned W)).foldl updateInfo ka.keyInfo) p :=
    fun p hp => (hup p hp).1.foldl_updateInfo hpoints
  -- the fields of the parts are recorded: those of the list now, the others before
  have hparts : ∀ s ∈ stretches (·.ts) (upData.getLast?.toList ++ data.map (aligned W)), ∀ a ∈ s,
      ∀ f : Field, 0 ≤ f.value a ∧
        f.value a ≤ (f.stored ((data.map (aligned W)).foldl updateInfo ka.keyInfo).max).value := by
    intro s hs a ha f
    rcases List.mem_append.mp (mem_of_mem_stretches hs ha) with ha | ha
    · have hup' : a ∈ upData := List.mem_of_mem_getLast? (Option.mem_toList.mp ha)
      exact ⟨(hup a hup').2 f, (hkept a hup').max f⟩
    · exact ⟨(hpoints a ha).nonneg f, (le_max_iff _ f _).mpr (.inr ⟨a, ha, le_rfl⟩)⟩
  have hstretch : ∀ s ∈ stretches (·.ts) (upData.getLast?.toList ++ data.map (aligned W)),
      (Dominates ((data.map (aligned W)).foldl updateInfo ka.keyInfo) (combined W.plus s) ↔
        SumsReached W ka.keyInfo data s) :=
    fun s hs => dominates_combined_iff hC hV hdata (ne_nil_of_mem_stretches hs) (hparts s hs)
  rw [hinfo, merge_upData hT]
  constructor
  · intro h s hs
    refine (hstretch s hs).mp (h _ (List.mem_append_right _ ?_))
    exact List.mem_map_of_mem hs
  · intro h p hp
    rcases List.mem_append.mp hp with hp | hp
    · exact hkept p ((List.dropLast_sublist _).subset hp)
    · obtain ⟨s, hs, rfl⟩ := List.mem_map.mp hp
      exact (hstretch s hs).mpr (h s hs)

/-- The first two points are combined; the third reaches what they sum. -/
theorem merge_dominated_of_two_periods :
    let ka : KeyAggregator (Wrtstat.reference 5 false) := create 0 1 0 { resolution := 1 }
    let data : List AggregatedInfo := [{ ts := 1, count := 1, avg := 1, max := 1 },
      { ts := 3, count := 1, avg := 3, max := 3 }, { ts := 6, count := 2, avg := 3, max := 3 }]
    (ka.merge [] data).2.map (·.count) = [2, 2] ∧
      ∀ p ∈ (ka.merge [] data).2, Dominates (ka.merge [] data).1.keyInfo p := by
  intro ka data
  have hplain : ∀ d ∈ data, PlainValues d := by
    intro d hd
    simp only [data, List.mem_cons, List.not_mem_nil, or_false] at hd
    rcases hd with rfl | rfl | rfl
    all_goals exact ⟨by decide, by decide, fun f => by cases f <;> decide, fun f => by cases f <;> decide⟩
  refine ⟨by decide, (merge_dominated_iff (Wrtstat.reference_combinesCounts 5 false)
    (Wrtstat.reference_combinesValues 5 false) (Wrtstat.reference_keepsTime 5 false) ka [] data hplain (by simp)).mpr ?_⟩
  let stretch : List AggregatedInfo := [{ count := 1, avg := 1, max := 1 }, { count := 1, avg := 3, max := 3 }]
  have hsplit : stretches (·.ts) (([] : List AggregatedInfo).getLast?.toList ++
      data.map (aligned (Wrtstat.reference 5 false))) =
      [stretch, [aligned (Wrtstat.reference 5 false) { ts := 6, count := 2, avg := 3, max := 3 }]] := rfl
  have hlast : ({ ts := 6, count := 2, avg := 3, max := 3 } : AggregatedInfo) ∈ data := by decide
  rw [hsplit]
  intro s hs
  rcases List.mem_pair.mp hs with rfl | rfl
  · exact ⟨.inr ⟨_, hlast, by decide⟩, .inl (by decide), fun f => .inr ⟨_, hlast, by cases f <;> decide⟩⟩
  · exact SumsReached.singleton hlast

/-- Two points of one period count two together, and the key info of their key has one. -/
theorem merge_not_dominated :
    let ka : KeyAggregator (Wrtstat.reference 5 false) := create 0 1 0 { resolution := 1 }
    let data : List AggregatedInfo := [{ ts := 1, count := 1 }, { ts := 3, count := 1 }]
    (∀ d ∈ data, PlainValues d) ∧ (ka.merge [] data).1.keyInfo.count.value = 1 ∧
      (ka.merge [] data).2.map (·.count) = [2] ∧
      ¬∀ p ∈ (ka.merge [] data).2, Dominates (ka.merge [] data).1.keyInfo p := by
  refine ⟨?_, by decide, by decide, fun h => ?_⟩
  · intro d hd
    simp only [List.mem_cons, List.not_mem_nil, or_false] at hd
    rcases hd with rfl | rfl
    · exact ⟨by decide, by decide, fun f => by cases f <;> decide, fun f => by cases f <;> decide⟩
    · exact ⟨by decide, by decide, fun f => by cases f <;> decide, fun f => by cases f <;> decide⟩
  · have hcount := (h _ List.mem_cons_self).count
    exact absurd hcount (by decide)

end WfcBtp
