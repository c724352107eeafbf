import WfcBtp.Library.Stretches
import WfcBtp.Model.WrtstatReference
import WfcBtp.Proofs.Writes

/-!
# The order of a merged list

A merge combines a point with the one before it only, and writes the combinations with
`set`. A period that the list comes back to keeps what was last combined for it.
-/

namespace WfcBtp
open Library

variable {W : Wrtstat}

/-- The point at the start of its period. -/
def aligned (W : Wrtstat) (d : AggregatedInfo) : AggregatedInfo := { d with ts := W.getTs d.ts }

namespace KeyAggregator

lemma mergePoint_eq (upData : List AggregatedInfo) (d : AggregatedInfo) :
    mergePoint W upData d = collect (·.ts) W.plus upData d := by
  unfold mergePoint collect
  cases upData.getLast? with
  | none => rfl
  | some b => exact ite_not _ _ _

lemma merge_snd (data : List AggregatedInfo) (ka : KeyAggregator W) (upData : List AggregatedInfo) :
    (ka.merge upData data).2 = (data.map (aligned W)).foldl (collect (·.ts) W.plus) upData := by
  induction data generalizing ka upData with
  | nil => rfl
  | cons d rest ih =>
    rw [merge, ih, mergePoint_eq]
    rfl

/-- A merge hands on one point for every stretch of points of one period. -/
lemma merge_upData (hT : W.KeepsTime) (ka : KeyAggregator W) (upData data : List AggregatedInfo) :
    (ka.merge upData data).2 = upData.dropLast ++
      (stretches (·.ts) (upData.getLast?.toList ++ data.map (aligned W))).map (combined W.plus) := by
  rw [merge_snd, foldl_collect hT]

end KeyAggregator

lemma foldl_setPoint_of_forall_ne {ds : List AggregatedInfo} {t : ℤ} (h : ∀ d ∈ ds, d.ts ≠ t) (pts : Points) :
    ds.foldl setPoint pts t = pts t := by
  induction ds generalizing pts with
  | nil => rfl
  | cons d rest ih =>
    rw [List.foldl_cons, ih fun d' hd' => h d' (List.mem_cons_of_mem _ hd')]
    exact if_neg (h d List.mem_cons_self).symm

/-- The last point written at a time is the one that stays. -/
lemma foldl_setPoint_append_cons {d : AggregatedInfo} {after : List AggregatedInfo}
    (h : ∀ d' ∈ after, d'.ts ≠ d.ts) (before : List AggregatedInfo) (pts : Points) :
    (before ++ d :: after).foldl setPoint pts d.ts = some d := by
  rw [List.foldl_append, List.foldl_cons, foldl_setPoint_of_forall_ne h]
  exact if_pos rfl

/-- What is stored for a period of the list is its last stretch, put together. -/
lemma foldl_setPoint_stretches (hT : W.KeepsTime) {A B C : List AggregatedInfo} {t : ℤ}
    (hA : ∀ a ∈ A.getLast?, a.ts ≠ t) (hne : B ≠ []) (hB : ∀ b ∈ B, b.ts = t) (hC : ∀ c ∈ C, c.ts ≠ t)
    (pts : Points) :
    ((stretches (·.ts) (A ++ (B ++ C))).map (combined W.plus)).foldl setPoint pts t =
      some (combined W.plus B) := by
  have hts : (combined W.plus B).ts = t := key_combined (fun a b h => hT a b h) hne hB
  have hsplit : stretches (·.ts) (A ++ (B ++ C)) =
      stretches (·.ts) A ++ (B :: stretches (·.ts) C) := by
    rw [stretches_append, stretches_append, stretches_of_one_key hne hB, List.singleton_append]
    · intro b hb c hc
      rw [hB b (List.mem_of_mem_getLast? hb)]
      exact (hC c (List.mem_of_mem_head? hc)).symm
    · intro a ha b hb
      have hb' : b ∈ B := by
        rw [List.head?_append_of_ne_nil _ hne] at hb
        exact List.mem_of_mem_head? hb
      rw [hB b hb']
      exact hA a ha
  have hafter : ∀ d ∈ (stretches (·.ts) C).map (combined W.plus), d.ts ≠ (combined W.plus B).ts := by
    intro d hd
    obtain ⟨s, hs, rfl⟩ := List.mem_map.mp hd
    rw [hts]
    obtain ⟨k, hk⟩ := one_key_of_mem_stretches hs
    obtain ⟨c, hc⟩ := List.exists_mem_of_ne_nil s (ne_nil_of_mem_stretches hs)
    have hkey : (combined W.plus s).ts = k := key_combined (fun a b h => hT a b h) (ne_nil_of_mem_stretches hs) hk
    rw [hkey, ← hk c hc]
    exact hC c (mem_of_mem_stretches hs hc)
  rw [hsplit, List.map_append, List.map_cons, ← hts]
  exact foldl_setPoint_append_cons hafter _ _

/-- That is the whole sum of the period exactly when what came before its last stretch
counts nothing. -/
lemma stored_count_eq_sum_iff (hC : W.CombinesCounts) (hT : W.KeepsTime) {ds : List AggregatedInfo} {t : ℤ}
    (ht : ∃ d ∈ ds, d.ts = t) (pts : Points) :
    (countAt? (((stretches (·.ts) ds).map (combined W.plus)).foldl setPoint pts) t).getD 0 =
        ((ds.filter (·.ts = t)).map (·.count)).sum ↔
      ∀ d e d', [d, e, d'].Sublist ds → d.ts = t → ¬e.ts = t → d'.ts = t → d.count = 0 := by
  obtain ⟨A, B, C, rfl, hA, hne, hB, hC'⟩ := exists_last_stretch (p := fun d : AggregatedInfo => d.ts = t) ht
  have hcount : (combined W.plus B).count = (B.map (·.count)).sum :=
    combined_sum (·.count) hC.plus hne
  have hfilterB : B.filter (fun d => decide (d.ts = t)) = B := by
    rw [List.filter_eq_self]
    simpa using hB
  have hfilterC : C.filter (fun d => decide (d.ts = t)) = [] := by
    rw [List.filter_eq_nil_iff]
    simpa using hC'
  have hsum : (((A ++ (B ++ C)).filter (·.ts = t)).map (·.count)).sum =
      ((A.filter (·.ts = t)).map (·.count)).sum + (B.map (·.count)).sum := by
    rw [List.filter_append, List.filter_append, hfilterB, hfilterC, List.append_nil, List.map_append,
      List.sum_append]
  rw [← forall_before_last_stretch_iff hA hne hB hC', countAt?,
    foldl_setPoint_stretches hT hA hne hB hC', Option.map_some, Option.getD_some, hsum, hcount,
    right_eq_add, List.sum_eq_zero_iff_forall_eq_nat]
  simp only [List.forall_mem_map, List.mem_filter, decide_eq_true_eq, and_imp]

namespace Storage

/-- After a merge, every period of its list has the sum of the list's counts. -/
def PersistsSums (s : Storage W) (clock : ℤ) (ok : Outcomes) (name : Name) (data : List AggregatedInfo) : Prop :=
  ∀ d ∈ data, (s.merge clock ok name data).2.dataStorage.count (s.keyId name) (W.getTs d.ts) =
    ((data.filter fun d' => W.getTs d'.ts = W.getTs d.ts).map (·.count)).sum

/-- A merge that succeeds persists the sums exactly when the list comes back only to
periods that counted nothing before. -/
theorem merge_persists_sums_iff (hC : W.CombinesCounts) (hT : W.KeepsTime) (s : Storage W) (clock : ℤ)
    (ok : Outcomes) (name : Name) (data : List AggregatedInfo)
    (hok : (s.merge clock ok name data).1 = .ok ()) :
    s.PersistsSums clock ok name data ↔
      ∀ d e d', [d, e, d'].Sublist data → W.getTs d.ts = W.getTs d'.ts → W.getTs e.ts ≠ W.getTs d.ts →
        d.count = 0 := by
  have hmerge := merge_of_ok hok
  rw [hmerge] at hok
  have hpoints : (s.merge clock ok name data).2.dataStorage.point? (s.keyId name) =
      ((stretches (·.ts) (data.map (aligned W))).map (combined W.plus)).foldl setPoint
        (s.dataStorage.point? (s.keyId name)) := by
    rw [hmerge, merge_point? hok, if_pos rfl, mergeKey, KeyAggregator.merge_upData hT]
    rfl
  have hperiod : ∀ d ∈ data,
      ((s.merge clock ok name data).2.dataStorage.count (s.keyId name) (W.getTs d.ts) =
          ((data.filter fun d' => W.getTs d'.ts = W.getTs d.ts).map (·.count)).sum ↔
        ∀ a e a', [a, e, a'].Sublist (data.map (aligned W)) → a.ts = W.getTs d.ts → ¬e.ts = W.getTs d.ts →
          a'.ts = W.getTs d.ts → a.count = 0) := by
    intro d hd
    have h := stored_count_eq_sum_iff hC hT ⟨aligned W d, List.mem_map_of_mem hd, rfl⟩
      (s.dataStorage.point? (s.keyId name))
    rw [← hpoints, List.filter_map, List.map_map] at h
    exact h
  unfold PersistsSums
  rw [forall₂_congr hperiod]
  constructor
  · intro h d e d' hsub hts hne
    have hd : d ∈ data := hsub.subset List.mem_cons_self
    exact h d hd (aligned W d) (aligned W e) (aligned W d') (hsub.map (aligned W)) rfl hne hts.symm
  · intro h d hd a e a' hsub ha he ha'
    obtain ⟨l, hl, heq⟩ := List.sublist_map_iff.mp hsub
    obtain ⟨x, l₁, rfl, rfl, heq₁⟩ := List.map_eq_cons_iff.mp heq.symm
    obtain ⟨y, l₂, rfl, rfl, heq₂⟩ := List.map_eq_cons_iff.mp heq₁
    obtain ⟨z, l₃, rfl, rfl, heq₃⟩ := List.map_eq_cons_iff.mp heq₂
    obtain rfl := List.map_eq_nil_iff.mp heq₃
    exact h x y z hl (ha.trans ha'.symm) fun hy => he (hy.trans ha)

/-- Two orders of one list that both persist the sums persist the same counts. -/
lemma PersistsSums.perm {s : Storage W} {clock : ℤ} {ok ok' : Outcomes} {name : Name}
    {data data' : List AggregatedInfo} (hperm : data.Perm data') (h : s.PersistsSums clock ok name data)
    (h' : s.PersistsSums clock ok' name data') :
    ∀ d ∈ data, (s.merge clock ok name data).2.dataStorage.count (s.keyId name) (W.getTs d.ts) =
      (s.merge clock ok' name data').2.dataStorage.count (s.keyId name) (W.getTs d.ts) := by
  intro d hd
  rw [h d hd, h' d (hperm.mem_iff.mp hd)]
  exact ((hperm.filter _).map _).sum_eq

theorem merge_persists_sums_of_sorted :
    let s : Storage (Wrtstat.reference 5 false) := openOn { keyCache := { resolution := 1 } } 0 KeyStorage.create (DataStorage.create 4 10)
    let data : List AggregatedInfo := [{ ts := 1, count := 2 }, { ts := 3, count := 1 }, { ts := 6, count := 4 }]
    s.PersistsSums 0 allOk [97] data := by
  intro s data
  have hok : (s.merge 0 allOk [97] data).1 = .ok () :=
    (merge_status_iff s 0 [97] data).mpr ⟨List.cons_ne_nil _ _, by decide +kernel⟩
  refine (merge_persists_sums_iff (Wrtstat.reference_combinesCounts 5 false)
    (Wrtstat.reference_keepsTime 5 false) s 0 allOk [97] data hok).mpr ?_
  intro d e d' hsub hts hne
  have heq := hsub.eq_of_length rfl
  simp only [data, List.cons.injEq, and_true] at heq
  obtain ⟨rfl, rfl, rfl⟩ := heq
  exact absurd hts (by decide)

/-- The list comes back to the first period, whose two counts are overwritten by the one. -/
theorem merge_loses_first_stretch :
    let s : Storage (Wrtstat.reference 5 false) := openOn { keyCache := { resolution := 1 } } 0 KeyStorage.create (DataStorage.create 4 10)
    let data : List AggregatedInfo := [{ ts := 1, count := 2 }, { ts := 6, count := 4 }, { ts := 3, count := 1 }]
    let r := s.merge 0 allOk [97] data
    r.1 = .ok () ∧ r.2.dataStorage.count 1 0 = 1 ∧ ¬s.PersistsSums 0 allOk [97] data := by
  refine ⟨by decide +kernel, by decide +kernel, fun h => ?_⟩
  exact absurd (h _ List.mem_cons_self) (by decide +kernel)

end Storage

end WfcBtp
