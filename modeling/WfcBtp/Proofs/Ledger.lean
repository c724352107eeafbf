import WfcBtp.Proofs.Writes

/-!
# The ledger of one key

What an aggregator and the points stored under its id know together of the data that
were added to the key.
-/

namespace WfcBtp

variable {W : Wrtstat}

/-- The sum of the counts of the data whose time aligns to `t`, `none` if there are none. -/
def recorded (W : Wrtstat) (l : List AggregatedData) (t : ℤ) : Option ℕ :=
  let counts := (l.filter fun d => W.getTs d.ts = t).map (·.count)
  if counts.isEmpty then none else some counts.sum

@[simp] lemma recorded_nil (t : ℤ) : recorded W [] t = none := rfl

lemma recorded_snoc (l : List AggregatedData) (d : AggregatedData) (t : ℤ) :
    recorded W (l ++ [d]) t =
      if W.getTs d.ts = t then some ((recorded W l t).getD 0 + d.count) else recorded W l t := by
  unfold recorded
  rw [List.filter_append]
  by_cases h : W.getTs d.ts = t
  · rw [if_pos h]
    cases hl : l.filter (fun d => W.getTs d.ts = t) with
    | nil => simp [h]
    | cons d' rest => simp [h, Nat.add_assoc]
  · simp [h]

lemma recorded_perm {l l' : List AggregatedData} (h : l.Perm l') (t : ℤ) : recorded W l t = recorded W l' t := by
  have hcounts : ((l.filter fun d => W.getTs d.ts = t).map (·.count)).Perm
      ((l'.filter fun d => W.getTs d.ts = t).map (·.count)) := (h.filter _).map _
  unfold recorded
  dsimp only
  rw [hcounts.sum_nat, hcounts.isEmpty_eq]

/-- The aggregator has summed the data of its period, the counts of earlier periods are
stored, nothing was recorded after it, and the count of the open period is stored too when
`aggregate_last_point` is set. -/
structure Ledger (opened : W.Aggregator → Option ℕ) (ka : KeyAggregator W) (counts : ℤ → Option ℕ)
    (l : List AggregatedData) : Prop where
  aligned : W.getTs (W.currentTime ka.aggregator) = W.currentTime ka.aggregator
  open_sum : opened ka.aggregator = recorded W l (W.currentTime ka.aggregator)
  later : ∀ t, W.currentTime ka.aggregator < t → recorded W l t = none
  stored : ∀ t, t ≠ W.currentTime ka.aggregator → counts t = recorded W l t
  stored_open : counts (W.currentTime ka.aggregator) =
    if ka.aggregateLastPoint then recorded W l (W.currentTime ka.aggregator) else none

/-- The current period has data, once there are any. -/
def Begun (ka : KeyAggregator W) (l : List AggregatedData) : Prop :=
  l ≠ [] → recorded W l (W.currentTime ka.aggregator) ≠ none

namespace Ledger

variable {opened : W.Aggregator → Option ℕ} {ka : KeyAggregator W} {counts : ℤ → Option ℕ}
  {l : List AggregatedData} {d : AggregatedData}

lemma of_create (hA : W.AlignsTime) (hS : W.SumsCounts opened) (m : ℕ) (id : KeyId) (ts : ℤ)
    (opt : KeyCacheOptions) (hcounts : ∀ t, counts t = none) :
    Ledger opened (KeyAggregator.create m id ts opt) counts [] where
  aligned := by
    change W.getTs (W.currentTime (W.create ts)) = W.currentTime (W.create ts)
    rw [hS.currentTime_create, hA.getTs_idem]
  open_sum := hS.opened_create ts
  later _ _ := rfl
  stored t _ := hcounts t
  stored_open := by simp [hcounts]

/-- Late data are added to an earlier point, past the aggregator. -/
lemma add_late (hA : W.AlignsTime) (hC : W.CombinesCounts) (h : Ledger opened ka counts l)
    (hlate : ka.isLate d.ts) :
    Ledger opened ka (applyCount counts (toWrite false (KeyAggregator.latePoint W d))) (l ++ [d]) := by
  have hlt : W.getTs d.ts < W.currentTime ka.aggregator := (hA.getTs_le d.ts).trans_lt hlate.2
  have hcur : recorded W (l ++ [d]) (W.currentTime ka.aggregator) =
      recorded W l (W.currentTime ka.aggregator) := by
    rw [recorded_snoc, if_neg hlt.ne]
  have happly : ∀ t, applyCount counts (toWrite false (KeyAggregator.latePoint W d)) t =
      if t = W.getTs d.ts then some ((counts t).getD 0 + d.count) else counts t := by
    intro t
    simp [applyCount, toWrite, KeyAggregator.latePoint_ts hC, KeyAggregator.latePoint_count hC]
  refine ⟨h.aligned, by rw [hcur]; exact h.open_sum, ?_, ?_, ?_⟩
  · intro t ht
    rw [recorded_snoc, if_neg (hlt.trans ht).ne]
    exact h.later t ht
  · intro t ht
    rw [happly, recorded_snoc, h.stored t ht]
    simp [eq_comm]
  · rw [hcur, happly, if_neg hlt.ne', h.stored_open]

/-- Data that are not late belong to the current period or to a later one. -/
lemma current_le (hA : W.AlignsTime) (h : Ledger opened ka counts l) (hts : d.ts ≠ 0)
    (hon : ¬ka.isLate d.ts) : W.currentTime ka.aggregator ≤ W.getTs d.ts := by
  have hnot : W.currentTime ka.aggregator ≤ d.ts := not_lt.mp fun hlt => hon ⟨hts, hlt⟩
  have hmono := hA.getTs_mono _ _ hnot
  rwa [h.aligned] at hmono

/-- The aggregator after the push of an on-time add, and what the push hands on. -/
lemma push (hA : W.AlignsTime) (hS : W.SumsCounts opened) (h : Ledger opened ka counts l)
    (hts : d.ts ≠ 0) (hon : ¬ka.isLate d.ts) :
    let r := W.push ka.aggregator (KeyAggregator.fillData d)
    let counts' := ((r.1.map AggregatedData.toPoint).map (toWrite true)).foldl applyCount counts
    W.currentTime r.2 = W.getTs d.ts ∧
      opened r.2 = recorded W (l ++ [d]) (W.getTs d.ts) ∧
      (∀ t, W.getTs d.ts < t → recorded W (l ++ [d]) t = none) ∧
      (∀ t, t ≠ W.getTs d.ts → counts' t = recorded W (l ++ [d]) t) ∧
      (ka.aggregateLastPoint = false → counts' (W.getTs d.ts) = none) := by
  have hfts : (KeyAggregator.fillData d).ts = d.ts :=
    congrArg ReducedInfo.ts (KeyAggregator.fillData_toReducedInfo d)
  have hfcount : (KeyAggregator.fillData d).count = d.count :=
    congrArg ReducedInfo.count (KeyAggregator.fillData_toReducedInfo d)
  intro r counts'
  rcases (h.current_le hA hts hon).eq_or_lt with hcur | hcur
  · -- the period goes on
    obtain ⟨hnil, htime, hopen⟩ := hS.push_current ka.aggregator (KeyAggregator.fillData d)
      (by rw [hfts, hcur])
    have hsame : counts' = counts := by simp [counts', r, hnil]
    refine ⟨htime.trans hcur, ?_, ?_, ?_, ?_⟩
    · rw [hopen, recorded_snoc, if_pos rfl, ← hcur, ← h.open_sum, hfcount]
    · intro t ht
      rw [recorded_snoc, if_neg ht.ne]
      exact h.later t (hcur ▸ ht)
    · intro t ht
      rw [hsame, recorded_snoc, if_neg ht.symm]
      exact h.stored t (hcur ▸ ht)
    · intro hoff
      rw [hsame, ← hcur, h.stored_open, hoff]
      rfl
  · -- the first data of a later period: the finished one is handed on
    obtain ⟨⟨rep, hrep, hlist⟩, htime, hopen⟩ := hS.push_later ka.aggregator (KeyAggregator.fillData d)
      (by rwa [hfts])
    rw [hfts] at htime
    have hnew : recorded W l (W.getTs d.ts) = none := h.later _ hcur
    have hr : ∀ t, counts' t = if t = W.currentTime ka.aggregator
        then (opened ka.aggregator).orElse (fun _ => counts t) else counts t := by
      intro t
      simp only [counts', r, hlist]
      exact applyCount_reports hrep counts t
    refine ⟨htime, ?_, ?_, ?_, ?_⟩
    · rw [hopen, recorded_snoc, if_pos rfl, hnew, hfcount]
      simp
    · intro t ht
      rw [recorded_snoc, if_neg ht.ne]
      exact h.later t (hcur.trans ht)
    · intro t ht
      rw [hr, recorded_snoc, if_neg ht.symm]
      split_ifs with he
      · subst he
        rw [h.open_sum, h.stored_open]
        cases hrec : recorded W l (W.currentTime ka.aggregator) <;> simp
      · exact h.stored t he
    · intro _
      rw [hr, if_neg hcur.ne', h.stored _ hcur.ne', hnew]

/-- On-time data go through the aggregator, which keeps the ledger. -/
lemma add_on_time (hA : W.AlignsTime) (hS : W.SumsCounts opened) (h : Ledger opened ka counts l)
    (hts : d.ts ≠ 0) (hon : ¬ka.isLate d.ts) :
    Ledger opened (ka.add d []).1 (((ka.add d []).2.1.map (toWrite true)).foldl applyCount counts)
      (l ++ [d]) := by
  obtain ⟨htime, hopen, hlater, hstored, hoff⟩ := h.push hA hS hts hon
  have halign : W.getTs (W.getTs d.ts) = W.getTs d.ts := hA.getTs_idem d.ts
  rw [KeyAggregator.add_of_not_late hon]
  dsimp only [KeyAggregator.currentPoints, KeyAggregator.currentAggregator]
  cases hl : ka.aggregateLastPoint with
  | false =>
    simp only [Bool.false_eq_true, if_false, List.append_nil, List.nil_append]
    refine ⟨?_, ?_, ?_, ?_, ?_⟩
    all_goals simp only [htime]
    · exact halign
    · exact hopen
    · exact hlater
    · exact hstored
    · simpa using hoff hl
  | true =>
    obtain ⟨hrep, hcur, hopen'⟩ := hS.aggregateCurrent (W.push ka.aggregator (KeyAggregator.fillData d)).2
    rw [htime] at hrep hcur
    rw [hopen] at hrep hopen'
    simp only [if_true, List.nil_append, List.map_append, List.foldl_append]
    refine ⟨?_, ?_, ?_, ?_, ?_⟩
    all_goals simp only [hcur]
    · exact halign
    · exact hopen'
    · exact hlater
    · intro t ht
      rw [applyCount_reports hrep, if_neg ht]
      exact hstored t ht
    · rw [applyCount_reports hrep, if_pos rfl, recorded_snoc, if_pos rfl]
      simp

/-- The current period after an on-time add. -/
lemma currentTime_add (hA : W.AlignsTime) (hS : W.SumsCounts opened) (h : Ledger opened ka counts l)
    (hts : d.ts ≠ 0) (hon : ¬ka.isLate d.ts) :
    W.currentTime (ka.add d []).1.aggregator = W.getTs d.ts := by
  have htime := (h.push hA hS hts hon).1
  rw [KeyAggregator.add_of_not_late hon]
  dsimp only [KeyAggregator.currentAggregator]
  split_ifs
  · rw [(hS.aggregateCurrent _).2.1, htime]
  · exact htime

/-- An add keeps the ledger of its key. Late data need `inc`, so merging must be on. -/
lemma add (hA : W.AlignsTime) (hS : W.SumsCounts opened) (hC : W.CombinesCounts)
    (h : Ledger opened ka counts l) {disableMerge : Bool} (hts : d.ts ≠ 0)
    (hlate : ka.isLate d.ts → disableMerge = false) :
    Ledger opened (ka.add d []).1
      (((ka.add d []).2.1.map (toWrite ((ka.add d []).2.2 || disableMerge))).foldl applyCount counts)
      (l ++ [d]) := by
  by_cases hl : ka.isLate d.ts
  · rw [KeyAggregator.add_of_late hl, hlate hl]
    exact h.add_late hA hC hl
  · have hlast : (ka.add d []).2.2 = true := by rw [KeyAggregator.add_of_not_late hl]
    rw [hlast, Bool.true_or]
    exact h.add_on_time hA hS hts hl

lemma begun_add (hA : W.AlignsTime) (hS : W.SumsCounts opened) (h : Ledger opened ka counts l)
    (hb : Begun ka l) (hts : d.ts ≠ 0) (hlate : ka.isLate d.ts → l ≠ []) :
    Begun (ka.add d []).1 (l ++ [d]) := by
  intro _
  by_cases hl : ka.isLate d.ts
  · have hlt : W.getTs d.ts < W.currentTime ka.aggregator := (hA.getTs_le d.ts).trans_lt hl.2
    rw [KeyAggregator.add_of_late hl, recorded_snoc, if_neg hlt.ne]
    exact hb (hlate hl)
  · rw [h.currentTime_add hA hS hts hl, recorded_snoc, if_pos rfl]
    simp

/-- The counts after the open period was popped and written. -/
lemma release (hS : W.SumsCounts opened) (h : Ledger opened ka counts l) :
    ((ka.aggregateLastPointIf [] true).2.map (toWrite true)).foldl applyCount counts = counts := by
  unfold KeyAggregator.aggregateLastPointIf
  cases hl : ka.aggregateLastPoint with
  | false => rfl
  | true =>
    have hw := applyCount_reports (hS.forcePop ka.aggregator) counts
    cases hr : (W.forcePop ka.aggregator).1 with
    | none => simp [hr]
    | some ag =>
      rw [hr] at hw
      funext t
      simp only [if_true, List.nil_append, hr]
      refine (hw t).trans ?_
      split_ifs with ht
      · rw [ht, h.stored_open, h.open_sum, hl]
        cases recorded W l (W.currentTime ka.aggregator) <;> simp
      · rfl

end Ledger

end WfcBtp
