import WfcBtp.Proofs.Conservation
import WfcBtp.Proofs.Divisions
import WfcBtp.Proofs.KeysPersisted

/-!
# The last period of a stored key

After adds, `last_update` in the key info is the period the aggregator is in, and the
recorded maximum count is not from a later one.
-/

namespace WfcBtp
open Library

variable {W : Wrtstat} {opened : W.Aggregator → Option ℕ}

namespace KeyAggregator

/-- The maximum count was recorded no later than `t`, if one was recorded. -/
def CountUntil (ki : StoredValues) (t : ℤ) : Prop := ki.count.ts ≤ t ∨ toSize ki.count.value = 0

/-- The key info is about the time up to the current period. -/
structure InfoCurrent (ka : KeyAggregator W) : Prop where
  last_update : ka.keyInfo.lastUpdate = W.currentTime ka.aggregator
  count_until : CountUntil ka.keyInfo.toStoredValues (W.currentTime ka.aggregator)

lemma CountUntil.foldl {ds : List AggregatedInfo} {ki : StoredKey} {t : ℤ}
    (h : CountUntil ki.toStoredValues t) (hds : ∀ d ∈ ds, d.ts ≤ t) :
    CountUntil (ds.foldl updateInfo ki).toStoredValues t := by
  induction ds generalizing ki with
  | nil => exact h
  | cons d rest ih =>
    have hd : d.ts ≤ t := hds d List.mem_cons_self
    have hstep : CountUntil (updateInfo ki d).toStoredValues t := by
      unfold CountUntil updateInfo updateField
      dsimp only
      split_ifs
      · exact .inl hd
      · exact h
    exact ih hstep fun d' hd' => hds d' (List.mem_cons_of_mem _ hd')

lemma foldl_updateInfo_lastUpdate (ds : List AggregatedInfo) (d : AggregatedInfo) (ki : StoredKey) :
    ((ds ++ [d]).foldl updateInfo ki).lastUpdate = d.ts := by
  rw [List.foldl_append]
  rfl

/-- The points of an on-time add end with the open period, and none is later. -/
lemma currentPoints_last (hA : W.AlignsTime) (hS : W.SumsCounts opened) {ka : KeyAggregator W}
    {counts : ℤ → Option ℕ} {l : List AggregatedData} (h : Ledger opened ka counts l) (hlast : ka.aggregateLastPoint = true)
    {d : AggregatedData} (hts : d.ts ≠ 0) (hon : ¬ka.isLate d.ts) :
    ∃ ds p, ka.currentPoints d = ds ++ [p] ∧ p.ts = W.getTs d.ts ∧ ∀ q ∈ ds, q.ts ≤ W.getTs d.ts := by
  obtain ⟨htime, hopen, -, -, -⟩ := h.push hA hS hts hon
  have hfts : (fillData d).ts = d.ts := congrArg ReducedInfo.ts (fillData_toReducedInfo d)
  have hemitted : ∀ ag ∈ (W.push ka.aggregator (fillData d)).1, ag.ts ≤ W.getTs d.ts := by
    have hle : W.currentTime ka.aggregator ≤ W.getTs d.ts := h.current_le hA hts hon
    intro ag hag
    rcases hle.eq_or_lt with heq | hlt
    · rw [(hS.push_current ka.aggregator (fillData d) (by rw [hfts, heq])).1] at hag
      exact absurd hag List.not_mem_nil
    · obtain ⟨⟨r, hr, hlist⟩, -⟩ := hS.push_later ka.aggregator (fillData d) (by rwa [hfts])
      rw [hlist, Option.mem_toList] at hag
      rw [hag] at hr
      rw [hr.2]
      exact hle
  obtain ⟨hrep, -, -⟩ := hS.aggregateCurrent (W.push ka.aggregator (fillData d)).2
  rw [htime, hopen, recorded_snoc, if_pos rfl] at hrep
  cases hr : (W.aggregateCurrent (W.push ka.aggregator (fillData d)).2).1 with
  | none =>
    rw [hr] at hrep
    exact absurd hrep (by simp [Wrtstat.Reports])
  | some ag =>
    rw [hr] at hrep
    refine ⟨(W.push ka.aggregator (fillData d)).1.map AggregatedData.toPoint, ag.toPoint, ?_, hrep.2, ?_⟩
    · simp [currentPoints, hlast, hr]
    · intro q hq
      obtain ⟨ag', hag', rfl⟩ := List.mem_map.mp hq
      exact hemitted ag' hag'

lemma infoCurrent_add (hA : W.AlignsTime) (hS : W.SumsCounts opened) {ka : KeyAggregator W}
    {counts : ℤ → Option ℕ} {l : List AggregatedData} (h : Ledger opened ka counts l) (hlast : ka.aggregateLastPoint = true)
    (hcount : CountUntil ka.keyInfo.toStoredValues (W.currentTime ka.aggregator)) {d : AggregatedData}
    (hts : d.ts ≠ 0) (hon : ¬ka.isLate d.ts) : InfoCurrent (ka.add d []).1 := by
  obtain ⟨ds, p, hpoints, hp, hds⟩ := currentPoints_last hA hS h hlast hts hon
  have hle : W.currentTime ka.aggregator ≤ W.getTs d.ts := h.current_le hA hts hon
  have hcur := h.currentTime_add hA hS hts hon
  rw [add_of_not_late hon] at hcur ⊢
  constructor
  · dsimp only
    rw [hcur, hpoints, foldl_updateInfo_lastUpdate, hp]
  · dsimp only
    rw [hcur]
    apply CountUntil.foldl
    · exact hcount.imp (fun hc => hc.trans hle) id
    · intro q hq
      rw [hpoints, List.mem_append, List.mem_singleton] at hq
      rcases hq with hq | rfl
      · exact hds q hq
      · exact hp.le

end KeyAggregator

/-- The add comes to its end, and returns true. -/
def Storage.Takes (s : Storage W) (c : AddCall) : Prop :=
  (s.add? c.clock allOk c.name c.data).map Prod.fst = some (.ok ())

lemma Storage.takes_iff {s : Storage W} {c : AddCall} :
    s.Takes c ↔ s.keyCache.HasMutexFor c.name ∧ (s.add c.clock allOk c.name c.data).1 = .ok () := by
  have hadd := s.add?_guarded c.clock allOk c.name c.data
  constructor
  · intro h
    obtain ⟨r, hr, hok⟩ := Option.map_eq_some_iff.mp h
    rw [← hadd.eq_of_eq_some hr]
    exact ⟨hadd.isSome_iff.mp (Option.isSome_of_eq_some hr), hok⟩
  · rintro ⟨hmutex, hok⟩
    rw [Takes, hadd.eq_some hmutex, Option.map_some, hok]

instance (s : Storage W) (c : AddCall) : Decidable (s.Takes c) := decidable_of_iff _ Storage.takes_iff.symm

/-- What a run of adds leaves for the next lifetime. -/
structure Reopenable (opened : W.Aggregator → Option ℕ) (adds : List AddCall) (s : Storage W) : Prop where
  accounted : AddsAccounted opened adds s
  persisted : KeysPersisted s
  current : ∀ name ka, s.keyCache.keyMap.find? name = some ka → ka.InfoCurrent

namespace Reopenable

lemma add (hA : W.AlignsTime) (hS : W.SumsCounts opened) (hC : W.CombinesCounts) {adds : List AddCall}
    {s : Storage W} (h : Reopenable opened adds s) {c : AddCall} (hts : c.data.ts ≠ 0)
    (hok : (s.add c.clock allOk c.name c.data).1 = .ok ()) :
    Reopenable opened (adds ++ [c]) (s.addStep c) := by
  have hstart : W.StartsInTime := by
    intro t
    rw [hS.currentTime_create]
    exact hA.getTs_le t
  refine ⟨h.accounted.add hA hS hC hts hok, h.persisted.add hstart hok, fun name ka hk => ?_⟩
  rw [Storage.addStep, Storage.add_find?] at hk
  split_ifs at hk with hn
  · subst hn
    rw [← Option.some.inj hk, Storage.addKey]
    by_cases hl : (s.keyCache.keyOrNew c.name c.data.ts).isLate c.data.ts
    · rw [KeyAggregator.add_of_late hl]
      exact h.current c.name _ (KeysPersisted.cached_of_late hstart hl)
    · obtain ⟨added, hacc, -⟩ := h.accounted.accounted
      obtain ⟨hledger, -⟩ := hacc.ledger_keyOrNew hA hS c.name c.data.ts
      have hlast : (s.keyCache.keyOrNew c.name c.data.ts).aggregateLastPoint = true :=
        (hacc.keyOrNew_aggregateLastPoint c.name c.data.ts).trans h.accounted.aggregates
      apply KeyAggregator.infoCurrent_add hA hS hledger hlast _ hts hl
      cases hk : s.keyCache.keyMap.find? c.name with
      | some kb =>
        rw [KeyCache.keyOrNew_of_some _ hk]
        exact (h.current c.name kb hk).count_until
      | none =>
        rw [KeyCache.keyOrNew_of_none _ hk]
        exact .inr rfl
  · exact h.current name ka hk

lemma of_run (hA : W.AlignsTime) (hS : W.SumsCounts opened) (hC : W.CombinesCounts) {opt : StorageOptions}
    (hlast : opt.keyCache.aggregateLastPoint = true) (hmerge : opt.disableMerge = false) (clock : ℤ)
    (hashSize resultLimit : ℕ) {adds : List AddCall}
    (hadds : RunMeets Storage.addStep (fun s c => c.data.ts ≠ 0 ∧ s.Takes c)
      (Storage.fresh W opt clock hashSize resultLimit) adds) :
    Reopenable opened adds (adds.foldl Storage.addStep (Storage.fresh W opt clock hashSize resultLimit)) := by
  refine RunMeets.invariant (Reopenable opened) ?_ ?_ hadds
  · refine ⟨?_, KeysPersisted.of_fresh opt clock hashSize resultLimit, fun name ka hk => absurd hk (by simp)⟩
    exact addsAccounted_of_run hA hS hC hlast hmerge clock hashSize resultLimit
      (show RunMeets _ _ _ [] from trivial)
  · intro hist s c h hc
    exact h.add hA hS hC hc.1 (Storage.takes_iff.mp hc.2).2

variable {adds : List AddCall} {s : Storage W}

/-- The key that opening the databases again makes of a cached one. -/
lemma reopened (h : Reopenable opened adds s) {name : Name} {ka : KeyAggregator W}
    (hk : s.keyCache.keyMap.find? name = some ka) (closed : Bool) :
    (s.stop closed).keyStorage.key? name = some ka.keyInfo := by
  have hstored : s.keyStorage.key? name = some ka.keyInfo := by rw [h.persisted.stored, hk]; rfl
  cases closed with
  | false => exact hstored
  | true =>
    change (s.close allOk).2.keyStorage.key? name = _
    rw [h.persisted.close_key?, hstored]

lemma stop_key? (h : Reopenable opened adds s) (closed : Bool) (name : Name) :
    (s.stop closed).keyStorage.key? name = s.keyStorage.key? name := by
  cases closed with
  | false => rfl
  | true => exact h.persisted.close_key? name

/-- The last period of a name's data is the period of its key, which is cached. -/
lemma last_period (h : Reopenable opened adds s) {name : Name} {t : ℤ}
    (hrec : recorded W (callsOf name adds) t ≠ none)
    (hlast : ∀ u, t < u → recorded W (callsOf name adds) u = none) :
    ∃ ka, s.keyCache.keyMap.find? name = some ka ∧ W.currentTime ka.aggregator = t ∧ W.getTs t = t ∧
      ka.aggregateLastPoint = true ∧
      countAt? (s.dataStorage.point? ka.getId) t = recorded W (callsOf name adds) t := by
  obtain ⟨added, hacc, hcalls⟩ := h.accounted.accounted
  have hne : callsOf name adds ≠ [] := by
    intro hnil
    rw [hnil] at hrec
    exact hrec rfl
  cases hk : s.keyCache.keyMap.find? name with
  | none =>
    have hgetId : s.keyCache.getId name = badKey := by simp [KeyCache.getId, hk]
    have hbad : added badKey = [] := (hacc.unused _ hacc.counter_lt).2
    rw [← hcalls, hgetId, hbad] at hne
    exact absurd rfl hne
  | some ka =>
    obtain ⟨kb, hopt, hledger, hbegun, huniq⟩ := hacc.ledger ka.getId
    obtain rfl := huniq name ka hk rfl
    have hadded : added ka.getId = callsOf name adds := by rw [← hcalls, KeyCache.getId_of_some hk]
    change Ledger opened ka (countAt? (s.dataStorage.point? ka.getId)) (added ka.getId) at hledger
    change Begun ka (added ka.getId) at hbegun
    rw [hadded] at hledger hbegun
    have hon : ka.aggregateLastPoint = true := hopt.trans h.accounted.aggregates
    have hcur : W.currentTime ka.aggregator = t := by
      apply le_antisymm
      · exact not_lt.mp fun hlt => hbegun hne (hlast _ hlt)
      · exact not_lt.mp fun hlt => hrec (hledger.later t hlt)
    subst hcur
    refine ⟨ka, rfl, rfl, hledger.aligned, hon, ?_⟩
    rw [hledger.stored_open, hon, if_pos rfl]

end Reopenable

end WfcBtp
