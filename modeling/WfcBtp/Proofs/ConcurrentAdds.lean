import WfcBtp.Library.Interleaving
import WfcBtp.Library.Runs
import WfcBtp.Model.Concurrency
import WfcBtp.Model.WrtstatReference
import WfcBtp.Proofs.Ledger
import WfcBtp.Proofs.Reopening

/-!
# Concurrent adds of one name

The aggregator of a key sees the adds one after another, and what they still have to write
makes the stored counts agree with it. They come to that as long as no write overtakes an
older one of the same slot.
-/

namespace WfcBtp
open Library

variable {W : Wrtstat} {opened : W.Aggregator → Option ℕ}

namespace CountWrite

/-- Two writes that leave the same count in either order: of different points, two
increments, two equal values, or a value and an increment by nothing. -/
def Independent (w w' : CountWrite) : Prop :=
  w.ts = w'.ts →
    match w.replaces, w'.replaces with
    | false, false => True
    | true, true => w.count = w'.count
    | true, false => w'.count = 0
    | false, true => w.count = 0

instance (w w' : CountWrite) : Decidable (w.Independent w') := by
  unfold Independent
  split <;> infer_instance

lemma independent_iff (w w' : CountWrite) : w.Independent w' ↔ Commutes applyCount w w' := by
  obtain ⟨r, t, n⟩ := w
  obtain ⟨r', t', n'⟩ := w'
  constructor
  · intro h f
    funext u
    by_cases ht : t = t'
    · have hind := h ht
      subst ht
      by_cases hu : u = t
      · cases r <;> cases r' <;> simp_all [applyCount, Nat.add_right_comm]
      · simp [applyCount, hu]
    · by_cases hu : u = t
      · simp [applyCount, hu, ht]
      · simp [applyCount, hu]
  · intro h ht
    have hat := congrFun (h fun _ => none) t
    change t = t' at ht
    subst ht
    cases r <;> cases r' <;> simp_all [applyCount]

end CountWrite

namespace AddPhase

lemma returned_iff {call : AddPhase} : call.returned = true ↔ ∃ isLast id, call = .storing isLast id [] := by
  rcases call with _ | _ | ⟨isLast, id, _ | ⟨ud, rest⟩⟩
  all_goals simp [returned]

def id : AddPhase → KeyId
  | .aggregated id _ => id
  | .informed _ _ id _ => id
  | .storing _ id _ => id

/-- What the add still has to write, as far as counts go. -/
def countWrites : AddPhase → List CountWrite
  | .aggregated _ upData => upData.map (toWrite true)
  | .informed _ _ _ upData => upData.map (toWrite true)
  | .storing isLast _ upData => upData.map (toWrite isLast)

/-- The key info the add has taken and not yet written, with its stamp. -/
def upKey? : AddPhase → Option (ℕ × StoredKey)
  | .informed stamp upKey _ _ => some (stamp, upKey)
  | _ => none

def BeforeInfo : AddPhase → Prop
  | .aggregated _ _ => True
  | _ => False

/-- What an add still has to do once the aggregator has taken its data. -/
def afterAggregate (ka : KeyAggregator W) (data : AggregatedData) : AddPhase :=
  if (ka.add data []).2.2 then .aggregated ka.getId (ka.add data []).2.1
  else .storing false ka.getId (ka.add data []).2.1

lemma afterAggregate_countWrites (ka : KeyAggregator W) (data : AggregatedData) :
    (afterAggregate ka data).countWrites = (ka.add data []).2.1.map (toWrite ((ka.add data []).2.2 || false)) := by
  unfold afterAggregate
  cases (ka.add data []).2.2 <;> simp [countWrites]

lemma afterAggregate_id (ka : KeyAggregator W) (data : AggregatedData) :
    (afterAggregate ka data).id = ka.getId := by
  unfold afterAggregate
  split_ifs <;> rfl

lemma afterAggregate_upKey? (ka : KeyAggregator W) (data : AggregatedData) :
    (afterAggregate ka data).upKey? = none := by
  unfold afterAggregate
  split_ifs <;> rfl

/-- An add that changes the key info has yet to take it. -/
lemma isLate_of_afterAggregate {ka : KeyAggregator W} {data : AggregatedData}
    (h : ¬(afterAggregate ka data).BeforeInfo) : ka.isLate data.ts := by
  by_contra hon
  apply h
  rw [afterAggregate, KeyAggregator.add_of_not_late hon]
  trivial

end AddPhase

namespace ConcurrentAdds

/-- The key infos still to be written. -/
def upKeys (calls : List AddPhase) : List (ℕ × StoredKey) := calls.filterMap AddPhase.upKey?

/-- The times are not zero, and no write overtakes one that an older snapshot is still to
make of the same slot, unless it makes no difference. -/
def InOrder (c : ConcurrentAdds W) : Step → Prop
  | .getOrCreate _ data => data.ts ≠ 0
  | .aggregate _ => True
  | .getKeyInfo _ => True
  | .setKey i =>
    match c.calls[i]? with
    | some (.informed stamp upKey _ _) => ∀ p ∈ upKeys c.calls, p.1 < stamp → p.2 = upKey
    | _ => True
  | .writeData i =>
    match c.calls[i]? with
    | some (.storing isLast _ (ud :: _)) =>
      ∀ call ∈ c.calls.take i, ∀ w ∈ call.countWrites, (toWrite isLast ud).Independent w
    | _ => True

instance (c : ConcurrentAdds W) (a : Step) : Decidable (c.InOrder a) := by
  unfold InOrder
  cases a
  all_goals first | infer_instance | (dsimp only; split <;> infer_instance)

/-- The counts under an id once everything pending is written. -/
def counts (ds : DataStorage) (calls : List AddPhase) (id : KeyId) : ℤ → Option ℕ :=
  flush applyCount (countAt? (ds.point? id)) (calls.map AddPhase.countWrites)

/-- No add has got its key yet. -/
structure Unknown (name : Name) (c : ConcurrentAdds W) : Prop where
  uncached : c.storage.keyCache.keyMap.find? name = none
  entered : c.entered = []
  calls : c.calls = []
  unstored : c.storage.keyStorage.key? name = none
  id_ne : c.storage.keyId name ≠ badKey
  no_points : ∀ id t, c.storage.dataStorage.point? id t = none

/-- The pending writes bring the points to the ledger of the cached key, and the newest
key info that was taken is the cached one, unless an add that changed it has yet to take it. -/
structure Tracked (opened : W.Aggregator → Option ℕ) (name : Name) (added : List AggregatedData)
    (c : ConcurrentAdds W) (ka : KeyAggregator W) : Prop where
  cached : c.storage.keyCache.keyMap.find? name = some ka
  aggregates : ka.aggregateLastPoint = true
  id_ne : ka.getId ≠ badKey
  ids : ∀ call ∈ c.calls, call.id = ka.getId
  ledger : Ledger opened ka (counts c.storage.dataStorage c.calls ka.getId) added
  ts_ne : ∀ d ∈ c.entered, d.ts ≠ 0
  stamps : ∀ p ∈ upKeys c.calls, p.1 < c.informs
  newest : (∀ call ∈ c.calls, ¬call.BeforeInfo) → ∀ p ∈ upKeys c.calls, (∀ q ∈ upKeys c.calls, q.1 ≤ p.1) →
    p.2 = ka.keyInfo
  stored : (∀ call ∈ c.calls, ¬call.BeforeInfo) → upKeys c.calls = [] →
    c.storage.keyStorage.key? name = some ka.keyInfo ∨ ∃ d ∈ c.entered, ¬ka.isLate d.ts

/-! ### One step -/

lemma countAt?_dataWrite (hC : W.CombinesCounts) {s : Storage W} (hm : s.disableMerge = false) (name : Name)
    (isLast : Bool) (id : KeyId) (ud : AggregatedInfo) :
    countAt? ((s.perform name (s.dataWrite isLast id ud)).dataStorage.point? id) =
      applyCount (countAt? (s.dataStorage.point? id)) (toWrite isLast ud) := by
  unfold Storage.dataWrite
  rw [hm, Bool.or_false]
  cases isLast with
  | true =>
    have hpoints := DataStorage.point?_set_points s.dataStorage id ud id
    rw [if_pos rfl] at hpoints
    rw [if_pos rfl, ← countAt?_setPoint, ← hpoints]
    rfl
  | false =>
    have hpoints := DataStorage.point?_inc_points (W := W) s.dataStorage id ud id
    rw [if_pos rfl] at hpoints
    rw [if_neg Bool.false_ne_true, ← countAt?_incPoint hC, ← hpoints]
    rfl

/-- The first add creates the key in the period of its own data. -/
lemma Unknown.getOrCreate (hA : W.AlignsTime) (hS : W.SumsCounts opened) {name : Name}
    {c : ConcurrentAdds W} (h : c.Unknown name) (hopt : c.storage.keyCache.options.aggregateLastPoint = true)
    (clock : ℤ) {data : AggregatedData} (hts : data.ts ≠ 0) :
    Tracked opened name [] (c.step name (.getOrCreate clock data)) (c.storage.keyCache.keyOrNew name data.ts) := by
  have hid := Storage.keyOrNew_getId c.storage name data.ts
  have hnew := KeyCache.keyOrNew_of_none data.ts h.uncached
  have hentered : (c.step name (.getOrCreate clock data)).entered = [data] := by
    simp [step, h.entered]
  have hcalls : (c.step name (.getOrCreate clock data)).calls = [] := h.calls
  have hkeys : upKeys (c.step name (.getOrCreate clock data)).calls = [] := by rw [hcalls]; rfl
  constructor
  · exact (KeyCache.getOrCreate_find? _ _ _ _ _).trans (if_pos rfl)
  · rw [hnew]
    exact hopt
  · rw [hid]
    exact h.id_ne
  · simp [hcalls]
  · rw [hnew]
    apply Ledger.of_create hA hS
    intro t
    rw [counts, hcalls, ← hnew, hid]
    change countAt? (c.storage.dataStorage.point? (c.storage.keyId name)) t = none
    rw [countAt?, h.no_points]
    rfl
  · simp [hentered, hts]
  · simp [hkeys]
  · simp [hkeys]
  · intro _ _
    refine .inr ⟨data, by simp [hentered], ?_⟩
    rw [hnew]
    rintro ⟨-, hlt⟩
    change data.ts < W.currentTime (W.create data.ts) at hlt
    rw [hS.currentTime_create] at hlt
    exact absurd hlt (hA.getTs_le _).not_gt

namespace Tracked

variable {name : Name} {added : List AggregatedData} {c : ConcurrentAdds W} {ka : KeyAggregator W}

/-- A further add finds the key. -/
lemma getOrCreate (h : Tracked opened name added c ka) (clock : ℤ) {data : AggregatedData}
    (hts : data.ts ≠ 0) : Tracked opened name added (c.step name (.getOrCreate clock data)) ka := by
  have hentered : ∀ {d}, d ∈ (c.step name (.getOrCreate clock data)).entered ↔ d ∈ c.entered ∨ d = data := by
    intro d
    simp [step]
  constructor
  · refine (KeyCache.getOrCreate_find? _ _ _ _ _).trans ?_
    rw [if_pos rfl, KeyCache.keyOrNew_of_some _ h.cached]
  · exact h.aggregates
  · exact h.id_ne
  · exact h.ids
  · exact h.ledger
  · intro d hd
    rcases hentered.mp hd with hd | rfl
    · exact h.ts_ne d hd
    · exact hts
  · exact h.stamps
  · exact h.newest
  · intro hnone hkeys
    refine (h.stored hnone hkeys).imp_right ?_
    rintro ⟨d, hd, hon⟩
    exact ⟨d, hentered.mpr (.inl hd), hon⟩

lemma counts_snoc (ds : DataStorage) (calls : List AddPhase) (call : AddPhase) (id : KeyId) :
    counts ds (calls ++ [call]) id = call.countWrites.foldl applyCount (counts ds calls id) := by
  rw [counts, List.map_append, List.map_singleton, flush_snoc, counts]

lemma mem_eraseIdx_of_ne {α : Type} {l : List α} {i : ℕ} {a b : α} (hi : l[i]? = some b) (ha : a ∈ l)
    (hne : a ≠ b) : a ∈ l.eraseIdx i := by
  obtain ⟨j, hj⟩ := List.getElem?_of_mem ha
  rw [List.mem_eraseIdx_iff_getElem?]
  refine ⟨j, ?_, hj⟩
  rintro rfl
  rw [hi] at hj
  exact hne (Option.some.inj hj).symm

/-- The aggregator takes the data of an add, late or not. -/
lemma aggregate (hA : W.AlignsTime) (hS : W.SumsCounts opened) (hC : W.CombinesCounts)
    (h : Tracked opened name added c ka) {i : ℕ} {data : AggregatedData} (hi : c.entered[i]? = some data) :
    Tracked opened name (added ++ [data]) (c.step name (.aggregate i)) (ka.add data []).1 := by
  have hts : data.ts ≠ 0 := h.ts_ne data (List.mem_of_getElem? hi)
  have hid : (ka.add data []).1.getId = ka.getId := KeyAggregator.add_getId _ _ _
  have hstep : c.step name (.aggregate i) =
      { c with
        storage := { c.storage with keyCache := c.storage.keyCache.putKey name (ka.add data []).1 }
        entered := c.entered.eraseIdx i
        calls := c.calls ++ [.afterAggregate ka data] } := by
    simp only [step, hi, h.cached, hid, h.id_ne, if_false, AddPhase.afterAggregate]
  rw [hstep]
  have hcached : (c.storage.keyCache.putKey name (ka.add data []).1).keyMap.find? name =
      some (ka.add data []).1 := by rw [KeyCache.putKey_find?, if_pos rfl]
  have hkeys : upKeys (c.calls ++ [.afterAggregate ka data]) = upKeys c.calls := by
    simp [upKeys, AddPhase.afterAggregate_upKey?]
  have hbefore : (∀ call ∈ c.calls ++ [.afterAggregate ka data], ¬call.BeforeInfo) → ka.isLate data.ts ∧
      ∀ call ∈ c.calls, ¬call.BeforeInfo := by
    intro hnone
    rw [List.forall_mem_append, List.forall_mem_singleton] at hnone
    exact ⟨AddPhase.isLate_of_afterAggregate hnone.2, hnone.1⟩
  constructor
  · exact hcached
  · rw [KeyAggregator.add_aggregateLastPoint, h.aggregates]
  · rw [hid]
    exact h.id_ne
  · intro call hcall
    rw [hid]
    rcases List.mem_append.mp hcall with hcall | hcall
    · exact h.ids call hcall
    · rw [List.mem_singleton.mp hcall, AddPhase.afterAggregate_id]
  · rw [hid, counts_snoc, AddPhase.afterAggregate_countWrites]
    exact h.ledger.add hA hS hC hts fun _ => rfl
  · intro d hd
    exact h.ts_ne d (List.mem_of_mem_eraseIdx hd)
  · exact hkeys ▸ h.stamps
  · intro hnone p hp hmax
    obtain ⟨hlate, hnone⟩ := hbefore hnone
    rw [KeyAggregator.add_of_late hlate]
    exact h.newest hnone p (hkeys ▸ hp) (hkeys ▸ hmax)
  · intro hnone hempty
    obtain ⟨hlate, hnone⟩ := hbefore hnone
    rw [KeyAggregator.add_of_late hlate]
    refine (h.stored hnone (hkeys ▸ hempty)).imp_right ?_
    rintro ⟨d, hd, hon⟩
    refine ⟨d, mem_eraseIdx_of_ne hi hd ?_, hon⟩
    rintro rfl
    exact hon hlate

/-- Taking the key info makes it the newest one taken. -/
lemma getKeyInfo (h : Tracked opened name added c ka) {i : ℕ} {id : KeyId} {upData : List AggregatedInfo}
    (hi : c.calls[i]? = some (.aggregated id upData)) :
    Tracked opened name added (c.step name (.getKeyInfo i)) ka := by
  let call : AddPhase := .informed c.informs ka.keyInfo id upData
  have hstep : c.step name (.getKeyInfo i) =
      { c with calls := c.calls.set i call, informs := c.informs + 1 } := by
    simp only [step, hi, h.cached]
    rfl
  rw [hstep]
  have hold : ∀ p ∈ upKeys (c.calls.set i call), p = (c.informs, ka.keyInfo) ∨ p ∈ upKeys c.calls := by
    intro p hp
    obtain ⟨call', hcall', hp⟩ := List.mem_filterMap.mp hp
    rcases List.mem_or_eq_of_mem_set hcall' with hcall' | rfl
    · exact .inr (List.mem_filterMap.mpr ⟨call', hcall', hp⟩)
    · exact .inl (Option.some.inj hp).symm
  have hnew : (c.informs, ka.keyInfo) ∈ upKeys (c.calls.set i call) := by
    obtain ⟨hlt, -⟩ := List.getElem?_eq_some_iff.mp hi
    exact List.mem_filterMap.mpr ⟨call, List.mem_set hlt call, rfl⟩
  constructor
  · exact h.cached
  · exact h.aggregates
  · exact h.id_ne
  · exact forall_mem_set (h.ids (.aggregated id upData) (List.mem_of_getElem? hi)) h.ids
  · change Ledger opened ka (counts c.storage.dataStorage (c.calls.set i call) ka.getId) added
    rw [counts, map_set_of_eq hi (b := call) (f := AddPhase.countWrites) rfl]
    exact h.ledger
  · exact h.ts_ne
  · intro p hp
    rcases hold p hp with rfl | hp
    · exact Nat.lt_succ_self _
    · exact Nat.lt_succ_of_lt (h.stamps p hp)
  · intro _ p hp hmax
    rcases hold p hp with rfl | hp
    · rfl
    · exact absurd (hmax _ hnew) (h.stamps p hp).not_ge
  · intro _ hempty
    rw [hempty] at hnew
    exact absurd hnew List.not_mem_nil

/-- Writing the oldest key info taken leaves the newest to be written, or was the newest. -/
lemma setKey (h : Tracked opened name added c ka) {i stamp : ℕ} {upKey : StoredKey} {id : KeyId}
    {upData : List AggregatedInfo} (hi : c.calls[i]? = some (.informed stamp upKey id upData))
    (horder : ∀ p ∈ upKeys c.calls, p.1 < stamp → p.2 = upKey) :
    Tracked opened name added (c.step name (.setKey i)) ka := by
  let call : AddPhase := .storing true id upData
  have hid : id ≠ badKey := by
    have hid := h.ids _ (List.mem_of_getElem? hi)
    exact fun hbad => h.id_ne (hid.symm.trans hbad)
  have hstep : c.step name (.setKey i) =
      { c with storage := c.storage.perform name (.setKey upKey), calls := c.calls.set i call } := by
    simp only [step, hi, hid, if_false]
    rfl
  rw [hstep]
  have hmem : (stamp, upKey) ∈ upKeys c.calls :=
    List.mem_filterMap.mpr ⟨_, List.mem_of_getElem? hi, rfl⟩
  have hsplit : ∀ p, p ∈ upKeys c.calls ↔ p ∈ upKeys (c.calls.set i call) ∨ p = (stamp, upKey) := by
    intro p
    refine (mem_filterMap_set hi (b := call) rfl p).trans (or_congr_right ?_)
    rw [AddPhase.upKey?, Option.some.injEq, eq_comm]
  have hbefore : (∀ call' ∈ c.calls.set i call, ¬call'.BeforeInfo) → ∀ call' ∈ c.calls, ¬call'.BeforeInfo :=
    forall_mem_of_set hi fun h => h
  -- with every other stamp older, this is the newest key info
  have hnewest : (∀ call' ∈ c.calls, ¬call'.BeforeInfo) →
      (∀ q ∈ upKeys (c.calls.set i call), q.1 ≤ stamp) → upKey = ka.keyInfo := by
    intro hnone hle
    apply h.newest hnone _ hmem
    intro q hq
    rcases (hsplit q).mp hq with hq | rfl
    · exact hle q hq
    · exact le_rfl
  constructor
  · exact h.cached
  · exact h.aggregates
  · exact h.id_ne
  · exact forall_mem_set (h.ids (.informed stamp upKey id upData) (List.mem_of_getElem? hi)) h.ids
  · change Ledger opened ka (counts c.storage.dataStorage (c.calls.set i call) ka.getId) added
    rw [counts, map_set_of_eq hi (b := call) (f := AddPhase.countWrites) rfl]
    exact h.ledger
  · exact h.ts_ne
  · intro p hp
    exact h.stamps p ((hsplit p).mpr (.inl hp))
  · intro hnone p hp hmax
    have hnone := hbefore hnone
    rcases le_or_gt stamp p.1 with hle | hlt
    · apply h.newest hnone p ((hsplit p).mpr (.inl hp))
      intro q hq
      rcases (hsplit q).mp hq with hq | rfl
      · exact hmax q hq
      · exact hle
    · rw [horder p ((hsplit p).mpr (.inl hp)) hlt]
      exact hnewest hnone fun q hq => (hmax q hq).trans hlt.le
  · intro hnone hempty
    refine .inl ?_
    change (c.storage.keyStorage.set true name upKey).2.key? name = _
    rw [KeyStorage.key?_set, if_pos rfl, hnewest (hbefore hnone)]
    intro q hq
    rw [hempty] at hq
    exact absurd hq List.not_mem_nil

/-- Writing a point that no older snapshot is still to write does not change the counts in
the end. -/
lemma writeData (hC : W.CombinesCounts) (h : Tracked opened name added c ka)
    (hmerge : c.storage.disableMerge = false) {i : ℕ} {isLast : Bool} {id : KeyId} {ud : AggregatedInfo}
    {rest : List AggregatedInfo} (hi : c.calls[i]? = some (.storing isLast id (ud :: rest)))
    (horder : ∀ call ∈ c.calls.take i, ∀ w ∈ call.countWrites, (toWrite isLast ud).Independent w) :
    Tracked opened name added (c.step name (.writeData i)) ka := by
  let call : AddPhase := .storing isLast id rest
  have hid : id = ka.getId := h.ids _ (List.mem_of_getElem? hi)
  have hstep : c.step name (.writeData i) =
      { c with storage := c.storage.perform name (c.storage.dataWrite isLast id ud)
               calls := c.calls.set i call } := by
    simp only [step, hi]
    rfl
  rw [hstep]
  have hkeys : upKeys (c.calls.set i call) = upKeys c.calls := filterMap_set_of_eq hi rfl
  have hbefore : (∀ call' ∈ c.calls.set i call, ¬call'.BeforeInfo) → ∀ call' ∈ c.calls, ¬call'.BeforeInfo :=
    forall_mem_of_set hi fun h => h
  have hkey : (c.storage.perform name (c.storage.dataWrite isLast id ud)).keyStorage = c.storage.keyStorage := by
    unfold Storage.dataWrite
    split_ifs <;> rfl
  constructor
  · change (c.storage.perform name _).keyCache.keyMap.find? name = some ka
    rw [Storage.perform_keyCache]
    exact h.cached
  · exact h.aggregates
  · exact h.id_ne
  · exact forall_mem_set (h.ids (.storing isLast id (ud :: rest)) (List.mem_of_getElem? hi)) h.ids
  · change Ledger opened ka (counts (c.storage.perform name (c.storage.dataWrite isLast id ud)).dataStorage
      (c.calls.set i call) ka.getId) added
    have hqueue : (c.calls.map AddPhase.countWrites)[i]? =
        some (toWrite isLast ud :: call.countWrites) := by
      rw [List.getElem?_map, hi]
      rfl
    have hcommutes : ∀ q ∈ (c.calls.map AddPhase.countWrites).take i, ∀ w ∈ q,
        Commutes applyCount (toWrite isLast ud) w := by
      intro q hq w hw
      rw [← List.map_take] at hq
      obtain ⟨call', hcall', rfl⟩ := List.mem_map.mp hq
      exact (CountWrite.independent_iff _ _).mp (horder call' hcall' w hw)
    rw [counts, ← hid, countAt?_dataWrite hC hmerge, List.map_set, flush_write hqueue hcommutes, hid]
    exact h.ledger
  · exact h.ts_ne
  · exact hkeys ▸ h.stamps
  · intro hnone p hp hmax
    exact h.newest (hbefore hnone) p (hkeys ▸ hp) (hkeys ▸ hmax)
  · intro hnone hempty
    dsimp only
    rw [hkey]
    exact h.stored (hbefore hnone) (hkeys ▸ hempty)

end Tracked

/-! ### Runs -/

/-- The data the adds of a run were called with. -/
def dataOf (steps : List Step) : List AggregatedData :=
  steps.filterMap fun
    | .getOrCreate _ data => some data
    | _ => none

/-- What holds in a run of adds: before the first of them the name is unknown, and then its
key is tracked with the data that went through the aggregator. -/
structure Served (opened : W.Aggregator → Option ℕ) (name : Name) (steps : List Step) (c : ConcurrentAdds W) :
    Prop where
  merges : c.storage.disableMerge = false
  aggregates : c.storage.keyCache.options.aggregateLastPoint = true
  served : c.Unknown name ∧ dataOf steps = [] ∨
    ∃ ka added, Tracked opened name added c ka ∧ (added ++ c.entered).Perm (dataOf steps)

/-- A step changes nothing unless a call is there to take it. -/
lemma step_eq_or (name : Name) (c : ConcurrentAdds W) (a : Step) :
    c.step name a = c ∧ dataOf [a] = [] ∨
      match a with
      | .getOrCreate _ _ => True
      | .aggregate i => ∃ data, c.entered[i]? = some data
      | .getKeyInfo i => ∃ id upData, c.calls[i]? = some (.aggregated id upData)
      | .setKey i => ∃ stamp upKey id upData, c.calls[i]? = some (.informed stamp upKey id upData)
      | .writeData i => ∃ isLast id ud rest, c.calls[i]? = some (.storing isLast id (ud :: rest)) := by
  cases a with
  | getOrCreate clock data => exact .inr trivial
  | aggregate i =>
    cases hi : c.entered[i]? with
    | none => exact .inl ⟨by simp [step, hi], rfl⟩
    | some data => exact .inr ⟨data, hi⟩
  | getKeyInfo i =>
    rcases hi : c.calls[i]? with _ | ⟨id, upData⟩ | _ | _
    · exact .inl ⟨by simp [step, hi], rfl⟩
    · exact .inr ⟨id, upData, hi⟩
    · exact .inl ⟨by simp [step, hi], rfl⟩
    · exact .inl ⟨by simp [step, hi], rfl⟩
  | setKey i =>
    rcases hi : c.calls[i]? with _ | _ | ⟨stamp, upKey, id, upData⟩ | _
    · exact .inl ⟨by simp [step, hi], rfl⟩
    · exact .inl ⟨by simp [step, hi], rfl⟩
    · exact .inr ⟨stamp, upKey, id, upData, hi⟩
    · exact .inl ⟨by simp [step, hi], rfl⟩
  | writeData i =>
    rcases hi : c.calls[i]? with _ | _ | _ | ⟨isLast, id, _ | ⟨ud, rest⟩⟩
    · exact .inl ⟨by simp [step, hi], rfl⟩
    · exact .inl ⟨by simp [step, hi], rfl⟩
    · exact .inl ⟨by simp [step, hi], rfl⟩
    · exact .inl ⟨by simp [step, hi], rfl⟩
    · exact .inr ⟨isLast, id, ud, rest, hi⟩

lemma step_options (name : Name) (c : ConcurrentAdds W) (a : Step) :
    (c.step name a).storage.disableMerge = c.storage.disableMerge ∧
      (c.step name a).storage.keyCache.options = c.storage.keyCache.options := by
  cases a with
  | getOrCreate clock data => exact ⟨rfl, KeyCache.getOrCreate_options _ _ _ _⟩
  | aggregate i =>
    simp only [step]
    split <;> exact ⟨rfl, rfl⟩
  | getKeyInfo i =>
    simp only [step]
    split <;> exact ⟨rfl, rfl⟩
  | setKey i =>
    simp only [step]
    split
    · split_ifs <;> exact ⟨rfl, rfl⟩
    · exact ⟨rfl, rfl⟩
  | writeData i =>
    simp only [step]
    split
    · exact ⟨Storage.perform_disableMerge _ _ _, by rw [Storage.perform_keyCache]⟩
    · exact ⟨rfl, rfl⟩

/-- Every step in order keeps the key tracked. -/
lemma Tracked.step (hA : W.AlignsTime) (hS : W.SumsCounts opened) (hC : W.CombinesCounts) {name : Name}
    {added : List AggregatedData} {c : ConcurrentAdds W} {ka : KeyAggregator W}
    (h : Tracked opened name added c ka) (hmerge : c.storage.disableMerge = false) {a : Step}
    (hc : c.InOrder a) :
    ∃ kb added', Tracked opened name added' (c.step name a) kb ∧
      (added' ++ (c.step name a).entered).Perm (added ++ c.entered ++ dataOf [a]) := by
  rcases step_eq_or name c a with ⟨hsame, hnone⟩ | henabled
  · rw [hsame, hnone, List.append_nil]
    exact ⟨ka, added, h, .rfl⟩
  cases a with
  | getOrCreate clock data =>
    refine ⟨ka, added, h.getOrCreate clock hc, ?_⟩
    simp [ConcurrentAdds.step, dataOf]
  | aggregate i =>
    obtain ⟨data, hi⟩ := henabled
    refine ⟨_, _, h.aggregate hA hS hC hi, ?_⟩
    have hentered : (c.step name (.aggregate i)).entered = c.entered.eraseIdx i := by
      simp [ConcurrentAdds.step, hi, h.cached]
    have hperm : (data :: c.entered.eraseIdx i).Perm c.entered := by
      conv_rhs => rw [(split_at hi).1]
      rw [List.eraseIdx_eq_take_drop_succ]
      exact List.perm_middle.symm
    rw [hentered, List.append_assoc, List.singleton_append]
    exact (hperm.append_left added).trans (by simp [dataOf])
  | getKeyInfo i =>
    obtain ⟨id, upData, hi⟩ := henabled
    refine ⟨ka, added, h.getKeyInfo hi, ?_⟩
    simp [ConcurrentAdds.step, hi, h.cached, dataOf]
  | setKey i =>
    obtain ⟨stamp, upKey, id, upData, hi⟩ := henabled
    simp only [InOrder, hi] at hc
    refine ⟨ka, added, h.setKey hi hc, ?_⟩
    simp only [ConcurrentAdds.step, hi]
    split_ifs <;> simp [dataOf]
  | writeData i =>
    obtain ⟨isLast, id, ud, rest, hi⟩ := henabled
    simp only [InOrder, hi] at hc
    refine ⟨ka, added, h.writeData hC hmerge hi hc, ?_⟩
    simp [ConcurrentAdds.step, hi, dataOf]

namespace Served

lemma of_fresh (opt : StorageOptions) (hlast : opt.keyCache.aggregateLastPoint = true)
    (hmerge : opt.disableMerge = false) (clock : ℤ) (hashSize resultLimit : ℕ) (name : Name) :
    Served (W := W) opened name [] { storage := Storage.fresh W opt clock hashSize resultLimit } := by
  refine ⟨hmerge, ?_, .inl ⟨⟨?_, rfl, rfl, rfl, ?_, fun _ _ => rfl⟩, rfl⟩⟩
  · rw [Storage.fresh_options]
    exact hlast
  · exact Storage.fresh_find? _ _ _ _ _
  · have hnone := Storage.fresh_find? (W := W) opt clock hashSize resultLimit name
    rw [Storage.keyId_of_none hnone, Storage.fresh_keyCounter]
    decide

lemma step (hA : W.AlignsTime) (hS : W.SumsCounts opened) (hC : W.CombinesCounts) {name : Name}
    {steps : List Step} {c : ConcurrentAdds W} (h : Served opened name steps c) {a : Step} (hc : c.InOrder a) :
    Served opened name (steps ++ [a]) (c.step name a) := by
  obtain ⟨hmerge, hopt⟩ := step_options name c a
  refine ⟨hmerge.trans h.merges, (congrArg (·.aggregateLastPoint) hopt).trans h.aggregates, ?_⟩
  have hdata : dataOf (steps ++ [a]) = dataOf steps ++ dataOf [a] := List.filterMap_append
  rw [hdata]
  rcases h.served with ⟨hunknown, hnone⟩ | ⟨ka, added, htracked, hperm⟩
  · cases a with
    | getOrCreate clock data =>
      refine .inr ⟨_, [], hunknown.getOrCreate hA hS h.aggregates clock hc, ?_⟩
      rw [hnone]
      simp [ConcurrentAdds.step, hunknown.entered, dataOf]
    | aggregate i =>
      have hsame : c.step name (.aggregate i) = c := by simp [ConcurrentAdds.step, hunknown.entered]
      rw [hsame, hnone]
      exact .inl ⟨hunknown, rfl⟩
    | getKeyInfo i =>
      have hsame : c.step name (.getKeyInfo i) = c := by simp [ConcurrentAdds.step, hunknown.calls]
      rw [hsame, hnone]
      exact .inl ⟨hunknown, rfl⟩
    | setKey i =>
      have hsame : c.step name (.setKey i) = c := by simp [ConcurrentAdds.step, hunknown.calls]
      rw [hsame, hnone]
      exact .inl ⟨hunknown, rfl⟩
    | writeData i =>
      have hsame : c.step name (.writeData i) = c := by simp [ConcurrentAdds.step, hunknown.calls]
      rw [hsame, hnone]
      exact .inl ⟨hunknown, rfl⟩
  · obtain ⟨kb, added', htracked', hperm'⟩ := htracked.step hA hS hC h.merges hc
    exact .inr ⟨kb, added', htracked', hperm'.trans (hperm.append_right _)⟩

/-- Once all adds have returned, the points and the stored key are those of the cached key. -/
lemma returned {name : Name} {steps : List Step} {c : ConcurrentAdds W} (h : Served opened name steps c)
    (hret : c.Returned) :
    (∀ t, countAt? (c.storage.dataStorage.point? (c.storage.keyCache.getId name)) t =
        recorded W (dataOf steps) t) ∧
      c.storage.keyStorage.key? name = (c.storage.keyCache.keyMap.find? name).map (·.keyInfo) := by
  rcases h.served with ⟨hunknown, hnone⟩ | ⟨ka, added, htracked, hperm⟩
  · refine ⟨fun t => ?_, ?_⟩
    · rw [hnone, countAt?, hunknown.no_points]
      rfl
    · rw [hunknown.unstored, hunknown.uncached]
      rfl
  · rw [hret.1, List.append_nil] at hperm
    have hdone : ∀ q ∈ c.calls.map AddPhase.countWrites, q = [] := by
      intro q hq
      obtain ⟨call, hcall, rfl⟩ := List.mem_map.mp hq
      obtain ⟨isLast, id, rfl⟩ := AddPhase.returned_iff.mp (hret.2 call hcall)
      rfl
    have hbefore : ∀ call ∈ c.calls, ¬call.BeforeInfo := by
      intro call hcall
      obtain ⟨isLast, id, rfl⟩ := AddPhase.returned_iff.mp (hret.2 call hcall)
      exact fun h => h
    have hkeys : upKeys c.calls = [] := by
      apply List.filterMap_eq_nil_iff.mpr
      intro call hcall
      obtain ⟨isLast, id, rfl⟩ := AddPhase.returned_iff.mp (hret.2 call hcall)
      rfl
    have hledger := htracked.ledger
    rw [counts, flush_of_empty hdone] at hledger
    refine ⟨fun t => ?_, ?_⟩
    · rw [KeyCache.getId_of_some htracked.cached, ← recorded_perm hperm]
      by_cases ht : t = W.currentTime ka.aggregator
      · rw [ht, hledger.stored_open, htracked.aggregates, if_pos rfl]
      · exact hledger.stored t ht
    · rw [htracked.cached]
      rcases htracked.stored hbefore hkeys with hstored | ⟨d, hd, -⟩
      · exact hstored
      · rw [hret.1] at hd
        exact absurd hd List.not_mem_nil

end Served

/-- However the steps of any number of adds of one name are interleaved, if every slot is
written in the order in which the values were taken, then once all have returned the
count stored at a time is the sum of their counts, and the stored key is the cached one. -/
theorem concurrent_adds_conserved (hA : W.AlignsTime) (hS : W.SumsCounts opened) (hC : W.CombinesCounts)
    (opt : StorageOptions) (hlast : opt.keyCache.aggregateLastPoint = true)
    (hmerge : opt.disableMerge = false) (clock : ℤ) (hashSize resultLimit : ℕ) (name : Name)
    (steps : List Step)
    (hsteps : RunMeets (step name) InOrder { storage := Storage.fresh W opt clock hashSize resultLimit } steps) :
    let c := steps.foldl (step name) { storage := Storage.fresh W opt clock hashSize resultLimit }
    c.Returned →
      (∀ t, (c.storage.dataStorage.point? (c.storage.keyCache.getId name) t).map (·.count) =
        recorded W (dataOf steps) t) ∧
      c.storage.keyStorage.key? name = (c.storage.keyCache.keyMap.find? name).map (·.keyInfo) := by
  intro c hret
  have h : Served opened name steps c := by
    refine RunMeets.invariant (Served opened name)
      (Served.of_fresh opt hlast hmerge clock hashSize resultLimit name) ?_ hsteps
    intro hist c a h hc
    exact h.step hA hS hC hc
  exact h.returned hret

/-- Two adds of one period whose storage steps alternate, and a late one. -/
theorem concurrent_adds_conserved_in_order :
    let steps : List Step := [.getOrCreate 0 { ts := 11, count := 1 }, .getOrCreate 0 { ts := 12, count := 2 },
      .aggregate 0, .aggregate 0, .getKeyInfo 1, .getOrCreate 0 { ts := 5, count := 4 }, .aggregate 0,
      .getKeyInfo 0, .setKey 1, .writeData 2, .setKey 0, .writeData 0, .writeData 1]
    let opt : StorageOptions := { keyCache := { aggregateLastPoint := true, resolution := 1 } }
    let c := steps.foldl (step [97]) { storage := Storage.fresh (Wrtstat.reference 5 false) opt 0 4 10 }
    (∀ t, (c.storage.dataStorage.point? (c.storage.keyCache.getId [97]) t).map (·.count) =
      recorded (Wrtstat.reference 5 false) (dataOf steps) t) ∧
    c.storage.keyStorage.key? [97] = (c.storage.keyCache.keyMap.find? [97]).map (·.keyInfo) :=
  concurrent_adds_conserved (Wrtstat.reference_alignsTime (by omega) false)
    (Wrtstat.reference_sumsCounts 5 false) (Wrtstat.reference_combinesCounts 5 false)
    { keyCache := { aggregateLastPoint := true, resolution := 1 } } rfl rfl 0 4 10 [97]
    [.getOrCreate 0 { ts := 11, count := 1 }, .getOrCreate 0 { ts := 12, count := 2 },
      .aggregate 0, .aggregate 0, .getKeyInfo 1, .getOrCreate 0 { ts := 5, count := 4 }, .aggregate 0,
      .getKeyInfo 0, .setKey 1, .writeData 2, .setKey 0, .writeData 0, .writeData 1]
    (by decide +kernel) (by decide +kernel)

/-- The first add's sum and key info are written after the second's. -/
theorem concurrent_add_lost :
    let steps : List Step := [.getOrCreate 0 { ts := 5, count := 1 }, .getOrCreate 0 { ts := 6, count := 2 },
      .aggregate 0, .getKeyInfo 0, .aggregate 0, .getKeyInfo 1, .setKey 1, .writeData 1, .setKey 0, .writeData 0]
    let opt : StorageOptions := { keyCache := { aggregateLastPoint := true, resolution := 1 } }
    let c := steps.foldl (step [97]) { storage := Storage.fresh (Wrtstat.reference 5 false) opt 0 4 10 }
    (∀ d ∈ dataOf steps, d.ts ≠ 0) ∧ c.Returned ∧
      recorded (Wrtstat.reference 5 false) (dataOf steps) 5 = some 3 ∧
      (c.storage.dataStorage.point? (c.storage.keyCache.getId [97]) 5).map (·.count) = some 1 ∧
      (c.storage.keyStorage.key? [97]).map (·.count.value) = some 1 ∧
      (c.storage.keyCache.keyMap.find? [97]).map (·.keyInfo.count.value) = some 3 :=
  ⟨by decide, by decide +kernel, by decide +kernel, by decide +kernel, by decide +kernel,
    by decide +kernel⟩

end ConcurrentAdds

end WfcBtp
