import WfcBtp.Proofs.Ledger
import WfcBtp.Proofs.Reopening

/-!
# Accounting

Every key that is created in a run of adds gets an id of its own, and the data that were
added under an id are on one ledger, also after the key was evicted.
-/

namespace WfcBtp
open Library

variable {W : Wrtstat}

/-- One `add`, with the clock it reads. -/
structure AddCall where
  clock : ℤ := 0
  name : Name
  data : AggregatedData

/-- A step of a storage that is only added to and cleaned up. -/
inductive Call
  | add (c : AddCall)
  | gc (clock : ℤ)

/-- A storage and, for every id, the data that were added under it. -/
structure Book (W : Wrtstat) where
  storage : Storage W
  added : KeyId → List AggregatedData

namespace Storage

def addStep (s : Storage W) (c : AddCall) : Storage W := (s.add c.clock allOk c.name c.data).2

end Storage

namespace Book

def step (b : Book W) : Call → Book W
  | .add c =>
    { storage := b.storage.addStep c
      added := fun id => if id = b.storage.keyId c.name then b.added id ++ [c.data] else b.added id }
  | .gc clock => { b with storage := (b.storage.gc clock).2 }

/-- The data added under an id are on the ledger of one aggregator, the cached one as long
as the key is cached, and ids that were not handed out yet have no points. -/
structure Accounted (opened : W.Aggregator → Option ℕ) (b : Book W) : Prop where
  counter_lt : b.storage.keyCache.keyCounter < badKey
  id_le : ∀ name ka, b.storage.keyCache.keyMap.find? name = some ka →
    ka.getId ≤ b.storage.keyCache.keyCounter
  id_inj : ∀ name name' ka ka', b.storage.keyCache.keyMap.find? name = some ka →
    b.storage.keyCache.keyMap.find? name' = some ka' → ka.getId = ka'.getId → name = name'
  ledger : ∀ id, ∃ ka, ka.aggregateLastPoint = b.storage.keyCache.options.aggregateLastPoint ∧
    Ledger opened ka (countAt? (b.storage.dataStorage.point? id)) (b.added id) ∧ Begun ka (b.added id) ∧
    ∀ name ka', b.storage.keyCache.keyMap.find? name = some ka' → ka'.getId = id → ka' = ka
  used : ∀ name ka, b.storage.keyCache.keyMap.find? name = some ka → b.added ka.getId ≠ []
  unused : ∀ id, b.storage.keyCache.keyCounter < id →
    (∀ t, b.storage.dataStorage.point? id t = none) ∧ b.added id = []

variable {opened : W.Aggregator → Option ℕ}

lemma accounted_fresh (hA : W.AlignsTime) (hS : W.SumsCounts opened) (opt : StorageOptions) (clock : ℤ)
    (hashSize resultLimit : ℕ) :
    Accounted opened ⟨Storage.fresh W opt clock hashSize resultLimit, fun _ => []⟩ := by
  refine ⟨?_, ?_, ?_, ?_, ?_, ?_⟩
  · exact lt_of_le_of_lt (Storage.fresh_keyCounter opt clock hashSize resultLimit).le (by decide)
  · intro name ka h
    exact absurd h (by simp)
  · intro name name' ka ka' h
    exact absurd h (by simp)
  · intro id
    refine ⟨KeyAggregator.create 0 id 0 opt.keyCache, ?_, ?_, ?_, ?_⟩
    · change opt.keyCache.aggregateLastPoint = _
      rw [Storage.fresh, Storage.openOn_options]
    · exact Ledger.of_create hA hS _ _ _ _ fun t => rfl
    · exact fun h => absurd rfl h
    · intro name ka' h
      exact absurd h (by simp)
  · intro name ka h
    exact absurd h (by simp)
  · intro id _
    exact ⟨fun t => rfl, rfl⟩

namespace Accounted

variable {b : Book W}

/-- No other name has the id that an add of `name` works under. -/
lemma name_eq_of_keyId (h : Accounted opened b) {name name' : Name} {ka : KeyAggregator W}
    (hk : b.storage.keyCache.keyMap.find? name' = some ka) (hid : ka.getId = b.storage.keyId name) :
    name' = name := by
  cases hn : b.storage.keyCache.keyMap.find? name with
  | some kb => exact h.id_inj name' name ka kb hk hn (hid.trans (Storage.keyId_of_some hn))
  | none =>
    have hle := h.id_le name' ka hk
    rw [hid, Storage.keyId_eq_succ h.counter_lt hn] at hle
    exact absurd hle (Nat.not_succ_le_self _)

/-- The key an add works on, be it cached or new, is on its ledger. -/
lemma ledger_keyOrNew (hA : W.AlignsTime) (hS : W.SumsCounts opened) (h : Accounted opened b) (name : Name)
    (ts : ℤ) :
    Ledger opened (b.storage.keyCache.keyOrNew name ts)
        (countAt? (b.storage.dataStorage.point? (b.storage.keyId name))) (b.added (b.storage.keyId name)) ∧
      Begun (b.storage.keyCache.keyOrNew name ts) (b.added (b.storage.keyId name)) := by
  cases hn : b.storage.keyCache.keyMap.find? name with
  | some ka =>
    obtain ⟨ka', _, hledger, hbegun, huniq⟩ := h.ledger ka.getId
    obtain rfl := huniq name ka hn rfl
    rw [KeyCache.keyOrNew_of_some ts hn, Storage.keyId_of_some hn]
    exact ⟨hledger, hbegun⟩
  | none =>
    have hid := Storage.keyId_eq_succ h.counter_lt hn
    obtain ⟨hpts, hadded⟩ := h.unused (b.storage.keyId name) (by rw [hid]; exact Nat.lt_succ_self _)
    rw [KeyCache.keyOrNew_of_none ts hn, hadded]
    refine ⟨Ledger.of_create hA hS _ _ _ _ fun t => ?_, fun h => absurd rfl h⟩
    rw [countAt?, hpts]
    rfl

lemma keyOrNew_aggregateLastPoint (h : Accounted opened b) (name : Name) (ts : ℤ) :
    (b.storage.keyCache.keyOrNew name ts).aggregateLastPoint =
      b.storage.keyCache.options.aggregateLastPoint := by
  cases hn : b.storage.keyCache.keyMap.find? name with
  | some ka =>
    obtain ⟨ka', hopt, _, _, huniq⟩ := h.ledger ka.getId
    rw [KeyCache.keyOrNew_of_some ts hn, huniq name ka hn rfl]
    exact hopt
  | none =>
    rw [KeyCache.keyOrNew_of_none ts hn]
    rfl

/-- A key that late data come to was added to before. -/
lemma added_ne_nil_of_late (hA : W.AlignsTime) (hS : W.SumsCounts opened) (h : Accounted opened b)
    {name : Name} {ts : ℤ} (hlate : (b.storage.keyCache.keyOrNew name ts).isLate ts) :
    b.added (b.storage.keyId name) ≠ [] := by
  cases hn : b.storage.keyCache.keyMap.find? name with
  | some ka =>
    rw [Storage.keyId_of_some hn]
    exact h.used name ka hn
  | none =>
    rw [KeyCache.keyOrNew_of_none ts hn] at hlate
    have hlt : ts < W.currentTime (W.create ts) := hlate.2
    rw [hS.currentTime_create] at hlt
    exact absurd hlt (hA.getTs_le ts).not_gt

end Accounted

/-- The adds that are counted: they succeed, their time is not zero, and late data come
to a storage that merges. -/
structure Counts (s : Storage W) (c : AddCall) : Prop where
  ts_ne : c.data.ts ≠ 0
  status : (s.add c.clock allOk c.name c.data).1 = .ok ()
  late : (s.keyCache.keyOrNew c.name c.data.ts).isLate c.data.ts → s.disableMerge = false

/-- A key that is cached after an add is the one it worked on or was there before. -/
lemma step_add_find?_cases {b : Book W} {c : AddCall} {name : Name} {ka : KeyAggregator W}
    (h : (b.step (.add c)).storage.keyCache.keyMap.find? name = some ka) :
    name = c.name ∧ ka = (b.storage.addKey c.name c.data).1 ∨
      name ≠ c.name ∧ b.storage.keyCache.keyMap.find? name = some ka := by
  change (b.storage.addStep c).keyCache.keyMap.find? name = some ka at h
  rw [Storage.addStep, Storage.add_find?] at h
  split_ifs at h with hn
  · exact .inl ⟨hn, (Option.some.inj h).symm⟩
  · exact .inr ⟨hn, h⟩

lemma step_add_point? {b : Book W} {c : AddCall} (hid : b.storage.keyId c.name ≠ badKey) (id : KeyId) :
    (b.step (.add c)).storage.dataStorage.point? id =
      if id = b.storage.keyId c.name then
        writePoints W b.storage.disableMerge (b.storage.addKey c.name c.data).2.2
          (b.storage.dataStorage.point? (b.storage.keyId c.name)) (b.storage.addKey c.name c.data).2.1
      else b.storage.dataStorage.point? id :=
  Storage.add_point? hid c.clock c.data id

lemma step_add_added (b : Book W) (c : AddCall) (id : KeyId) :
    (b.step (.add c)).added id = if id = b.storage.keyId c.name then b.added id ++ [c.data] else b.added id :=
  rfl

namespace Accounted

section Add

variable {b : Book W} {c : AddCall}

/-- The counter is at the add's id if that is a new one. -/
lemma keyCounter_add (h : Accounted opened b) :
    (b.step (.add c)).storage.keyCache.keyCounter =
      max b.storage.keyCache.keyCounter (b.storage.keyId c.name) := by
  rw [← Storage.keyCounter_eq_max h.counter_lt (h.id_le c.name)]
  exact Storage.add_keyCounter _ _ _ _ _

lemma id_le_add (h : Accounted opened b) {name : Name} {ka : KeyAggregator W}
    (hka : (b.step (.add c)).storage.keyCache.keyMap.find? name = some ka) :
    ka.getId ≤ (b.step (.add c)).storage.keyCache.keyCounter := by
  rw [h.keyCounter_add]
  rcases step_add_find?_cases hka with ⟨-, rfl⟩ | ⟨-, hka⟩
  · rw [Storage.addKey_getId]
    exact le_max_right _ _
  · exact (h.id_le _ _ hka).trans (le_max_left _ _)

lemma id_inj_add (h : Accounted opened b) {name name' : Name} {ka ka' : KeyAggregator W}
    (hka : (b.step (.add c)).storage.keyCache.keyMap.find? name = some ka)
    (hka' : (b.step (.add c)).storage.keyCache.keyMap.find? name' = some ka') (heq : ka.getId = ka'.getId) :
    name = name' := by
  rcases step_add_find?_cases hka with ⟨hn, rfl⟩ | ⟨-, hka⟩
  · rw [Storage.addKey_getId] at heq
    rcases step_add_find?_cases hka' with ⟨hn', -⟩ | ⟨-, hka'⟩
    · rw [hn, hn']
    · rw [hn, h.name_eq_of_keyId hka' heq.symm]
  · rcases step_add_find?_cases hka' with ⟨hn', rfl⟩ | ⟨-, hka'⟩
    · rw [Storage.addKey_getId] at heq
      rw [hn', h.name_eq_of_keyId hka heq]
    · exact h.id_inj _ _ _ _ hka hka' heq

lemma used_add (h : Accounted opened b) {name : Name} {ka : KeyAggregator W}
    (hka : (b.step (.add c)).storage.keyCache.keyMap.find? name = some ka) :
    (b.step (.add c)).added ka.getId ≠ [] := by
  rw [step_add_added]
  rcases step_add_find?_cases hka with ⟨-, rfl⟩ | ⟨-, hka⟩
  · rw [Storage.addKey_getId, if_pos rfl]
    simp
  · split_ifs
    · simp
    · exact h.used name ka hka

lemma unused_add (h : Accounted opened b) (hid : b.storage.keyId c.name ≠ badKey) {id : KeyId}
    (hlt : (b.step (.add c)).storage.keyCache.keyCounter < id) :
    (∀ t, (b.step (.add c)).storage.dataStorage.point? id t = none) ∧ (b.step (.add c)).added id = [] := by
  rw [h.keyCounter_add, max_lt_iff] at hlt
  rw [step_add_point? hid, step_add_added, if_neg hlt.2.ne', if_neg hlt.2.ne']
  exact h.unused id hlt.1

/-- The ledger of the add's own id goes on with the data, the others stay. -/
lemma ledger_add (hA : W.AlignsTime) (hS : W.SumsCounts opened) (hC : W.CombinesCounts)
    (h : Accounted opened b) (hc : Counts b.storage c) (id : KeyId) :
    ∃ ka, ka.aggregateLastPoint = b.storage.keyCache.options.aggregateLastPoint ∧
      Ledger opened ka (countAt? ((b.step (.add c)).storage.dataStorage.point? id))
        ((b.step (.add c)).added id) ∧
      Begun ka ((b.step (.add c)).added id) ∧
      ∀ name ka', (b.step (.add c)).storage.keyCache.keyMap.find? name = some ka' → ka'.getId = id →
        ka' = ka := by
  rw [step_add_point? ((Storage.add_status_iff _ _ _ _).mp hc.status), step_add_added]
  by_cases he : id = b.storage.keyId c.name
  · subst he
    obtain ⟨hledger, hbegun⟩ := h.ledger_keyOrNew hA hS c.name c.data.ts
    rw [if_pos rfl, if_pos rfl, countAt?_writePoints hC]
    refine ⟨(b.storage.addKey c.name c.data).1, ?_, ?_, ?_, ?_⟩
    · rw [Storage.addKey, KeyAggregator.add_aggregateLastPoint]
      exact h.keyOrNew_aggregateLastPoint c.name c.data.ts
    · exact hledger.add hA hS hC hc.ts_ne hc.late
    · exact hledger.begun_add hA hS hbegun hc.ts_ne fun hl => h.added_ne_nil_of_late hA hS hl
    · intro name ka' hka' hid
      rcases step_add_find?_cases hka' with ⟨-, hka'⟩ | ⟨hn, hka'⟩
      · exact hka'
      · exact absurd (h.name_eq_of_keyId hka' hid) hn
  · obtain ⟨ka, hopt, hledger, hbegun, huniq⟩ := h.ledger id
    rw [if_neg he, if_neg he]
    refine ⟨ka, hopt, hledger, hbegun, fun name ka' hka' hid => ?_⟩
    rcases step_add_find?_cases hka' with ⟨-, rfl⟩ | ⟨-, hka'⟩
    · rw [Storage.addKey_getId] at hid
      exact absurd hid.symm he
    · exact huniq name ka' hka' hid

lemma add (hA : W.AlignsTime) (hS : W.SumsCounts opened) (hC : W.CombinesCounts) (h : Accounted opened b)
    (hc : Counts b.storage c) : Accounted opened (b.step (.add c)) := by
  have hid : b.storage.keyId c.name ≠ badKey := (Storage.add_status_iff _ _ _ _).mp hc.status
  have hoptions : (b.step (.add c)).storage.keyCache.options = b.storage.keyCache.options :=
    Storage.add_options _ _ _ _ _
  refine ⟨?_, fun _ _ => h.id_le_add, fun _ _ _ _ => h.id_inj_add, fun id => ?_, fun _ _ => h.used_add,
    fun _ => h.unused_add hid⟩
  · rw [h.keyCounter_add]
    exact max_lt h.counter_lt (lt_of_le_of_ne (Storage.keyId_le h.counter_lt (h.id_le c.name)) hid)
  · rw [hoptions]
    exact h.ledger_add hA hS hC hc id

end Add

/-- Evicting names changes neither the points nor the keys that stay. -/
lemma gc {b : Book W} (h : Accounted opened b) (clock : ℤ) : Accounted opened (b.step (.gc clock)) := by
  have hfind : ∀ name ka, (b.step (.gc clock)).storage.keyCache.keyMap.find? name = some ka →
      b.storage.keyCache.keyMap.find? name = some ka := by
    intro name ka hka
    change (b.storage.keyCache.gc clock).2.keyMap.find? name = some ka at hka
    rw [KeyCache.gc_find?] at hka
    split_ifs at hka
    exact hka
  have hcounter : (b.step (.gc clock)).storage.keyCache.keyCounter = b.storage.keyCache.keyCounter :=
    KeyCache.gc_keyCounter _ _
  have hoptions : (b.step (.gc clock)).storage.keyCache.options = b.storage.keyCache.options :=
    KeyCache.gc_options _ _
  refine ⟨?_, ?_, ?_, ?_, ?_, ?_⟩
  · rw [hcounter]
    exact h.counter_lt
  · intro name ka hka
    rw [hcounter]
    exact h.id_le name ka (hfind name ka hka)
  · intro name name' ka ka' hka hka'
    exact h.id_inj name name' ka ka' (hfind _ _ hka) (hfind _ _ hka')
  · intro id
    obtain ⟨ka, hopt, hl, hb, huniq⟩ := h.ledger id
    refine ⟨ka, by rw [hoptions]; exact hopt, hl, hb, fun name ka' hka' => huniq name ka' (hfind _ _ hka')⟩
  · intro name ka hka
    exact h.used name ka (hfind _ _ hka)
  · intro id hlt
    rw [hcounter] at hlt
    exact h.unused id hlt

/-- Closing writes the open periods again, with the counts they are stored with. -/
lemma countAt?_close (hS : W.SumsCounts opened) {b : Book W} (h : Accounted opened b) (id : KeyId) :
    countAt? ((b.storage.close allOk).2.dataStorage.point? id) =
      countAt? (b.storage.dataStorage.point? id) := by
  by_cases hcached : ∃ name ka, b.storage.keyCache.keyMap.find? name = some ka ∧ ka.getId = id
  · obtain ⟨name, ka, hk, rfl⟩ := hcached
    obtain ⟨ka', _, hledger, _, huniq⟩ := h.ledger ka.getId
    obtain rfl := huniq name ka hk rfl
    rw [Storage.close_point?_of_cached hk fun n kb hn hid => h.id_inj n name kb ka hn hk hid,
      countAt?_foldl_setPoint]
    exact hledger.release hS
  · rw [Storage.close_point?_of_not_cached fun n ka hn hid => hcached ⟨n, ka, hn, hid⟩]

end Accounted

end Book

end WfcBtp
