import Mathlib.Data.Finset.Card
import WfcBtp.Proofs.CallWrites
import WfcBtp.Proofs.FailedDel
import WfcBtp.Proofs.GcTolerance
import WfcBtp.Proofs.KeyCacheIndexes
import WfcBtp.Proofs.Reopening

/-!
# What a call leaves alone

A call on one name may change the key of that name, the counter of ids, and the points under
the id it works under. Every name has an id of its own, so that nothing of another name changes.
-/

namespace WfcBtp
open Library

variable {W : Wrtstat}

/-! ### Writes under one id -/

def DataWrite.id : DataWrite → KeyId
  | .set _ id _ => id
  | .inc _ id _ => id
  | .del _ _ id => id

namespace DataStorage

lemma point?_write_of_ne (s : DataStorage) {w : DataWrite} {id : KeyId} (h : w.id ≠ id) (t : ℤ) :
    (s.write W w).point? id t = s.point? id t := by
  have hne : ∀ {P : Prop}, ¬(id = w.id ∧ P) := fun hid => h hid.1.symm
  cases w with
  | set ok id' data =>
    cases ok with
    | false => simp only [write, set_false]
    | true =>
      simp only [write, point?_set]
      exact if_neg hne
  | inc ok id' data =>
    cases ok with
    | false => simp only [write, inc_false]
    | true =>
      simp only [write, point?_inc]
      exact if_neg hne
  | del ok i id' =>
    simp only [write, point?_del_erased]
    exact if_neg hne

lemma point?_foldl_write_of_ne {writes : List DataWrite} {id : KeyId} (h : ∀ w ∈ writes, w.id ≠ id) (s : DataStorage)
    (t : ℤ) : (writes.foldl (write W) s).point? id t = s.point? id t := by
  induction writes generalizing s with
  | nil => rfl
  | cons w rest ih =>
    rw [List.foldl_cons, ih fun w' hw => h w' (List.mem_cons_of_mem w hw)]
    exact s.point?_write_of_ne (h w List.mem_cons_self) t

lemma foldl_write_resultLimit (s : DataStorage) (writes : List DataWrite) (id : KeyId) :
    ((writes.foldl (DataStorage.write W) s).getDb id).resultLimit = (s.getDb id).resultLimit := by
  induction writes generalizing s with
  | nil => rfl
  | cons w rest ih => rw [List.foldl_cons, ih, DataStorage.write_resultLimit]

end DataStorage

/-! ### The times of the cache -/

namespace KeyCache

lemma getOrCreate_time (c : KeyCache W) (clock : ℤ) (name : Name) (nowTs : ℤ) (name' : Name) :
    (c.getOrCreate clock name nowTs).2.keyTimeMap.find? name' =
      if name' = name ∧ c.options.gcInterval ≠ 0 then
        some (refreshed c.options.gcInterval (c.keyTimeMap.find? name) clock)
      else c.keyTimeMap.find? name' := by
  by_cases hg : c.options.gcInterval = 0
  · have hsame : (c.getOrCreate clock name nowTs).2.keyTimeMap = c.keyTimeMap := by
      unfold getOrCreate
      cases c.keyMap.find? name <;> simp [updateTime, hg]
    rw [hsame, if_neg fun h => h.2 hg]
  · rw [getOrCreate_keyTime hg]
    simp [hg]

lemma del_time (c : KeyCache W) (name name' : Name) (h : name' ≠ name) :
    (c.del name).2.keyTimeMap.find? name' = c.keyTimeMap.find? name' := by
  unfold del
  cases c.keyMap.find? name with
  | none => rfl
  | some ka =>
    dsimp only
    split_ifs
    · split
      · exact (OrderedMap.find?_erase _ _ _).trans (if_neg h)
      · rfl
    · rfl

end KeyCache

namespace Storage

lemma add_times (s : Storage W) (clock : ℤ) (ok : Outcomes) (name : Name) (data : AggregatedData) :
    (s.add clock ok name data).2.ttl = s.ttl ∧ (s.add clock ok name data).2.resolution = s.resolution := by
  unfold add storeKeyAndData
  dsimp only
  split_ifs
  · exact ⟨rfl, rfl⟩
  · split <;> exact ⟨rfl, rfl⟩
  all_goals exact ⟨rfl, rfl⟩

lemma del_times (s : Storage W) (ok : Outcomes) (name : Name) :
    (s.del ok name).2.ttl = s.ttl ∧ (s.del ok name).2.resolution = s.resolution ∧
      (s.del ok name).2.disableMerge = s.disableMerge := by
  unfold del
  dsimp only
  split_ifs
  · exact ⟨rfl, rfl, rfl⟩
  · split <;> exact ⟨rfl, rfl, rfl⟩

/-! ### What a call leaves alone -/

/-- Every name has an id of its own that is in use, and there are no points under an id that
is not; at most `n` more names get an id. -/
structure Separate (n : ℕ) (s : Storage W) : Prop where
  indexes : s.keyCache.options.gcInterval ≠ 0 → s.keyCache.IndexesAgree
  counter_lt : s.keyCache.keyCounter + n < badKey
  id_le : ∀ name ka, s.keyCache.keyMap.find? name = some ka → ka.getId ≤ s.keyCache.keyCounter
  id_inj : ∀ name name' ka ka', s.keyCache.keyMap.find? name = some ka → s.keyCache.keyMap.find? name' = some ka' →
    ka.getId = ka'.getId → name = name'
  unused : ∀ id, s.keyCache.keyCounter < id → ∀ t, s.dataStorage.point? id t = none

/-- What a call on `name` may change. -/
structure Frame (name : Name) (s s₁ : Storage W) : Prop where
  options : s₁.keyCache.options = s.keyCache.options
  disableMerge : s₁.disableMerge = s.disableMerge
  times : s₁.ttl = s.ttl ∧ s₁.resolution = s.resolution
  find : ∀ name', name' ≠ name → s₁.keyCache.keyMap.find? name' = s.keyCache.keyMap.find? name'
  time : ∀ name', name' ≠ name → s₁.keyCache.keyTimeMap.find? name' = s.keyCache.keyTimeMap.find? name'
  key : s₁.keyCache.keyMap.find? name = none ∧ s₁.keyCache.keyCounter = s.keyCache.keyCounter ∨
    (∃ ka, s₁.keyCache.keyMap.find? name = some ka ∧ ka.getId = s.keyId name) ∧
      s₁.keyCache.keyCounter = max s.keyCache.keyCounter (s.keyId name)
  indexes : s.keyCache.options.gcInterval ≠ 0 → s.keyCache.IndexesAgree → s₁.keyCache.IndexesAgree
  data : ∃ writes : List DataWrite, s₁.dataStorage = writes.foldl (DataStorage.write W) s.dataStorage ∧
    ∀ w ∈ writes, w.id = s.keyId name ∧
      ((s₁.keyCache.keyMap.find? name).isSome ∨ (s.keyCache.keyMap.find? name).isSome)

namespace Separate

variable {n : ℕ} {s s₁ : Storage W}

lemma fewer (h : Separate (n + 1) s) : Separate n s :=
  { h with counter_lt := (Nat.add_le_add_left (Nat.le_succ n) _).trans_lt h.counter_lt }

lemma keyCounter_lt (h : Separate n s) : s.keyCache.keyCounter < badKey :=
  (Nat.le_add_right _ _).trans_lt h.counter_lt

lemma keyId_lt (h : Separate (n + 1) s) (name : Name) : s.keyId name + n < badKey := by
  cases hk : s.keyCache.keyMap.find? name with
  | some ka =>
    rw [keyId_of_some hk]
    exact (Nat.add_le_add_right (h.id_le name ka hk) n).trans_lt h.fewer.counter_lt
  | none =>
    rw [keyId_eq_succ h.keyCounter_lt hk, Nat.succ_add_eq_add_succ]
    exact h.counter_lt

lemma keyId_ne_badKey (h : Separate (n + 1) s) (name : Name) : s.keyId name ≠ badKey :=
  ((Nat.le_add_right _ n).trans_lt (h.keyId_lt name)).ne

/-- Nobody else has the id that a call on `name` works under. -/
lemma name_eq_of_keyId (h : Separate n s) {name name' : Name} {ka : KeyAggregator W}
    (hk : s.keyCache.keyMap.find? name' = some ka) (hid : ka.getId = s.keyId name) : name' = name := by
  cases hn : s.keyCache.keyMap.find? name with
  | some kb => exact h.id_inj name' name ka kb hk hn (hid.trans (keyId_of_some hn))
  | none =>
    have hle := h.id_le name' ka hk
    rw [hid, keyId_eq_succ h.keyCounter_lt hn] at hle
    exact absurd hle (Nat.not_succ_le_self _)

lemma points_none (h : Separate n s) {name : Name} (hk : s.keyCache.keyMap.find? name = none) (t : ℤ) :
    s.dataStorage.point? (s.keyId name) t = none := by
  apply h.unused
  rw [keyId_eq_succ h.keyCounter_lt hk]
  exact Nat.lt_succ_self _

lemma frame (h : Separate (n + 1) s) {name : Name} (hf : Frame name s s₁) : Separate n s₁ := by
  have hcounter : s.keyCache.keyCounter ≤ s₁.keyCache.keyCounter := by
    rcases hf.key with ⟨-, heq⟩ | ⟨-, heq⟩
    · exact heq.ge
    · rw [heq]
      exact le_max_left _ _
  have hown : ∀ ka, s₁.keyCache.keyMap.find? name = some ka →
      ka.getId = s.keyId name ∧ s.keyId name ≤ s₁.keyCache.keyCounter := by
    intro ka hk
    rcases hf.key with ⟨hnone, -⟩ | ⟨⟨ka', hk', hid⟩, heq⟩
    · rw [hnone] at hk
      cases hk
    · rw [hk] at hk'
      rw [Option.some.inj hk', hid, heq]
      exact ⟨rfl, le_max_right _ _⟩
  refine ⟨fun hg => ?_, ?_, fun name' ka hk => ?_, fun name' name'' ka ka' hk hk' heq => ?_, fun id hlt t => ?_⟩
  · rw [hf.options] at hg
    exact hf.indexes hg (h.indexes hg)
  · rcases hf.key with ⟨-, heq⟩ | ⟨-, heq⟩
    · rw [heq]
      exact h.fewer.counter_lt
    · rw [heq, ← max_add_add_right]
      exact max_lt h.fewer.counter_lt (h.keyId_lt name)
  · by_cases hn : name' = name
    · subst hn
      obtain ⟨hid, hle⟩ := hown ka hk
      rw [hid]
      exact hle
    · rw [hf.find name' hn] at hk
      exact (h.id_le name' ka hk).trans hcounter
  · by_cases hn : name' = name
    · by_cases hn' : name'' = name
      · rw [hn, hn']
      · subst hn
        rw [hf.find name'' hn'] at hk'
        rw [(hown ka hk).1] at heq
        exact absurd (h.name_eq_of_keyId hk' heq.symm) hn'
    · rw [hf.find name' hn] at hk
      by_cases hn' : name'' = name
      · subst hn'
        rw [(hown ka' hk').1] at heq
        exact absurd (h.name_eq_of_keyId hk heq) hn
      · rw [hf.find name'' hn'] at hk'
        exact h.id_inj name' name'' ka ka' hk hk' heq
  · obtain ⟨writes, hwrites, hid⟩ := hf.data
    rw [hwrites, DataStorage.point?_foldl_write_of_ne, h.unused id (hcounter.trans_lt hlt)]
    intro w hw heq
    obtain ⟨hwid, hcached⟩ := hid w hw
    have hle : s.keyId name ≤ s₁.keyCache.keyCounter := by
      rcases hcached with hcached | hcached
      · obtain ⟨ka, hk⟩ := Option.isSome_iff_exists.mp hcached
        exact (hown ka hk).2
      · obtain ⟨ka, hk⟩ := Option.isSome_iff_exists.mp hcached
        rw [keyId_of_some hk]
        exact (h.id_le name ka hk).trans hcounter
    rw [← hwid, heq] at hle
    exact absurd hle hlt.not_ge

end Separate

/-! ### Every call keeps to its name -/

lemma setWrites_id (ok : Outcomes) (id : KeyId) (l : List AggregatedInfo) (i : ℕ) :
    ∀ w ∈ setWrites ok id l i, w.id = id := by
  induction l generalizing i with
  | nil => exact fun w hw => absurd hw List.not_mem_nil
  | cons ud rest ih =>
    intro w hw
    rw [setWrites, List.mem_cons] at hw
    rcases hw with rfl | hw
    · rfl
    · split_ifs at hw
      · exact ih (i + 1) w hw
      · exact absurd hw List.not_mem_nil

lemma incWrites_id (ok : Outcomes) (id : KeyId) (l : List AggregatedInfo) (i : ℕ) :
    ∀ w ∈ incWrites ok id l i, w.id = id := by
  induction l generalizing i with
  | nil => exact fun w hw => absurd hw List.not_mem_nil
  | cons ud rest ih =>
    intro w hw
    rw [incWrites, List.mem_cons] at hw
    rcases hw with rfl | hw
    · rfl
    · split_ifs at hw
      · exact ih (i + 1) w hw
      · exact absurd hw List.not_mem_nil

/-- What an add writes to data storage. -/
def addDataWrites (s : Storage W) (ok : Outcomes) (name : Name) (data : AggregatedData) : List DataWrite :=
  if s.keyId name = badKey then []
  else if (s.addKey name data).2.2 then
    if ok 0 then setWrites ok (s.keyId name) (s.addKey name data).2.1 1 else []
  else if s.disableMerge then setWrites ok (s.keyId name) (s.addKey name data).2.1 0
  else incWrites ok (s.keyId name) (s.addKey name data).2.1 0

lemma addDataWrites_id (s : Storage W) (ok : Outcomes) (name : Name) (data : AggregatedData) :
    ∀ w ∈ s.addDataWrites ok name data, w.id = s.keyId name := by
  intro w hw
  unfold addDataWrites at hw
  split_ifs at hw
  · exact absurd hw List.not_mem_nil
  · exact setWrites_id _ _ _ _ w hw
  · exact absurd hw List.not_mem_nil
  · exact setWrites_id _ _ _ _ w hw
  · exact incWrites_id _ _ _ _ w hw

lemma add_dataStorage (s : Storage W) (clock : ℤ) (ok : Outcomes) (name : Name) (data : AggregatedData) :
    (s.add clock ok name data).2.dataStorage =
      (s.addDataWrites ok name data).foldl (DataStorage.write W) s.dataStorage := by
  have hcall := Process.call_dataStorage ⟨s, false⟩ (.add clock ok name data)
  refine hcall.trans (congrArg (List.foldl _ _) ?_)
  simp only [Process.dataWrites]
  rw [add_result]
  rfl

/-- What a merge writes to data storage. -/
def mergeDataWrites (s : Storage W) (ok : Outcomes) (name : Name) (data : List AggregatedInfo) : List DataWrite :=
  if data = [] ∨ s.keyId name = badKey then []
  else if ok 0 then setWrites ok (s.keyId name) (s.mergeKey name data).2 1 else []

lemma mergeDataWrites_id (s : Storage W) (ok : Outcomes) (name : Name) (data : List AggregatedInfo) :
    ∀ w ∈ s.mergeDataWrites ok name data, w.id = s.keyId name := by
  intro w hw
  unfold mergeDataWrites at hw
  split_ifs at hw
  · exact absurd hw List.not_mem_nil
  · exact setWrites_id _ _ _ _ w hw
  · exact absurd hw List.not_mem_nil

lemma merge_dataStorage (s : Storage W) (clock : ℤ) (ok : Outcomes) (name : Name) (data : List AggregatedInfo) :
    (s.merge clock ok name data).2.dataStorage =
      (s.mergeDataWrites ok name data).foldl (DataStorage.write W) s.dataStorage := by
  have hcall := Process.call_dataStorage ⟨s, false⟩ (.merge clock ok name data)
  refine hcall.trans (congrArg (List.foldl _ _) ?_)
  simp only [Process.dataWrites, mergeDataWrites]
  cases data with
  | nil => rfl
  | cons d rest =>
    rw [merge_result s clock name (List.cons_ne_nil d rest)]
    simp

lemma frame_add {n : ℕ} {s : Storage W} (h : Separate n s) (clock : ℤ) (ok : Outcomes) (name : Name)
    (data : AggregatedData) : Frame name s (s.add clock ok name data).2 := by
  have hfind := add_find? s clock ok name data
  have hcached : ((s.add clock ok name data).2.keyCache.keyMap.find? name).isSome := by
    rw [hfind, if_pos rfl]
    rfl
  refine
    { options := add_options s clock ok name data
      disableMerge := add_disableMerge s clock ok name data
      times := add_times s clock ok name data
      find := fun name' hn => by rw [hfind, if_neg hn]
      time := fun name' hn => ?_
      key := .inr ⟨⟨_, by rw [hfind, if_pos rfl], addKey_getId s name data⟩, ?_⟩
      indexes := fun hg hagree => ?_
      data := ⟨s.addDataWrites ok name data, add_dataStorage s clock ok name data,
        fun w hw => ⟨s.addDataWrites_id ok name data w hw, .inl hcached⟩⟩ }
  · rw [add_keyCache]
    exact (KeyCache.getOrCreate_time _ _ _ _ _).trans (if_neg fun hname => hn hname.1)
  · rw [add_keyCounter]
    exact keyCounter_eq_max h.keyCounter_lt (h.id_le name)
  · rw [add_keyCache]
    exact hagree.add hg clock name data

lemma frame_refl {n : ℕ} {s : Storage W} (h : Separate n s) (name : Name) : Frame name s s where
  options := rfl
  disableMerge := rfl
  times := ⟨rfl, rfl⟩
  find _ _ := rfl
  time _ _ := rfl
  key := by
    cases hk : s.keyCache.keyMap.find? name with
    | none => exact .inl ⟨rfl, rfl⟩
    | some ka =>
      refine .inr ⟨⟨ka, rfl, (keyId_of_some hk).symm⟩, ?_⟩
      rw [keyId_of_some hk, max_eq_left (h.id_le name ka hk)]
  indexes _ hagree := hagree
  data := ⟨[], rfl, fun w hw => absurd hw List.not_mem_nil⟩

lemma merge_nil (s : Storage W) (clock : ℤ) (ok : Outcomes) (name : Name) :
    s.merge clock ok name [] = (.error .emptyData, s) := rfl

lemma merge_settings (s : Storage W) (clock : ℤ) (ok : Outcomes) (name : Name) (data : List AggregatedInfo) :
    (s.merge clock ok name data).2.disableMerge = s.disableMerge ∧
      (s.merge clock ok name data).2.ttl = s.ttl ∧ (s.merge clock ok name data).2.resolution = s.resolution := by
  unfold merge storeKeyAndData
  dsimp only
  split_ifs
  · exact ⟨rfl, rfl, rfl⟩
  · exact ⟨rfl, rfl, rfl⟩
  · split <;> exact ⟨rfl, rfl, rfl⟩

lemma frame_merge {n : ℕ} {s : Storage W} (h : Separate n s) (clock : ℤ) (ok : Outcomes) (name : Name)
    (data : List AggregatedInfo) : Frame name s (s.merge clock ok name data).2 := by
  by_cases hdata : data = []
  · rw [hdata, merge_nil]
    exact frame_refl h name
  have hfind : ∀ name', (s.merge clock ok name data).2.keyCache.keyMap.find? name' =
      if name' = name then some (s.mergeKey name data).1 else s.keyCache.keyMap.find? name' :=
    merge_find? s ok hdata
  have hcached : ((s.merge clock ok name data).2.keyCache.keyMap.find? name).isSome := by
    rw [hfind, if_pos rfl]
    rfl
  have hsettings := merge_settings s clock ok name data
  refine
    { options := merge_options s ok hdata
      disableMerge := hsettings.1
      times := hsettings.2
      find := fun name' hn => by rw [hfind, if_neg hn]
      time := fun name' hn => ?_
      key := .inr ⟨⟨_, by rw [hfind, if_pos rfl], mergeKey_getId s name data⟩, ?_⟩
      indexes := fun hg hagree => ?_
      data := ⟨s.mergeDataWrites ok name data, merge_dataStorage s clock ok name data,
        fun w hw => ⟨s.mergeDataWrites_id ok name data w hw, .inl hcached⟩⟩ }
  · rw [merge_keyCache s ok hdata, merge_result s clock name hdata]
    exact (KeyCache.getOrCreate_time _ _ _ _ _).trans (if_neg fun hname => hn hname.1)
  · rw [merge_keyCounter s ok hdata]
    exact keyCounter_eq_max h.keyCounter_lt (h.id_le name)
  · rw [merge_keyCache s ok hdata]
    exact hagree.merge hg clock name data

/-- What a del writes to data storage. -/
def delDataWrites (s : Storage W) (ok : Outcomes) (name : Name) : List DataWrite :=
  if (s.keyCache.keyMap.find? name).isSome ∧ s.keyId name ≠ badKey ∧ ok 0 = true then [.del ok 1 (s.keyId name)]
  else []

lemma delDataWrites_id (s : Storage W) (ok : Outcomes) (name : Name) :
    ∀ w ∈ s.delDataWrites ok name, w.id = s.keyId name := by
  intro w hw
  unfold delDataWrites at hw
  split_ifs at hw
  · rw [List.mem_singleton.mp hw]
    rfl
  · exact absurd hw List.not_mem_nil

lemma del_fst_eq {n : ℕ} {s : Storage W} (h : Separate n s) (name : Name) :
    (s.keyCache.del name).1 = if (s.keyCache.keyMap.find? name).isSome then s.keyId name else badKey := by
  cases hk : s.keyCache.keyMap.find? name with
  | none => rw [KeyCache.del_of_none hk, if_neg (by simp)]
  | some ka =>
    rw [KeyCache.del_fst h.indexes hk, keyId_of_some hk]
    rfl

lemma del_dataStorage {n : ℕ} {s : Storage W} (h : Separate n s) (ok : Outcomes) (name : Name) :
    (s.del ok name).2.dataStorage = (s.delDataWrites ok name).foldl (DataStorage.write W) s.dataStorage := by
  have hcall := Process.call_dataStorage ⟨s, false⟩ (.del ok name)
  refine hcall.trans (congrArg (List.foldl _ _) ?_)
  simp only [Process.dataWrites, del_fst_eq h, delDataWrites]
  by_cases hk : (s.keyCache.keyMap.find? name).isSome
  · by_cases hid : s.keyId name = badKey
    · simp [hk, hid]
    · simp [hk, hid]
  · simp [hk]

lemma frame_del {n : ℕ} {s : Storage W} (h : Separate n s) (ok : Outcomes) (name : Name) :
    Frame name s (s.del ok name).2 := by
  have htimes := del_times s ok name
  refine
    { options := ?_
      disableMerge := htimes.2.2
      times := ⟨htimes.1, htimes.2.1⟩
      find := fun name' hn => ?_
      time := fun name' hn => ?_
      key := .inl ⟨?_, ?_⟩
      indexes := fun hg hagree => ?_
      data := ⟨s.delDataWrites ok name, del_dataStorage h ok name, fun w hw => ?_⟩ }
  · rw [del_keyCache]
    exact (KeyCache.del_keyCounter _ _).2
  · rw [del_keyCache, KeyCache.del_find?, if_neg hn]
  · rw [del_keyCache]
    exact KeyCache.del_time _ _ _ hn
  · rw [del_keyCache, KeyCache.del_find?, if_pos rfl]
  · rw [del_keyCache]
    exact (KeyCache.del_keyCounter _ _).1
  · rw [del_keyCache]
    exact hagree.del hg name
  · refine ⟨s.delDataWrites_id ok name w hw, .inr ?_⟩
    unfold delDataWrites at hw
    split_ifs at hw with hcond
    · exact hcond.1
    · exact absurd hw List.not_mem_nil

namespace Separate

variable {n : ℕ} {s : Storage W}

lemma fresh (W : Wrtstat) (opt : StorageOptions) (clock : ℤ) (hashSize resultLimit : ℕ) {n : ℕ} (hn : n < badKey) :
    Separate n (Storage.fresh W opt clock hashSize resultLimit) where
  indexes hg := by
    rw [fresh_options] at hg
    exact openOn_indexesAgree hg _ _ _
  counter_lt := by rwa [fresh_keyCounter, Nat.zero_add]
  id_le name ka h := absurd h (by simp)
  id_inj name _ ka _ h := absurd h (by simp)
  unused _ _ _ := rfl

lemma gc (h : Separate n s) (clock : ℤ) : Separate n (s.gc clock).2 := by
  have hfind : ∀ name ka, (s.keyCache.gc clock).2.keyMap.find? name = some ka →
      s.keyCache.keyMap.find? name = some ka := by
    intro name ka hk
    rw [KeyCache.gc_find?] at hk
    split_ifs at hk
    exact hk
  have hcounter := KeyCache.gc_keyCounter s.keyCache clock
  refine ⟨fun hg => ?_, ?_, fun name ka hk => ?_, fun name name' ka ka' hk hk' => ?_, fun id hlt => ?_⟩
  · rw [Storage.gc, KeyCache.gc_options] at hg
    exact (h.indexes hg).gc clock
  · rw [Storage.gc, hcounter]
    exact h.counter_lt
  · rw [Storage.gc, hcounter]
    exact h.id_le name ka (hfind name ka hk)
  · exact h.id_inj name name' ka ka' (hfind name ka hk) (hfind name' ka' hk')
  · rw [Storage.gc, hcounter] at hlt
    exact h.unused id hlt

lemma reply (h : Separate (n + 1) s) (c : ClientCall) : Separate n (s.reply c).2 := by
  cases c with
  | add clock ok name data => exact h.frame (frame_add h clock ok name data)
  | merge clock ok name data => exact h.frame (frame_merge h clock ok name data)
  | del ok name => exact h.frame (frame_del h ok name)
  | get clock name ts offset limit => exact h.fewer
  | gc clock => exact h.fewer.gc clock

end Separate

/-- A call on one name leaves the points of others. -/
lemma Frame.point? {n : ℕ} {s s₁ : Storage W} {name name' : Name} (hf : Frame name s s₁) (h : Separate n s)
    {ka : KeyAggregator W} (hk : s.keyCache.keyMap.find? name' = some ka) (hne : name' ≠ name) :
    s₁.dataStorage.point? ka.getId = s.dataStorage.point? ka.getId := by
  obtain ⟨writes, hwrites, hid⟩ := hf.data
  funext t
  rw [hwrites]
  apply DataStorage.point?_foldl_write_of_ne
  intro w hw heq
  rw [(hid w hw).1] at heq
  exact hne (h.name_eq_of_keyId hk heq.symm)

/-- A cleanup forgets as many names as it says, and leaves the keys of the others. -/
lemma gc_forgets {s : Storage W} (hindexes : s.keyCache.options.gcInterval ≠ 0 → s.keyCache.IndexesAgree) (clock : ℤ) :
    ∃ forgotten : Finset Name, (s.gc clock).1 = forgotten.card ∧
      ∀ name, (name ∈ forgotten → (s.keyCache.keyMap.find? name).isSome) ∧
        (s.gc clock).2.keyCache.keyMap.find? name =
          if name ∈ forgotten then none else s.keyCache.keyMap.find? name := by
  let forgotten : Finset Name := (s.keyCache.keyMap.keys.filter (· ∉ (s.keyCache.gc clock).2.keyMap.keys)).toFinset
  have hcount : (s.gc clock).1 =
      (s.keyCache.keyMap.keys.filter (· ∉ (s.keyCache.gc clock).2.keyMap.keys)).length := by
    by_cases hg : s.keyCache.options.gcInterval = 0
    · have hnone : s.keyCache.keyMap.keys.filter (· ∉ s.keyCache.keyMap.keys) = [] :=
        List.filter_eq_nil_iff.mpr fun name hname => by simp [hname]
      rw [Storage.gc, KeyCache.gc_of_interval_zero hg, hnone]
      rfl
    · exact KeyCache.gc_fst (hindexes hg) clock
  have hmem : ∀ name, name ∈ forgotten ↔
      (s.keyCache.keyMap.find? name).isSome ∧ (s.keyCache.gc clock).2.keyMap.find? name = none := by
    intro name
    simp [forgotten, OrderedMap.mem_keys_iff]
  refine ⟨forgotten, ?_, fun name => ⟨fun hname => ((hmem name).mp hname).1, ?_⟩⟩
  · rw [hcount, List.toFinset_card_of_nodup (s.keyCache.keyMap.keys_nodup.filter _)]
  · have hfind := KeyCache.gc_find? s.keyCache clock name
    change (s.keyCache.gc clock).2.keyMap.find? name = _
    split_ifs with hname
    · exact ((hmem name).mp hname).2
    · rw [hfind]
      split_ifs with hexp
      · rw [if_pos hexp] at hfind
        cases hk : s.keyCache.keyMap.find? name with
        | none => rfl
        | some ka => exact absurd ((hmem name).mpr ⟨by rw [hk]; rfl, hfind⟩) hname
      · rfl

lemma reply_frame {n : ℕ} {s : Storage W} (h : Separate n s) {c : ClientCall} {name : Name} (hc : c.name? = some name) :
    Frame name s (s.reply c).2 := by
  cases c with
  | gc clock => cases hc
  | add clock ok name data =>
    cases hc
    exact frame_add h clock ok name data
  | merge clock ok name data =>
    cases hc
    exact frame_merge h clock ok name data
  | del ok name =>
    cases hc
    exact frame_del h ok name
  | get clock name ts offset limit =>
    cases hc
    exact frame_refl h name

end Storage

end WfcBtp
