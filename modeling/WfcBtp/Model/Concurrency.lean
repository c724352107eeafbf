import WfcBtp.Model.Storage

/-!
# Concurrent calls

An add or a del holds no lock from one call into the cache, key storage or data storage
to the next. Here the calls on one name take turns, and each of these inner calls is one
step. A step of a call that cannot take it changes nothing.
-/

namespace WfcBtp

variable {W : Wrtstat}

/-- A call into key storage or data storage. -/
inductive StorageWrite
  | setKey (upKey : StoredKey)
  | delKey
  | setData (id : KeyId) (ud : AggregatedInfo)
  | incData (id : KeyId) (ud : AggregatedInfo)
  | delData (id : KeyId)

namespace Storage

/-- One write of a call on `name`, which succeeds. -/
def perform (name : Name) (s : Storage W) : StorageWrite → Storage W
  | .setKey upKey => { s with keyStorage := (s.keyStorage.set true name upKey).2 }
  | .delKey => { s with keyStorage := (s.keyStorage.del true name).2 }
  | .setData id ud => { s with dataStorage := (s.dataStorage.set true id ud).2 }
  | .incData id ud => { s with dataStorage := (s.dataStorage.inc W true id ud).2 }
  | .delData id => { s with dataStorage := (s.dataStorage.del allOk 1 id).2 }

/-- The write of one point of an add. -/
def dataWrite (s : Storage W) (isLast : Bool) (id : KeyId) (ud : AggregatedInfo) : StorageWrite :=
  if isLast || s.disableMerge then .setData id ud else .incData id ud

/-- What an add writes after its call into the cache. -/
def addWrites (s : Storage W) (r : CacheResult W) : List StorageWrite :=
  if r.id = badKey then []
  else (if r.isLast then [.setKey r.upKey] else []) ++ r.upData.map (s.dataWrite r.isLast r.id)

/-- What a del writes after its call into the cache. -/
def delWrites (id : KeyId) : List StorageWrite := if id = badKey then [] else [.delKey, .delData id]

end Storage

/-! ### Adds -/

/-- Where an add is after `key_aggregator::add`: before `get_key_info`, which a late add
skips, before the write of the stored key, or writing points. `stamp` counts the
`get_key_info` calls before it. -/
inductive AddPhase
  | aggregated (id : KeyId) (upData : List AggregatedInfo)
  | informed (stamp : ℕ) (upKey : StoredKey) (id : KeyId) (upData : List AggregatedInfo)
  | storing (isLast : Bool) (id : KeyId) (upData : List AggregatedInfo)

def AddPhase.returned : AddPhase → Bool
  | .storing _ _ [] => true
  | _ => false

/-- Adds of one name that run at the same time: the data of those that have their key, and
the others in the order in which they went through the aggregator. -/
structure ConcurrentAdds (W : Wrtstat) where
  storage : Storage W
  entered : List AggregatedData := []
  calls : List AddPhase := []
  informs : ℕ := 0

namespace ConcurrentAdds

/-- The next inner call of one of the adds. -/
inductive Step
  | getOrCreate (clock : ℤ) (data : AggregatedData)
  | aggregate (i : ℕ)
  | getKeyInfo (i : ℕ)
  | setKey (i : ℕ)
  | writeData (i : ℕ)

/-- Nothing evicts or deletes the key here, so the key an add holds is the cached one. -/
def step (name : Name) (c : ConcurrentAdds W) : Step → ConcurrentAdds W
  | .getOrCreate clock data =>
    { c with
      storage := { c.storage with keyCache := (c.storage.keyCache.getOrCreate clock name data.ts).2 }
      entered := c.entered ++ [data] }
  | .aggregate i =>
    match c.entered[i]?, c.storage.keyCache.keyMap.find? name with
    | some data, some ka =>
      let r := ka.add data []
      let id := r.1.getId
      { c with
        storage := { c.storage with keyCache := c.storage.keyCache.putKey name r.1 }
        entered := c.entered.eraseIdx i
        calls := c.calls ++
          [if r.2.2 then .aggregated id r.2.1 else .storing false id (if id = badKey then [] else r.2.1)] }
    | _, _ => c
  | .getKeyInfo i =>
    match c.calls[i]?, c.storage.keyCache.keyMap.find? name with
    | some (.aggregated id upData), some ka =>
      { c with calls := c.calls.set i (.informed c.informs ka.getKeyInfo id upData)
               informs := c.informs + 1 }
    | _, _ => c
  | .setKey i =>
    match c.calls[i]? with
    | some (.informed _ upKey id upData) =>
      if id = badKey then { c with calls := c.calls.set i (.storing true id []) }
      else { c with storage := c.storage.perform name (.setKey upKey)
                    calls := c.calls.set i (.storing true id upData) }
    | _ => c
  | .writeData i =>
    match c.calls[i]? with
    | some (.storing isLast id (ud :: rest)) =>
      { c with storage := c.storage.perform name (c.storage.dataWrite isLast id ud)
               calls := c.calls.set i (.storing isLast id rest) }
    | _ => c

/-- Every add has made its last step. -/
def Returned (c : ConcurrentAdds W) : Prop := c.entered = [] ∧ ∀ call ∈ c.calls, call.returned = true

instance (c : ConcurrentAdds W) : Decidable c.Returned := by
  unfold Returned
  infer_instance

end ConcurrentAdds

/-! ### Adds and dels -/

/-- Adds and dels of one name that run at the same time: what each of them has still to
write, in the order of their calls into the cache. -/
structure AddsAndDels (W : Wrtstat) where
  storage : Storage W
  calls : List (List StorageWrite) := []

namespace AddsAndDels

inductive Step
  | add (clock : ℤ) (data : AggregatedData)
  | del
  | write (i : ℕ)

def step (name : Name) (c : AddsAndDels W) : Step → AddsAndDels W
  | .add clock data =>
    let r := c.storage.keyCache.add clock name data
    { storage := { c.storage with keyCache := r.cache }
      calls := c.calls ++ [c.storage.addWrites r] }
  | .del =>
    let r := c.storage.keyCache.del name
    { storage := { c.storage with keyCache := r.2 }
      calls := c.calls ++ [Storage.delWrites r.1] }
  | .write i =>
    match c.calls[i]? with
    | some (w :: rest) => { storage := c.storage.perform name w, calls := c.calls.set i rest }
    | _ => c

/-- Every call has made its last write. -/
def Returned (c : AddsAndDels W) : Prop := ∀ call ∈ c.calls, call = []

instance (c : AddsAndDels W) : Decidable c.Returned := by
  unfold Returned
  infer_instance

end AddsAndDels

/-! ### A call that runs alone -/

namespace Storage

@[simp] lemma perform_disableMerge (name : Name) (s : Storage W) (w : StorageWrite) :
    (s.perform name w).disableMerge = s.disableMerge := by
  cases w <;> rfl

@[simp] lemma perform_keyCache (name : Name) (s : Storage W) (w : StorageWrite) :
    (s.perform name w).keyCache = s.keyCache := by
  cases w <;> rfl

lemma foldl_perform_setAll (name : Name) (id : KeyId) (ds : List AggregatedInfo) (i : ℕ) (s : Storage W) :
    (ds.map (StorageWrite.setData id)).foldl (perform name) s =
      { s with dataStorage := (setAll allOk id ds i s.dataStorage).2 } := by
  induction ds generalizing i s with
  | nil => rfl
  | cons ud rest ih =>
    rw [List.map_cons, List.foldl_cons, ih (i + 1)]
    rfl

lemma foldl_perform_incAll (name : Name) (id : KeyId) (ds : List AggregatedInfo) (i : ℕ) (s : Storage W) :
    (ds.map (StorageWrite.incData id)).foldl (perform name) s =
      { s with dataStorage := (incAll W allOk id ds i s.dataStorage).2 } := by
  induction ds generalizing i s with
  | nil => rfl
  | cons ud rest ih =>
    rw [List.map_cons, List.foldl_cons, ih (i + 1)]
    rfl

/-- The writes of an add that nothing comes between are those of `add`. -/
theorem foldl_perform_addWrites (s : Storage W) (clock : ℤ) (name : Name) (data : AggregatedData) :
    let r := s.keyCache.add clock name data
    (s.addWrites r).foldl (perform name) { s with keyCache := r.cache } =
      (s.add clock allOk name data).2 := by
  intro r
  have hset : ∀ {isLast : Bool}, (isLast || s.disableMerge) = true →
      s.dataWrite isLast r.id = StorageWrite.setData r.id := by
    intro isLast h
    funext ud
    rw [dataWrite, if_pos h]
  unfold addWrites add storeKeyAndData
  by_cases hid : r.id = badKey
  · rw [if_pos hid, if_pos hid]
    rfl
  · rw [if_neg hid, if_neg hid]
    cases hl : r.isLast with
    | true =>
      rw [hset rfl]
      exact foldl_perform_setAll name r.id r.upData 1 _
    | false =>
      cases hm : s.disableMerge with
      | true =>
        rw [hset (by rw [hm]; rfl)]
        exact foldl_perform_setAll name r.id r.upData 0 _
      | false =>
        have hinc : s.dataWrite false r.id = StorageWrite.incData r.id := by
          funext ud
          rw [dataWrite, hm]
          rfl
        rw [hinc]
        exact foldl_perform_incAll name r.id r.upData 0 _

theorem foldl_perform_delWrites (s : Storage W) (name : Name) :
    let r := s.keyCache.del name
    (delWrites r.1).foldl (perform name) { s with keyCache := r.2 } = (s.del allOk name).2 := by
  intro r
  by_cases h : r.1 = badKey
  · simp only [delWrites, del, h, if_true, r]
    rfl
  · simp only [delWrites, del, h, if_false, r]
    rfl

end Storage

namespace AddsAndDels

lemma foldl_write (name : Name) (writes : List StorageWrite) (s : Storage W) :
    (List.replicate writes.length (Step.write 0)).foldl (step name) { storage := s, calls := [writes] } =
      { storage := writes.foldl (Storage.perform name) s, calls := [[]] } := by
  induction writes generalizing s with
  | nil => rfl
  | cons w rest ih =>
    rw [List.length_cons, List.replicate_succ, List.foldl_cons, List.foldl_cons, ← ih]
    rfl

/-- An add that nothing comes between is `add`. -/
theorem add_alone (s : Storage W) (clock : ℤ) (name : Name) (data : AggregatedData) :
    ((Step.add clock data :: List.replicate (s.addWrites (s.keyCache.add clock name data)).length
      (Step.write 0)).foldl (step name) { storage := s }).storage = (s.add clock allOk name data).2 := by
  rw [← Storage.foldl_perform_addWrites, List.foldl_cons]
  exact congrArg storage (foldl_write name (s.addWrites (s.keyCache.add clock name data))
    { s with keyCache := (s.keyCache.add clock name data).cache })

/-- A del that nothing comes between is `del`. -/
theorem del_alone (s : Storage W) (name : Name) :
    ((Step.del :: List.replicate (Storage.delWrites (s.keyCache.del name).1).length (Step.write 0)).foldl
      (step name) { storage := s }).storage = (s.del allOk name).2 := by
  rw [← Storage.foldl_perform_delWrites, List.foldl_cons]
  exact congrArg storage (foldl_write name (Storage.delWrites (s.keyCache.del name).1)
    { s with keyCache := (s.keyCache.del name).2 })

end AddsAndDels

namespace ConcurrentAdds

lemma foldl_writeData (name : Name) (isLast : Bool) (id : KeyId) (upData : List AggregatedInfo)
    (c : ConcurrentAdds W) :
    (List.replicate upData.length (Step.writeData 0)).foldl (step name)
        { c with calls := [.storing isLast id upData] } =
      { c with storage := (upData.map (c.storage.dataWrite isLast id)).foldl (Storage.perform name) c.storage
               calls := [.storing isLast id []] } := by
  induction upData generalizing c with
  | nil => rfl
  | cons ud rest ih =>
    have hsame : (c.storage.perform name (c.storage.dataWrite isLast id ud)).dataWrite isLast id =
        c.storage.dataWrite isLast id := by
      funext ud'
      simp only [Storage.dataWrite, Storage.perform_disableMerge]
    have h := ih { c with storage := c.storage.perform name (c.storage.dataWrite isLast id ud) }
    rw [hsame] at h
    rw [List.length_cons, List.replicate_succ, List.foldl_cons]
    exact h

lemma foldl_writeData_done (name : Name) (isLast : Bool) (id : KeyId) (n : ℕ) {c : ConcurrentAdds W}
    (h : c.calls = [.storing isLast id []]) :
    (List.replicate n (Step.writeData 0)).foldl (step name) c = c := by
  induction n with
  | zero => rfl
  | succ n ih =>
    have hstep : step name c (.writeData 0) = c := by simp [step, h]
    rw [List.replicate_succ, List.foldl_cons, hstep, ih]

/-- An add that nothing comes between is `add`. -/
theorem add_alone (s : Storage W) (clock : ℤ) (name : Name) (data : AggregatedData) :
    ((Step.getOrCreate clock data :: .aggregate 0 :: .getKeyInfo 0 :: .setKey 0 ::
      List.replicate (s.keyCache.add clock name data).upData.length (Step.writeData 0)).foldl (step name)
        { storage := s }).storage = (s.add clock allOk name data).2 := by
  let r := s.keyCache.add clock name data
  let s' := { s with keyCache := r.cache }
  rw [← Storage.foldl_perform_addWrites]
  have hfind : (s.keyCache.getOrCreate clock name data.ts).2.keyMap.find? name =
      some (s.keyCache.keyOrNew name data.ts) := by
    rw [KeyCache.getOrCreate_find?, if_pos rfl]
  have hcached : r.cache.keyMap.find? name = some ((s.keyCache.keyOrNew name data.ts).add data []).1 := by
    rw [KeyCache.add_find?, if_pos rfl]
  have haggregate : [Step.getOrCreate clock data, .aggregate 0].foldl (step name) { storage := s } =
      { storage := s'
        calls := [if r.isLast then .aggregated r.id r.upData
          else .storing false r.id (if r.id = badKey then [] else r.upData)] } := by
    simp [step, hfind, s', r, KeyCache.add, KeyCache.getOrCreate_fst]
  change ((List.replicate r.upData.length (Step.writeData 0)).foldl (step name)
    (step name (step name ([Step.getOrCreate clock data, .aggregate 0].foldl (step name) { storage := s })
      (.getKeyInfo 0)) (.setKey 0))).storage = (s.addWrites r).foldl (Storage.perform name) s'
  rw [haggregate]
  cases hl : r.isLast with
  | false =>
    have hskip : ∀ upData, step name (step name { storage := s', calls := [.storing false r.id upData] }
        (.getKeyInfo 0)) (.setKey 0) = { storage := s', calls := [.storing false r.id upData] } :=
      fun _ => rfl
    rw [if_neg Bool.false_ne_true, hskip]
    by_cases hid : r.id = badKey
    · rw [if_pos hid, foldl_writeData_done name false r.id _ rfl, Storage.addWrites, if_pos hid]
      rfl
    · rw [if_neg hid, Storage.addWrites, if_neg hid, hl]
      exact congrArg storage (foldl_writeData name false r.id r.upData { storage := s' })
  | true =>
    have hkey : r.upKey = ((s.keyCache.keyOrNew name data.ts).add data []).1.getKeyInfo := by
      have hlast : ((s.keyCache.keyOrNew name data.ts).add data []).2.2 = true := by
        rw [← KeyCache.getOrCreate_fst s.keyCache clock]
        exact hl
      simp only [r, KeyCache.add, KeyCache.getOrCreate_fst, hlast, if_true]
    have hinform : step name { storage := s', calls := [.aggregated r.id r.upData] } (.getKeyInfo 0) =
        { storage := s', calls := [.informed 0 r.upKey r.id r.upData], informs := 1 } := by
      have hfind' : s'.keyCache.keyMap.find? name = _ := hcached
      simp [step, hfind', hkey]
    rw [if_pos rfl, hinform]
    by_cases hid : r.id = badKey
    · have hset : step name { storage := s', calls := [.informed 0 r.upKey r.id r.upData], informs := 1 }
          (.setKey 0) = { storage := s', calls := [.storing true r.id []], informs := 1 } := by
        simp [step, hid]
      rw [hset, foldl_writeData_done name true r.id _ rfl, Storage.addWrites, if_pos hid]
      rfl
    · have hset : step name { storage := s', calls := [.informed 0 r.upKey r.id r.upData], informs := 1 }
          (.setKey 0) = { storage := s'.perform name (.setKey r.upKey)
                          calls := [.storing true r.id r.upData], informs := 1 } := by
        simp [step, hid]
      rw [hset, Storage.addWrites, if_neg hid, hl]
      exact congrArg storage (foldl_writeData name true r.id r.upData
        { storage := s'.perform name (.setKey r.upKey), informs := 1 })

end ConcurrentAdds

end WfcBtp
