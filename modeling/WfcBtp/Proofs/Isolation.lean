import WfcBtp.Library.Unwinding
import WfcBtp.Proofs.CallsReturn
import WfcBtp.Proofs.Frames
import WfcBtp.Proofs.KeyInfoMaxima

/-!
# Names do not affect each other

All names share the counter of ids, the cache with its time indexes, the databases and
their shards. A client that looks at one name cannot tell that there are others: its
answers are those it would get if nobody used any other name.
-/

namespace WfcBtp
open Library

variable {W : Wrtstat}

/-! ### Writes under another id -/

/-- The write under another id. -/
def DataWrite.withId (id : KeyId) : DataWrite → DataWrite
  | .set ok _ data => .set ok id data
  | .inc ok _ data => .inc ok id data
  | .del ok i _ => .del ok i id

namespace DataStorage

/-- The points under an id of one storage are those under an id of the other. -/
def SameRow (s : DataStorage) (id : KeyId) (s' : DataStorage) (id' : KeyId) : Prop :=
  ∀ t, s.point? id t = s'.point? id' t

lemma SameRow.points {s s' : DataStorage} {id id' : KeyId} (h : SameRow s id s' id') (ts : ℤ) :
    s.points id ts = s'.points id' ts := by
  apply eq_of_ascending (s.points_ascending id ts) (s'.points_ascending id' ts)
  intro t p
  rw [mem_points_iff, mem_points_iff, h]

/-- The same write under either id. -/
lemma SameRow.write {s s' : DataStorage} {w : DataWrite} {id' : KeyId} (h : SameRow s w.id s' id') :
    SameRow (s.write W w) w.id (s'.write W (w.withId id')) id' := by
  intro t
  cases w with
  | set ok id data =>
    cases ok with
    | false => simp only [DataWrite.withId, DataStorage.write, set_false, h t]
    | true =>
      have ht := h t
      simp only [DataWrite.id] at ht
      simp only [DataWrite.id, DataWrite.withId, DataStorage.write, point?_set, true_and, ht]
  | inc ok id data =>
    cases ok with
    | false => simp only [DataWrite.withId, DataStorage.write, inc_false, h t]
    | true =>
      simp only [SameRow, DataWrite.id] at h
      simp only [DataWrite.id, DataWrite.withId, DataStorage.write, point?_inc, true_and, h]
  | del ok i id =>
    have ht := h t
    have hpoints := h.points 0
    simp only [DataWrite.id] at ht hpoints
    simp only [DataWrite.id, DataWrite.withId, DataStorage.write, point?_del_erased, true_and, ht, hpoints]

lemma SameRow.foldl_write {writes : List DataWrite} {id id' : KeyId} (hid : ∀ w ∈ writes, w.id = id)
    {s s' : DataStorage} (h : SameRow s id s' id') :
    SameRow (writes.foldl (DataStorage.write W) s) id
      ((writes.map (DataWrite.withId id')).foldl (DataStorage.write W) s') id' := by
  induction writes generalizing s s' with
  | nil => exact h
  | cons w rest ih =>
    have hw : w.id = id := hid w List.mem_cons_self
    rw [List.foldl_cons, List.map_cons, List.foldl_cons]
    apply ih fun w' hw' => hid w' (List.mem_cons_of_mem w hw')
    rw [← hw] at h ⊢
    exact h.write

end DataStorage

/-! ### What a key holds -/

namespace KeyAggregator

/-- A key without its id and its mutex. -/
def content (ka : KeyAggregator W) : StoredValues × W.Aggregator × Bool :=
  (ka.keyInfo.toStoredValues, ka.aggregator, ka.aggregateLastPoint)

lemma foldl_updateInfo_values (points : List AggregatedInfo) {ki ki' : StoredKey}
    (h : ki.toStoredValues = ki'.toStoredValues) :
    (points.foldl updateInfo ki).toStoredValues = (points.foldl updateInfo ki').toStoredValues := by
  have hki : ki' = { ki with id := ki'.id } := by
    cases ki
    cases ki'
    cases h
    rfl
  have hfold := foldl_updateInfo_with_id points ki ki'.id
  rw [hki, hfold]

lemma content_add {ka ka' : KeyAggregator W} (h : ka.content = ka'.content) (data : AggregatedData) :
    (ka.add data []).1.content = (ka'.add data []).1.content ∧ (ka.add data []).2 = (ka'.add data []).2 := by
  obtain ⟨hinfo, hag, hlast⟩ := by simpa only [content, Prod.mk.injEq] using h
  have hlate : ka.isLate data.ts ↔ ka'.isLate data.ts := by rw [isLate, isLate, hag]
  by_cases hl : ka.isLate data.ts
  · rw [add_of_late hl, add_of_late (hlate.mp hl)]
    exact ⟨h, rfl⟩
  · rw [add_of_not_late hl, add_of_not_late fun hl' => hl (hlate.mpr hl')]
    have hpoints : ka.currentPoints data = ka'.currentPoints data := by
      simp only [currentPoints, hag, hlast]
    have hcurrent : ka.currentAggregator data = ka'.currentAggregator data := by
      simp only [currentAggregator, hag, hlast]
    simp only [content, hpoints, hcurrent, hlast, foldl_updateInfo_values _ hinfo, and_self]

lemma merge_snd_eq (data upData : List AggregatedInfo) (ka ka' : KeyAggregator W) :
    (ka.merge upData data).2 = (ka'.merge upData data).2 := by
  induction data generalizing ka ka' upData with
  | nil => rfl
  | cons d rest ih => exact ih _ _ _

lemma content_merge {ka ka' : KeyAggregator W} (h : ka.content = ka'.content) (data : List AggregatedInfo) :
    (ka.merge [] data).1.content = (ka'.merge [] data).1.content := by
  obtain ⟨hinfo, hag, hlast⟩ := by simpa only [content, Prod.mk.injEq] using h
  rw [merge_keyInfo, merge_keyInfo]
  simp only [content, hag, hlast, foldl_updateInfo_values _ hinfo]

end KeyAggregator

namespace KeyCache

lemma del_time_self (c : KeyCache W) (name : Name) :
    (c.del name).2.keyTimeMap.find? name =
      if (c.keyMap.find? name).isSome ∧ c.options.gcInterval ≠ 0 then none else c.keyTimeMap.find? name := by
  unfold del
  cases c.keyMap.find? name with
  | none => rfl
  | some ka =>
    dsimp only
    split_ifs with hg hboth hboth
    · split
      · exact (OrderedMap.find?_erase _ _ _).trans (if_pos rfl)
      · assumption
    · exact absurd ⟨rfl, hg⟩ hboth
    · exact absurd hboth.2 hg
    · rfl

lemma gc_time {c : KeyCache W} (clock : ℤ) (name : Name) :
    (c.gc clock).2.keyTimeMap.find? name =
      if name ∈ (c.expired clock).map (fun p => (ofLex p).2) then none else c.keyTimeMap.find? name := by
  rw [(c.gc_eq clock).1]
  exact gcLoop_keyTime _ _ _ _

end KeyCache

/-! ### What a client sees -/

/-- The call is about the name, or a cleanup. -/
def ClientCall.concerns (name : Name) (c : ClientCall) : Bool := c.name? = some name ∨ c.name? = none

/-- The status, but for the id that an error text names. -/
def Status.withoutId : Status → Status
  | .error (.dataPut _ ts) => .error (.dataPut 0 ts)
  | status => status

/-- What the client of a name sees of an answer: nothing of a cleanup, and no ids. -/
def ClientAnswer.seen : ClientAnswer → Option ClientAnswer
  | .returned status => some (.returned status.withoutId)
  | .points result => some (.points result)
  | .evicted _ => none

namespace Storage

/-! ### Two storages that are the same to the client of a name -/

structure SameFor (name : Name) (s s' : Storage W) : Prop where
  options : s.keyCache.options = s'.keyCache.options
  disableMerge : s.disableMerge = s'.disableMerge
  times : s.ttl = s'.ttl ∧ s.resolution = s'.resolution
  resultLimit : ∀ id id', (s.dataStorage.getDb id).resultLimit = (s'.dataStorage.getDb id').resultLimit
  key : (s.keyCache.keyMap.find? name).map KeyAggregator.content =
    (s'.keyCache.keyMap.find? name).map KeyAggregator.content
  time : s.keyCache.keyTimeMap.find? name = s'.keyCache.keyTimeMap.find? name
  row : DataStorage.SameRow s.dataStorage (s.keyId name) s'.dataStorage (s'.keyId name)

namespace SameFor

variable {name : Name} {n m : ℕ} {s s' s₁ s₁' : Storage W}

lemma find_none_iff (h : SameFor name s s') :
    s.keyCache.keyMap.find? name = none ↔ s'.keyCache.keyMap.find? name = none := by
  rw [← Option.map_eq_none_iff, h.key, Option.map_eq_none_iff]

/-- A call on another name, on one side. -/
lemma other (h : SameFor name s s') (hs : Separate (n + 1) s) (hs' : Separate m s') {other : Name}
    (hf : Frame other s s₁) (hne : name ≠ other) : SameFor name s₁ s' := by
  have hfind := hf.find name hne
  obtain ⟨writes, hwrites, hid⟩ := hf.data
  refine
    { options := hf.options.trans h.options
      disableMerge := hf.disableMerge.trans h.disableMerge
      times := ⟨hf.times.1.trans h.times.1, hf.times.2.trans h.times.2⟩
      resultLimit := fun id id' => ?_
      key := by rw [hfind, h.key]
      time := (hf.time name hne).trans h.time
      row := fun t => ?_ }
  · rw [hwrites, DataStorage.foldl_write_resultLimit]
    exact h.resultLimit id id'
  · cases hk : s.keyCache.keyMap.find? name with
    | none =>
      rw [(hs.frame hf).points_none (hfind.trans hk), hs'.points_none (h.find_none_iff.mp hk)]
    | some ka =>
      have hkeyId : s₁.keyId name = s.keyId name := by
        rw [keyId_of_some hk, keyId_of_some (hfind.trans hk)]
      rw [hkeyId, ← h.row t, keyId_of_some hk]
      exact congrFun (hf.point? hs hk hne) t

/-- A call on the name, on both sides, with the same writes under the ids of the name. -/
lemma both (h : SameFor name s s') (hs : Separate (n + 1) s) (hs' : Separate (m + 1) s')
    (hf : Frame name s s₁) (hf' : Frame name s' s₁')
    (hkey : (s₁.keyCache.keyMap.find? name).map KeyAggregator.content =
      (s₁'.keyCache.keyMap.find? name).map KeyAggregator.content)
    (htime : s₁.keyCache.keyTimeMap.find? name = s₁'.keyCache.keyTimeMap.find? name)
    {writes : List DataWrite} (hid : ∀ w ∈ writes, w.id = s.keyId name)
    (hwrites : s₁.dataStorage = writes.foldl (DataStorage.write W) s.dataStorage)
    (hwrites' : s₁'.dataStorage =
      (writes.map (DataWrite.withId (s'.keyId name))).foldl (DataStorage.write W) s'.dataStorage) :
    SameFor name s₁ s₁' := by
  refine
    { options := hf.options.trans (h.options.trans hf'.options.symm)
      disableMerge := hf.disableMerge.trans (h.disableMerge.trans hf'.disableMerge.symm)
      times := ⟨hf.times.1.trans (h.times.1.trans hf'.times.1.symm),
        hf.times.2.trans (h.times.2.trans hf'.times.2.symm)⟩
      resultLimit := fun id id' => ?_
      key := hkey
      time := htime
      row := ?_ }
  · rw [hwrites, hwrites', DataStorage.foldl_write_resultLimit, DataStorage.foldl_write_resultLimit]
    exact h.resultLimit id id'
  · cases hk : s₁.keyCache.keyMap.find? name with
    | none =>
      have hk' : s₁'.keyCache.keyMap.find? name = none := by
        rw [← Option.map_eq_none_iff, ← hkey, hk]
        rfl
      intro t
      rw [(hs.frame hf).points_none hk, (hs'.frame hf').points_none hk']
    | some ka =>
      have hkeyId : ∀ {u u₁ : Storage W}, Frame name u u₁ → u₁.keyCache.keyMap.find? name ≠ none →
          u₁.keyId name = u.keyId name := by
        intro u u₁ hfu hne
        obtain ⟨⟨kb, hkb, hb⟩, -⟩ := hfu.key.resolve_left fun hnone => hne hnone.1
        rw [keyId_of_some hkb, hb]
      have hne : s₁.keyCache.keyMap.find? name ≠ none := by simp [hk]
      have hne' : s₁'.keyCache.keyMap.find? name ≠ none := by
        rw [Ne, ← Option.map_eq_none_iff, ← hkey, hk]
        simp
      rw [hkeyId hf hne, hkeyId hf' hne', hwrites, hwrites']
      exact h.row.foldl_write hid

lemma keyOrNew_content (h : SameFor name s s') (ts : ℤ) :
    (s.keyCache.keyOrNew name ts).content = (s'.keyCache.keyOrNew name ts).content := by
  cases hk : s.keyCache.keyMap.find? name with
  | none =>
    rw [KeyCache.keyOrNew_of_none ts hk, KeyCache.keyOrNew_of_none ts (h.find_none_iff.mp hk), ← h.options]
    rfl
  | some ka =>
    have hkey := h.key
    rw [hk, Option.map_some, eq_comm, Option.map_eq_some_iff] at hkey
    obtain ⟨kb, hk', hcontent⟩ := hkey
    rw [KeyCache.keyOrNew_of_some ts hk, KeyCache.keyOrNew_of_some ts hk', hcontent]

lemma getOrCreate_time (h : SameFor name s s') (clock nowTs : ℤ) :
    (s.keyCache.getOrCreate clock name nowTs).2.keyTimeMap.find? name =
      (s'.keyCache.getOrCreate clock name nowTs).2.keyTimeMap.find? name := by
  rw [KeyCache.getOrCreate_time, KeyCache.getOrCreate_time, h.options, h.time]

end SameFor

/-! ### Statuses -/

lemma setWrites_map_withId (ok : Outcomes) (id id' : KeyId) (l : List AggregatedInfo) (i : ℕ) :
    (setWrites ok id l i).map (DataWrite.withId id') = setWrites ok id' l i := by
  induction l generalizing i with
  | nil => rfl
  | cons ud rest ih =>
    rw [setWrites, setWrites, List.map_cons, apply_ite (List.map _), ih]
    rfl

lemma incWrites_map_withId (ok : Outcomes) (id id' : KeyId) (l : List AggregatedInfo) (i : ℕ) :
    (incWrites ok id l i).map (DataWrite.withId id') = incWrites ok id' l i := by
  induction l generalizing i with
  | nil => rfl
  | cons ud rest ih =>
    rw [incWrites, incWrites, List.map_cons, apply_ite (List.map _), ih]
    rfl

lemma setAll_withoutId (ok : Outcomes) (id id' : KeyId) (l : List AggregatedInfo) (i : ℕ) (ds ds' : DataStorage) :
    (setAll ok id l i ds).1.withoutId = (setAll ok id' l i ds').1.withoutId := by
  induction l generalizing i ds ds' with
  | nil => rfl
  | cons ud rest ih =>
    rw [setAll, setAll]
    cases ok i with
    | false => rfl
    | true => exact ih _ _ _

lemma incAll_withoutId (ok : Outcomes) (id id' : KeyId) (l : List AggregatedInfo) (i : ℕ) (ds ds' : DataStorage) :
    (incAll W ok id l i ds).1.withoutId = (incAll W ok id' l i ds').1.withoutId := by
  induction l generalizing i ds ds' with
  | nil => rfl
  | cons ud rest ih =>
    rw [incAll, incAll]
    cases ok i with
    | false => rfl
    | true => exact ih _ _ _

lemma storeKeyAndData_withoutId {s s' : Storage W} {r r' : CacheResult W} (ok : Outcomes) (name : Name)
    (h : r.upData = r'.upData) :
    (s.storeKeyAndData ok name r).1.withoutId = (s'.storeKeyAndData ok name r').1.withoutId := by
  unfold storeKeyAndData KeyStorage.set
  cases ok 0 with
  | false => rfl
  | true =>
    simp only [h, if_true]
    exact setAll_withoutId _ _ _ _ _ _ _

/-! ### A call on the name itself -/

namespace SameFor

variable {name : Name} {n m : ℕ} {s s' : Storage W}

lemma add (h : SameFor name s s') (hs : Separate (n + 1) s) (hs' : Separate (m + 1) s') (clock : ℤ) (ok : Outcomes)
    (data : AggregatedData) :
    (s.add clock ok name data).1.withoutId = (s'.add clock ok name data).1.withoutId ∧
      SameFor name (s.add clock ok name data).2 (s'.add clock ok name data).2 := by
  have hid := hs.keyId_ne_badKey name
  have hid' := hs'.keyId_ne_badKey name
  obtain ⟨hcontent, hrest⟩ := KeyAggregator.content_add (h.keyOrNew_content data.ts) data
  change (s.addKey name data).2 = (s'.addKey name data).2 at hrest
  constructor
  · unfold Storage.add
    rw [add_result s, add_result s']
    simp only [if_neg hid, if_neg hid', hrest, h.disableMerge]
    split_ifs
    · exact storeKeyAndData_withoutId ok name rfl
    · exact setAll_withoutId _ _ _ _ _ _ _
    · exact incAll_withoutId _ _ _ _ _ _ _
  · refine h.both hs hs' (frame_add hs clock ok name data) (frame_add hs' clock ok name data) ?_ ?_
      (s.addDataWrites_id ok name data) (add_dataStorage s clock ok name data) ?_
    · rw [add_find?, add_find?, if_pos rfl, if_pos rfl]
      exact congrArg some hcontent
    · rw [add_keyCache, add_keyCache]
      exact h.getOrCreate_time clock data.ts
    · rw [add_dataStorage]
      simp only [addDataWrites, if_neg hid, if_neg hid', hrest, h.disableMerge]
      split_ifs
      · rw [setWrites_map_withId]
      · rfl
      · rw [setWrites_map_withId]
      · rw [incWrites_map_withId]

lemma merge (h : SameFor name s s') (hs : Separate (n + 1) s) (hs' : Separate (m + 1) s') (clock : ℤ) (ok : Outcomes)
    (data : List AggregatedInfo) :
    (s.merge clock ok name data).1.withoutId = (s'.merge clock ok name data).1.withoutId ∧
      SameFor name (s.merge clock ok name data).2 (s'.merge clock ok name data).2 := by
  by_cases hdata : data = []
  · rw [hdata, merge_nil, merge_nil]
    exact ⟨rfl, h⟩
  have hid := hs.keyId_ne_badKey name
  have hid' := hs'.keyId_ne_badKey name
  have hcontent := KeyAggregator.content_merge (h.keyOrNew_content (lastTs data)) data
  have hrest : (s.mergeKey name data).2 = (s'.mergeKey name data).2 := KeyAggregator.merge_snd_eq data [] _ _
  constructor
  · rw [merge_eq s clock name hdata, merge_eq s' clock name hdata]
    simp only [if_neg hid, if_neg hid']
    apply storeKeyAndData_withoutId
    rw [merge_result s clock name hdata, merge_result s' clock name hdata, hrest]
  · refine h.both hs hs' (frame_merge hs clock ok name data) (frame_merge hs' clock ok name data) ?_ ?_
      (s.mergeDataWrites_id ok name data) (merge_dataStorage s clock ok name data) ?_
    · rw [merge_find? s ok hdata, merge_find? s' ok hdata, if_pos rfl, if_pos rfl]
      exact congrArg some hcontent
    · rw [merge_keyCache s ok hdata, merge_keyCache s' ok hdata, merge_result s clock name hdata,
        merge_result s' clock name hdata]
      exact h.getOrCreate_time clock (lastTs data)
    · rw [merge_dataStorage]
      simp only [mergeDataWrites, hdata, hid, hid', or_self, if_false, hrest]
      split_ifs
      · rw [setWrites_map_withId]
      · rfl

lemma del (h : SameFor name s s') (hs : Separate (n + 1) s) (hs' : Separate (m + 1) s') (ok : Outcomes) :
    (s.del ok name).1.withoutId = (s'.del ok name).1.withoutId ∧
      SameFor name (s.del ok name).2 (s'.del ok name).2 := by
  have hid := hs.keyId_ne_badKey name
  have hid' := hs'.keyId_ne_badKey name
  have hsome : (s.keyCache.keyMap.find? name).isSome = (s'.keyCache.keyMap.find? name).isSome := by
    rw [← Option.isSome_map, h.key, Option.isSome_map]
  constructor
  · unfold Storage.del
    dsimp only
    rw [del_fst_eq hs, del_fst_eq hs', ← hsome]
    cases (s.keyCache.keyMap.find? name).isSome with
    | false => rfl
    | true =>
      simp only [if_true, if_neg hid, if_neg hid', KeyStorage.del]
      cases ok 0 with
      | false => rfl
      | true =>
        simp only [if_true, DataStorage.del_status_eq]
        rw [h.row.points 0]
  · refine h.both hs hs' (frame_del hs ok name) (frame_del hs' ok name) ?_ ?_ (s.delDataWrites_id ok name)
      (del_dataStorage hs ok name) ?_
    · rw [del_keyCache, del_keyCache, KeyCache.del_find?, KeyCache.del_find?, if_pos rfl, if_pos rfl]
    · rw [del_keyCache, del_keyCache, KeyCache.del_time_self, KeyCache.del_time_self, hsome, h.options, h.time]
    · rw [del_dataStorage hs']
      simp only [delDataWrites, ← hsome, ne_eq, hid, hid', not_false_eq_true, true_and]
      split_ifs <;> rfl

lemma get (h : SameFor name s s') (hs : Separate (n + 1) s) (hs' : Separate (m + 1) s') (clock ts : ℤ)
    (offset limit : ℕ) : s.get clock name ts offset limit = s'.get clock name ts offset limit := by
  have hgetId : ∀ u : Storage W, u.keyCache.getId name =
      if u.keyCache.keyMap.find? name = none then badKey else u.keyId name := by
    intro u
    unfold KeyCache.getId keyId
    cases u.keyCache.keyMap.find? name <;> rfl
  unfold Storage.get
  rw [hgetId s, hgetId s', ← h.times.1, ← h.times.2]
  by_cases hk : s.keyCache.keyMap.find? name = none
  · rw [if_pos hk, if_pos (h.find_none_iff.mp hk)]
    rfl
  · rw [if_neg hk, if_neg (h.find_none_iff.not.mp hk), if_neg (hs.keyId_ne_badKey name),
      if_neg (hs'.keyId_ne_badKey name)]
    dsimp only
    rw [(DataStorage.get_eq _ _ _ _ _).1, (DataStorage.get_eq _ _ _ _ _).1,
      h.row.points, h.resultLimit (s.keyId name) (s'.keyId name)]

lemma gc (h : SameFor name s s') (hs : Separate n s) (hs' : Separate m s') (clock : ℤ) :
    SameFor name (s.gc clock).2 (s'.gc clock).2 := by
  have hexpired : name ∈ (s.keyCache.expired clock).map (fun p => (ofLex p).2) ↔
      name ∈ (s'.keyCache.expired clock).map fun p => (ofLex p).2 := by
    by_cases hg : s.keyCache.options.gcInterval = 0
    · have hg' : s'.keyCache.options.gcInterval = 0 := h.options ▸ hg
      rw [KeyCache.expired, KeyCache.expired, if_pos hg, if_pos hg']
    · have hg' : s'.keyCache.options.gcInterval ≠ 0 := h.options ▸ hg
      rw [(hs.indexes hg).mem_expired_iff hg, (hs'.indexes hg').mem_expired_iff hg', h.time, h.options]
  have hkey : ((s.gc clock).2.keyCache.keyMap.find? name).map KeyAggregator.content =
      ((s'.gc clock).2.keyCache.keyMap.find? name).map KeyAggregator.content := by
    simp only [Storage.gc, KeyCache.gc_find?, ← hexpired]
    split_ifs
    · rfl
    · exact h.key
  refine
    { options := ?_
      disableMerge := h.disableMerge
      times := h.times
      resultLimit := h.resultLimit
      key := hkey
      time := ?_
      row := ?_ }
  · simp only [Storage.gc, KeyCache.gc_options]
    exact h.options
  · simp only [Storage.gc, KeyCache.gc_time, ← hexpired, h.time]
  · cases hk : (s.gc clock).2.keyCache.keyMap.find? name with
    | none =>
      have hk' : (s'.gc clock).2.keyCache.keyMap.find? name = none := by
        rw [← Option.map_eq_none_iff, ← hkey, hk]
        rfl
      intro t
      rw [(hs.gc clock).points_none hk, (hs'.gc clock).points_none hk']
    | some ka =>
      have hkeyId : ∀ u : Storage W, (u.gc clock).2.keyCache.keyMap.find? name ≠ none →
          (u.gc clock).2.keyId name = u.keyId name := by
        intro u hne
        have hfind := KeyCache.gc_find? u.keyCache clock name
        change (u.gc clock).2.keyCache.keyMap.find? name = _ at hfind
        rw [hfind] at hne
        rw [if_neg fun hexp => hne (if_pos hexp)] at hfind
        unfold keyId
        rw [hfind, Storage.gc, KeyCache.gc_keyCounter]
      have hne : (s.gc clock).2.keyCache.keyMap.find? name ≠ none := by simp [hk]
      have hne' : (s'.gc clock).2.keyCache.keyMap.find? name ≠ none := by
        rw [Ne, ← Option.map_eq_none_iff, ← hkey, hk]
        simp
      rw [hkeyId s hne, hkeyId s' hne']
      exact h.row

end SameFor

/-! ### Runs -/

lemma reply_both {n m : ℕ} {s s' : Storage W} {name : Name} (h : SameFor name s s') (hs : Separate (n + 1) s)
    (hs' : Separate (m + 1) s') {c : ClientCall} (hc : c.concerns name = true) :
    (s.reply c).1.seen = (s'.reply c).1.seen ∧ SameFor name (s.reply c).2 (s'.reply c).2 := by
  have hname : ∀ {name' : Name}, (some name' = some name ∨ some name' = none) → name' = name :=
    fun hor => Option.some.inj (hor.resolve_right (by simp))
  have hc := of_decide_eq_true hc
  cases c with
  | gc clock => exact ⟨rfl, h.gc hs hs' clock⟩
  | add clock ok name' data =>
    obtain rfl := hname hc
    obtain ⟨hstatus, hnext⟩ := h.add hs hs' clock ok data
    exact ⟨congrArg (fun status => some (ClientAnswer.returned status)) hstatus, hnext⟩
  | merge clock ok name' data =>
    obtain rfl := hname hc
    obtain ⟨hstatus, hnext⟩ := h.merge hs hs' clock ok data
    exact ⟨congrArg (fun status => some (ClientAnswer.returned status)) hstatus, hnext⟩
  | del ok name' =>
    obtain rfl := hname hc
    obtain ⟨hstatus, hnext⟩ := h.del hs hs' ok
    exact ⟨congrArg (fun status => some (ClientAnswer.returned status)) hstatus, hnext⟩
  | get clock name' ts offset limit =>
    obtain rfl := hname hc
    exact ⟨congrArg (fun points => some (ClientAnswer.points points)) (h.get hs hs' clock ts offset limit), h⟩

lemma unwinds (W : Wrtstat) (name : Name) :
    Unwinds (reply (W := W)) (fun _ => True) (ClientCall.concerns name) (fun _ a => a.seen) Separate (SameFor name) where
  next _ _ c h := h.reply c
  fewer _ _ h := h.fewer
  seen _ _ _ _ _ hs hs' h hc := reply_both h hs hs' hc
  unseen n s s' c hs hs' h hc := by
    have hother := of_decide_eq_false hc
    cases hcn : c.name? with
    | none => exact absurd (.inr hcn) hother
    | some other =>
      refine h.other hs hs' (reply_frame hs hcn) fun hname => hother (.inl ?_)
      rw [hcn, hname]

/-- Whatever calls are made on other names, and whichever of their writes fail: every call returns,
and the calls on a name, and the cleanups, are answered as if those were the only ones. -/
theorem names_isolated (W : Wrtstat) (opt : StorageOptions) (clock : ℤ) (hashSize resultLimit : ℕ) (name : Name)
    (calls : List ClientCall) (hids : calls.length < badKey) {room : ℕ}
    (hbounded : Bounded room opt resultLimit calls) :
    RunMeets (fun s c => (s.reply c).2) (Answers room) (Storage.fresh W opt clock hashSize resultLimit) calls ∧
      seenAnswers reply (ClientCall.concerns name) (fun _ a => a.seen) (Storage.fresh W opt clock hashSize resultLimit)
          calls =
        seenAnswers reply (ClientCall.concerns name) (fun _ a => a.seen)
          (Storage.fresh W opt clock hashSize resultLimit) (calls.filter (ClientCall.concerns name)) := by
  refine ⟨hbounded.run_answers W clock hashSize, ?_⟩
  have hfresh := Separate.fresh W opt clock hashSize resultLimit hids
  refine (unwinds W name).seenAnswers_filter (fun _ _ => trivial) hfresh hfresh ?_
  exact ⟨rfl, rfl, ⟨rfl, rfl⟩, fun _ _ => rfl, rfl, rfl, fun _ => rfl⟩

/-- The second name works under id 2, and without the first one under id 1. One of its writes
fails, and the cleanup evicts the first. -/
theorem names_isolated_from_first :
    let W := Wrtstat.reference 5 false
    let opt : StorageOptions := { keyCache := { aggregateLastPoint := true, ttl := 10, gcInterval := 1, resolution := 1 } }
    let start := Storage.fresh W opt 0 4 10
    let calls : List ClientCall := [.add 0 allOk [97] { ts := 7, count := 1 },
      .add 1 allOk [98] { ts := 7, count := 2 }, .del (fun _ => false) [97],
      .merge 2 allOk [97] [{ ts := 5, count := 9 }], .add 9 (fun i => i == 0) [98] { ts := 11, count := 3 },
      .get 9 [98] 1 0 0, .gc 15, .get 15 [97] 1 0 0, .get 15 [98] 1 0 0]
    (seenAnswers reply (ClientCall.concerns [98]) (fun _ a => a.seen) start calls).length = 5 ∧
      seenAnswers reply (ClientCall.concerns [98]) (fun _ a => a.seen) start calls =
        seenAnswers reply (ClientCall.concerns [98]) (fun _ a => a.seen) start
          (calls.filter (ClientCall.concerns [98])) := by
  intro W opt start calls
  constructor
  · decide +kernel
  · refine (names_isolated W opt 0 4 10 [98] calls (by decide) ⟨by decide, le_refl 10, ?_⟩).2
    intro clock name offset limit hmem
    simp [calls] at hmem

end Storage

end WfcBtp
