import WfcBtp.Library.Runs
import WfcBtp.Proofs.DataRows

/-!
# What the calls write

The effect of a call whose database writes succeed, on the points stored under one id and
on the stored key of one name.
-/

namespace WfcBtp

variable {W : Wrtstat}

/-- The points of one id. -/
abbrev Points := ℤ → Option AggregatedInfo

def setPoint (pts : Points) (d : AggregatedInfo) : Points :=
  fun t => if t = d.ts then some d else pts t

def incPoint (W : Wrtstat) (pts : Points) (d : AggregatedInfo) : Points :=
  fun t => if t = d.ts then some (DataRocksdb.mergeOperator W (pts d.ts) d) else pts t

/-- The points an add hands on, written the way `is_last` selects. -/
def writePoints (W : Wrtstat) (disableMerge isLast : Bool) (pts : Points) (ds : List AggregatedInfo) :
    Points :=
  if isLast || disableMerge then ds.foldl setPoint pts else ds.foldl (incPoint W) pts

/-- The count stored at a time, if there is a point. -/
def countAt? (pts : Points) (t : ℤ) : Option ℕ := (pts t).map (·.count)

/-- A write of a point, as far as its count goes. -/
structure CountWrite where
  replaces : Bool
  ts : ℤ
  count : ℕ
  deriving DecidableEq, Repr

def applyCount (f : ℤ → Option ℕ) (w : CountWrite) : ℤ → Option ℕ :=
  fun t => if t = w.ts then some (if w.replaces then w.count else (f t).getD 0 + w.count) else f t

def toWrite (replaces : Bool) (d : AggregatedInfo) : CountWrite := ⟨replaces, d.ts, d.count⟩

lemma countAt?_setPoint (pts : Points) (d : AggregatedInfo) :
    countAt? (setPoint pts d) = applyCount (countAt? pts) (toWrite true d) := by
  funext t
  by_cases h : t = d.ts
  · simp [countAt?, setPoint, applyCount, toWrite, h]
  · simp [countAt?, setPoint, applyCount, toWrite, h]

lemma countAt?_incPoint (hC : W.CombinesCounts) (pts : Points) (d : AggregatedInfo) :
    countAt? (incPoint W pts d) = applyCount (countAt? pts) (toWrite false d) := by
  funext t
  by_cases h : t = d.ts
  · subst h
    cases hp : pts d.ts with
    | none => simp [countAt?, incPoint, applyCount, toWrite, hp, DataRocksdb.mergeOperator, hC.plus]
    | some p => simp [countAt?, incPoint, applyCount, toWrite, hp, DataRocksdb.mergeOperator, hC.plus]
  · simp [countAt?, incPoint, applyCount, toWrite, h]

lemma countAt?_foldl_setPoint (ds : List AggregatedInfo) (pts : Points) :
    countAt? (ds.foldl setPoint pts) = (ds.map (toWrite true)).foldl applyCount (countAt? pts) := by
  induction ds generalizing pts with
  | nil => rfl
  | cons d rest ih => rw [List.foldl_cons, ih, countAt?_setPoint, List.map_cons, List.foldl_cons]

lemma countAt?_foldl_incPoint (hC : W.CombinesCounts) (ds : List AggregatedInfo) (pts : Points) :
    countAt? (ds.foldl (incPoint W) pts) = (ds.map (toWrite false)).foldl applyCount (countAt? pts) := by
  induction ds generalizing pts with
  | nil => rfl
  | cons d rest ih => rw [List.foldl_cons, ih, countAt?_incPoint hC, List.map_cons, List.foldl_cons]

lemma countAt?_writePoints (hC : W.CombinesCounts) (disableMerge isLast : Bool) (pts : Points)
    (ds : List AggregatedInfo) :
    countAt? (writePoints W disableMerge isLast pts ds) =
      (ds.map (toWrite (isLast || disableMerge))).foldl applyCount (countAt? pts) := by
  unfold writePoints
  cases (isLast || disableMerge)
  · exact countAt?_foldl_incPoint hC ds pts
  · exact countAt?_foldl_setPoint ds pts

/-- Writing what the library reports for a period. -/
lemma applyCount_reports {opened : Option ℕ} {ts : ℤ} {r : Option AggregatedData}
    (hr : Wrtstat.Reports opened ts r) (f : ℤ → Option ℕ) (t : ℤ) :
    ((r.toList.map AggregatedData.toPoint).map (toWrite true)).foldl applyCount f t =
      if t = ts then opened.orElse (fun _ => f t) else f t := by
  cases r with
  | none =>
    have ho : opened = none := hr
    simp [ho]
  | some ag =>
    obtain ⟨ho, hts⟩ := hr
    simp [ho, applyCount, toWrite, hts]

lemma KeyAggregator.latePoint_ts (hC : W.CombinesCounts) (d : AggregatedData) :
    (latePoint W d).ts = W.getTs d.ts := by
  have hts : (W.calcPerc d).ts = d.ts := congrArg ReducedInfo.ts (hC.calcPerc d)
  simp [latePoint, hts]

lemma KeyAggregator.latePoint_count (hC : W.CombinesCounts) (d : AggregatedData) :
    (latePoint W d).count = d.count := by
  have hcount : (W.calcPerc d).count = d.count := congrArg ReducedInfo.count (hC.calcPerc d)
  simp [latePoint, hcount]

namespace DataStorage

lemma point?_set_points (s : DataStorage) (id : KeyId) (d : AggregatedInfo) (id' : KeyId) :
    (s.set true id d).2.point? id' = if id' = id then setPoint (s.point? id) d else s.point? id' := by
  funext t
  rw [point?_set]
  by_cases h : id' = id
  · subst h
    simp [setPoint]
  · simp [h]

lemma point?_inc_points (s : DataStorage) (id : KeyId) (d : AggregatedInfo) (id' : KeyId) :
    (s.inc W true id d).2.point? id' = if id' = id then incPoint W (s.point? id) d else s.point? id' := by
  funext t
  rw [point?_inc]
  by_cases h : id' = id
  · subst h
    by_cases ht : t = d.ts
    · simp [incPoint, ht]
    · simp [incPoint, ht]
  · simp [h]

end DataStorage

namespace Storage

lemma setAll_status (id : KeyId) (ds : List AggregatedInfo) (i : ℕ) (s : DataStorage) :
    (setAll allOk id ds i s).1 = .ok () := by
  induction ds generalizing i s with
  | nil => rfl
  | cons d rest ih => exact ih _ _

lemma incAll_status (id : KeyId) (ds : List AggregatedInfo) (i : ℕ) (s : DataStorage) :
    (incAll W allOk id ds i s).1 = .ok () := by
  induction ds generalizing i s with
  | nil => rfl
  | cons d rest ih => exact ih _ _

lemma point?_setAll (id : KeyId) (ds : List AggregatedInfo) (i : ℕ) (s : DataStorage) (id' : KeyId) :
    (setAll allOk id ds i s).2.point? id' =
      if id' = id then ds.foldl setPoint (s.point? id) else s.point? id' := by
  induction ds generalizing i s with
  | nil =>
    by_cases h : id' = id
    · simp [setAll, h]
    · simp [setAll, h]
  | cons d rest ih =>
    have hstep : setAll allOk id (d :: rest) i s = setAll allOk id rest (i + 1) (s.set true id d).2 := rfl
    rw [hstep, ih, DataStorage.point?_set_points, DataStorage.point?_set_points, if_pos rfl, List.foldl_cons]
    split_ifs <;> rfl

lemma point?_incAll (id : KeyId) (ds : List AggregatedInfo) (i : ℕ) (s : DataStorage) (id' : KeyId) :
    (incAll W allOk id ds i s).2.point? id' =
      if id' = id then ds.foldl (incPoint W) (s.point? id) else s.point? id' := by
  induction ds generalizing i s with
  | nil =>
    by_cases h : id' = id
    · simp [incAll, h]
    · simp [incAll, h]
  | cons d rest ih =>
    have hstep : incAll W allOk id (d :: rest) i s = incAll W allOk id rest (i + 1) (s.inc W true id d).2 :=
      rfl
    rw [hstep, ih, DataStorage.point?_inc_points, DataStorage.point?_inc_points, if_pos rfl, List.foldl_cons]
    split_ifs <;> rfl

/-! ### Calls that succeed -/

/-- Points that were written although writes may fail are written as if none could. -/
lemma setAll_of_ok {ok : Outcomes} {id : KeyId} {ds : List AggregatedInfo} {i : ℕ} {s : DataStorage}
    (h : (setAll ok id ds i s).1 = .ok ()) : setAll ok id ds i s = setAll allOk id ds i s := by
  induction ds generalizing i s with
  | nil => rfl
  | cons d rest ih =>
    cases hok : ok i with
    | false =>
      have hstep : setAll ok id (d :: rest) i s = (.error (.dataPut id d.ts), (s.set false id d).2) := by
        rw [setAll, hok]
        rfl
      rw [hstep] at h
      exact absurd h (by simp)
    | true =>
      have hstep : ∀ {ok : Outcomes}, ok i = true →
          setAll ok id (d :: rest) i s = setAll ok id rest (i + 1) (s.set true id d).2 := by
        intro ok hok
        rw [setAll, hok]
        rfl
      rw [hstep hok] at h ⊢
      exact (ih h).trans (hstep rfl).symm

lemma incAll_of_ok {ok : Outcomes} {id : KeyId} {ds : List AggregatedInfo} {i : ℕ} {s : DataStorage}
    (h : (incAll W ok id ds i s).1 = .ok ()) : incAll W ok id ds i s = incAll W allOk id ds i s := by
  induction ds generalizing i s with
  | nil => rfl
  | cons d rest ih =>
    cases hok : ok i with
    | false =>
      have hstep : incAll W ok id (d :: rest) i s = (.error (.dataPut id d.ts), (s.inc W false id d).2) := by
        rw [incAll, hok]
        rfl
      rw [hstep] at h
      exact absurd h (by simp)
    | true =>
      have hstep : ∀ {ok : Outcomes}, ok i = true →
          incAll W ok id (d :: rest) i s = incAll W ok id rest (i + 1) (s.inc W true id d).2 := by
        intro ok hok
        rw [incAll, hok]
        rfl
      rw [hstep hok] at h ⊢
      exact (ih h).trans (hstep rfl).symm

lemma storeKeyAndData_of_ok {s : Storage W} {ok : Outcomes} {name : Name} {r : CacheResult W}
    (h : (s.storeKeyAndData ok name r).1 = .ok ()) :
    s.storeKeyAndData ok name r = s.storeKeyAndData allOk name r := by
  cases hok : ok 0 with
  | false =>
    have hstep : s.storeKeyAndData ok name r = (.error (.keyPut name), s) := by
      rw [storeKeyAndData, hok]
      rfl
    rw [hstep] at h
    exact absurd h (by simp)
  | true =>
    have hstep : ∀ {ok : Outcomes}, ok 0 = true → s.storeKeyAndData ok name r =
        ((setAll ok r.id r.upData 1 s.dataStorage).1,
          { s with keyStorage := (s.keyStorage.set true name r.upKey).2
                   dataStorage := (setAll ok r.id r.upData 1 s.dataStorage).2 }) := by
      intro ok hok
      rw [storeKeyAndData, hok]
      rfl
    rw [hstep hok] at h
    rw [hstep hok, @hstep allOk rfl, setAll_of_ok h]

/-- An add that returned true has made all its writes. -/
lemma add_of_ok {s : Storage W} {clock : ℤ} {ok : Outcomes} {name : Name} {data : AggregatedData}
    (h : (s.add clock ok name data).1 = .ok ()) : s.add clock ok name data = s.add clock allOk name data := by
  unfold add at h ⊢
  dsimp only at h ⊢
  split_ifs at h ⊢
  · exact storeKeyAndData_of_ok h
  · rw [setAll_of_ok h]
  · rw [incAll_of_ok h]

lemma merge_of_ok {s : Storage W} {clock : ℤ} {ok : Outcomes} {name : Name} {data : List AggregatedInfo}
    (h : (s.merge clock ok name data).1 = .ok ()) :
    s.merge clock ok name data = s.merge clock allOk name data := by
  unfold merge at h ⊢
  dsimp only at h ⊢
  split_ifs at h ⊢
  exact storeKeyAndData_of_ok h

/-! ### Add -/

/-- The key an add of `data` works on, and what it does to it. -/
def addKey (s : Storage W) (name : Name) (data : AggregatedData) :
    KeyAggregator W × List AggregatedInfo × Bool :=
  (s.keyCache.keyOrNew name data.ts).add data []

/-- The id an add or a merge of `name` works under. -/
def keyId (s : Storage W) (name : Name) : KeyId :=
  match s.keyCache.keyMap.find? name with
  | some ka => ka.getId
  | none => (s.keyCache.keyCounter + 1) % 2 ^ 64

lemma keyId_of_some {s : Storage W} {name : Name} {ka : KeyAggregator W}
    (hk : s.keyCache.keyMap.find? name = some ka) : s.keyId name = ka.getId := by
  simp only [keyId, hk]

lemma keyId_of_none {s : Storage W} {name : Name} (hk : s.keyCache.keyMap.find? name = none) :
    s.keyId name = (s.keyCache.keyCounter + 1) % 2 ^ 64 := by
  simp only [keyId, hk]

section Counter

variable {s : Storage W} {name : Name}

/-- Before the ids run out, a new key gets the next one. -/
lemma keyId_eq_succ (hlt : s.keyCache.keyCounter < badKey) (hk : s.keyCache.keyMap.find? name = none) :
    s.keyId name = s.keyCache.keyCounter + 1 := by
  have hle : s.keyCache.keyCounter + 1 ≤ badKey := Nat.succ_le_of_lt hlt
  rw [keyId_of_none hk, Nat.mod_eq_of_lt (lt_of_le_of_lt hle (by decide))]

lemma keyId_le (hlt : s.keyCache.keyCounter < badKey)
    (hle : ∀ ka, s.keyCache.keyMap.find? name = some ka → ka.getId ≤ s.keyCache.keyCounter) :
    s.keyId name ≤ badKey := by
  cases hk : s.keyCache.keyMap.find? name with
  | some ka =>
    rw [keyId_of_some hk]
    exact (hle ka hk).trans hlt.le
  | none =>
    rw [keyId_eq_succ hlt hk]
    exact Nat.succ_le_of_lt hlt

/-- The counter after a call that uses the key of `name`. -/
lemma keyCounter_eq_max (hlt : s.keyCache.keyCounter < badKey)
    (hle : ∀ ka, s.keyCache.keyMap.find? name = some ka → ka.getId ≤ s.keyCache.keyCounter) :
    (if (s.keyCache.keyMap.find? name).isSome then s.keyCache.keyCounter else s.keyId name) =
      max s.keyCache.keyCounter (s.keyId name) := by
  cases hk : s.keyCache.keyMap.find? name with
  | some ka =>
    rw [keyId_of_some hk, max_eq_left (hle ka hk)]
    rfl
  | none =>
    rw [keyId_eq_succ hlt hk, max_eq_right (Nat.le_succ _)]
    rfl

end Counter

lemma keyOrNew_getId (s : Storage W) (name : Name) (ts : ℤ) :
    (s.keyCache.keyOrNew name ts).getId = s.keyId name := by
  unfold keyId KeyCache.keyOrNew
  cases s.keyCache.keyMap.find? name <;> rfl

lemma add_keyCache (s : Storage W) (clock : ℤ) (ok : Outcomes) (name : Name) (data : AggregatedData) :
    (s.add clock ok name data).2.keyCache = (s.keyCache.add clock name data).cache := by
  unfold add storeKeyAndData
  dsimp only
  split_ifs
  · rfl
  · split <;> rfl
  all_goals rfl

lemma add_find? (s : Storage W) (clock : ℤ) (ok : Outcomes) (name : Name) (data : AggregatedData)
    (name' : Name) :
    (s.add clock ok name data).2.keyCache.keyMap.find? name' =
      if name' = name then some (s.addKey name data).1 else s.keyCache.keyMap.find? name' := by
  rw [add_keyCache]
  exact KeyCache.add_find? _ _ _ _ _

@[simp] lemma addKey_getId (s : Storage W) (name : Name) (data : AggregatedData) :
    (s.addKey name data).1.getId = s.keyId name := by
  rw [addKey, KeyAggregator.add_getId, keyOrNew_getId]

lemma add_keyCounter (s : Storage W) (clock : ℤ) (ok : Outcomes) (name : Name) (data : AggregatedData) :
    (s.add clock ok name data).2.keyCache.keyCounter =
      if (s.keyCache.keyMap.find? name).isSome then s.keyCache.keyCounter else s.keyId name := by
  rw [add_keyCache, KeyCache.add_keyCounter]
  cases hk : s.keyCache.keyMap.find? name with
  | some ka => rfl
  | none => rw [keyId_of_none hk]

lemma add_options (s : Storage W) (clock : ℤ) (ok : Outcomes) (name : Name) (data : AggregatedData) :
    (s.add clock ok name data).2.keyCache.options = s.keyCache.options := by
  rw [add_keyCache, KeyCache.add_options]

/-- An add fails without database errors only when the ids have run out. -/
lemma add_status_iff (s : Storage W) (clock : ℤ) (name : Name) (data : AggregatedData) :
    (s.add clock allOk name data).1 = .ok () ↔ s.keyId name ≠ badKey := by
  unfold add storeKeyAndData
  simp only [KeyCache.add_id, keyOrNew_getId]
  by_cases h : s.keyId name = badKey
  · simp [h]
  · simp only [h, if_false, ne_eq, not_false_eq_true, iff_true]
    split_ifs
    · exact setAll_status _ _ _ _
    · exact setAll_status _ _ _ _
    · exact incAll_status _ _ _ _

/-- The result of the cache call of an add, in terms of its key. -/
lemma add_result (s : Storage W) (clock : ℤ) (name : Name) (data : AggregatedData) :
    s.keyCache.add clock name data =
      { id := s.keyId name
        cache := (s.keyCache.add clock name data).cache
        upKey := if (s.addKey name data).2.2 then (s.addKey name data).1.getKeyInfo else {}
        upData := (s.addKey name data).2.1
        isLast := (s.addKey name data).2.2 } := by
  simp only [KeyCache.add, KeyCache.getOrCreate_fst, addKey, KeyAggregator.add_getId, keyOrNew_getId]
  rfl

lemma add_point? {s : Storage W} {name : Name} (h : s.keyId name ≠ badKey) (clock : ℤ)
    (data : AggregatedData) (id : KeyId) :
    (s.add clock allOk name data).2.dataStorage.point? id =
      if id = s.keyId name then
        writePoints W s.disableMerge (s.addKey name data).2.2 (s.dataStorage.point? (s.keyId name))
          (s.addKey name data).2.1
      else s.dataStorage.point? id := by
  unfold add storeKeyAndData writePoints
  rw [add_result]
  simp only [h, if_false]
  cases hl : (s.addKey name data).2.2
  · cases hm : s.disableMerge
    · exact point?_incAll _ _ _ _ _
    · exact point?_setAll _ _ _ _ _
  · exact point?_setAll _ _ _ _ _

lemma add_key? {s : Storage W} {name : Name} (h : s.keyId name ≠ badKey) (clock : ℤ)
    (data : AggregatedData) (name' : Name) :
    (s.add clock allOk name data).2.keyStorage.key? name' =
      if name' = name ∧ (s.addKey name data).2.2 = true then some (s.addKey name data).1.keyInfo
      else s.keyStorage.key? name' := by
  unfold add storeKeyAndData
  rw [add_result]
  simp only [h, if_false]
  cases hl : (s.addKey name data).2.2
  · simp
  · rw [if_congr (and_iff_left rfl) rfl rfl]
    exact KeyStorage.key?_set s.keyStorage name name' (s.addKey name data).1.getKeyInfo

/-- Without failures the stored key is replaced and the points are set under the id. -/
lemma storeKeyAndData_allOk (s : Storage W) (name : Name) (r : CacheResult W) :
    (s.storeKeyAndData allOk name r).1 = .ok () ∧
      (s.storeKeyAndData allOk name r).2.keyCache = s.keyCache ∧
      (∀ name', (s.storeKeyAndData allOk name r).2.keyStorage.key? name' =
        if name' = name then some r.upKey else s.keyStorage.key? name') ∧
      ∀ id, (s.storeKeyAndData allOk name r).2.dataStorage.point? id =
        if id = r.id then r.upData.foldl setPoint (s.dataStorage.point? r.id)
        else s.dataStorage.point? id :=
  ⟨setAll_status _ _ _ _, rfl, fun name' => KeyStorage.key?_set s.keyStorage name name' r.upKey,
    fun id => point?_setAll r.id r.upData 1 s.dataStorage id⟩

lemma add_disableMerge (s : Storage W) (clock : ℤ) (ok : Outcomes) (name : Name) (data : AggregatedData) :
    (s.add clock ok name data).2.disableMerge = s.disableMerge := by
  unfold add storeKeyAndData
  dsimp only
  split_ifs
  · rfl
  · split <;> rfl
  all_goals rfl

/-! ### Merge -/

/-- The time of the last point of a list, the one a merge creates its key at. -/
def lastTs (data : List AggregatedInfo) : ℤ := (data.getLast?.map (·.ts)).getD 0

/-- The key a merge of `data` works on, and what it does to it. -/
def mergeKey (s : Storage W) (name : Name) (data : List AggregatedInfo) :
    KeyAggregator W × List AggregatedInfo :=
  (s.keyCache.keyOrNew name (lastTs data)).merge [] data

lemma merge_result (s : Storage W) (clock : ℤ) (name : Name) {data : List AggregatedInfo} (h : data ≠ []) :
    s.keyCache.merge clock name data =
      { id := s.keyId name
        cache := (s.keyCache.getOrCreate clock name (lastTs data)).2.putKey name (s.mergeKey name data).1
        upKey := (s.mergeKey name data).1.getKeyInfo
        upData := (s.mergeKey name data).2 } := by
  have hd := List.getLast?_eq_some_getLast h
  have hts : lastTs data = (data.getLast h).ts := by simp [lastTs, hd]
  rw [KeyCache.merge_of_getLast? hd, keyOrNew_getId, mergeKey, hts]

lemma merge_eq (s : Storage W) (clock : ℤ) (name : Name) {data : List AggregatedInfo} (h : data ≠ [])
    (ok : Outcomes) :
    s.merge clock ok name data =
      let s' := { s with keyCache := (s.keyCache.merge clock name data).cache }
      if s.keyId name = badKey then (.error .badKey, s')
      else s'.storeKeyAndData ok name (s.keyCache.merge clock name data) := by
  have hne : data.isEmpty = false := by simpa using h
  rw [merge, if_neg (by simp [hne]), merge_result s clock name h]

lemma merge_status_iff (s : Storage W) (clock : ℤ) (name : Name) (data : List AggregatedInfo) :
    (s.merge clock allOk name data).1 = .ok () ↔ data ≠ [] ∧ s.keyId name ≠ badKey := by
  by_cases h : data = []
  · simp [merge, h]
  · rw [merge_eq s clock name h]
    by_cases hid : s.keyId name = badKey
    · simp [hid]
    · simp [hid, h, (storeKeyAndData_allOk _ _ _).1]

variable {clock : ℤ}

lemma merge_keyCache (s : Storage W) (ok : Outcomes) {name : Name} {data : List AggregatedInfo}
    (h : data ≠ []) :
    (s.merge clock ok name data).2.keyCache = (s.keyCache.merge clock name data).cache := by
  rw [merge_eq s clock name h]
  unfold storeKeyAndData
  dsimp only
  split_ifs
  · rfl
  · split <;> rfl

lemma merge_find? (s : Storage W) (ok : Outcomes) {name : Name} {data : List AggregatedInfo}
    (h : data ≠ []) (name' : Name) :
    (s.merge clock ok name data).2.keyCache.keyMap.find? name' =
      if name' = name then some (s.mergeKey name data).1 else s.keyCache.keyMap.find? name' := by
  rw [merge_keyCache s ok h, merge_result s clock name h, KeyCache.putKey_find?,
    KeyCache.getOrCreate_find?]
  split_ifs <;> rfl

lemma merge_key? {s : Storage W} {name : Name} {data : List AggregatedInfo}
    (hok : (s.merge clock allOk name data).1 = .ok ()) (name' : Name) :
    (s.merge clock allOk name data).2.keyStorage.key? name' =
      if name' = name then some (s.mergeKey name data).1.keyInfo else s.keyStorage.key? name' := by
  obtain ⟨hne, hid⟩ := (merge_status_iff _ _ _ _).mp hok
  rw [merge_eq s clock name hne]
  simp only [hid, if_false, (storeKeyAndData_allOk _ _ _).2.2.1, merge_result s clock name hne]
  rfl

lemma merge_point? {s : Storage W} {name : Name} {data : List AggregatedInfo}
    (hok : (s.merge clock allOk name data).1 = .ok ()) (id : KeyId) :
    (s.merge clock allOk name data).2.dataStorage.point? id =
      if id = s.keyId name then
        (s.mergeKey name data).2.foldl setPoint (s.dataStorage.point? (s.keyId name))
      else s.dataStorage.point? id := by
  obtain ⟨hne, hid⟩ := (merge_status_iff _ _ _ _).mp hok
  rw [merge_eq s clock name hne]
  simp only [hid, if_false, (storeKeyAndData_allOk _ _ _).2.2.2, merge_result s clock name hne]

@[simp] lemma mergeKey_getId (s : Storage W) (name : Name) (data : List AggregatedInfo) :
    (s.mergeKey name data).1.getId = s.keyId name := by
  rw [mergeKey, KeyAggregator.merge_getId, keyOrNew_getId]

lemma merge_keyCounter (s : Storage W) (ok : Outcomes) {name : Name} {data : List AggregatedInfo}
    (h : data ≠ []) :
    (s.merge clock ok name data).2.keyCache.keyCounter =
      if (s.keyCache.keyMap.find? name).isSome then s.keyCache.keyCounter else s.keyId name := by
  have hcounter : (s.merge clock ok name data).2.keyCache.keyCounter =
      (s.keyCache.getOrCreate clock name (lastTs data)).2.keyCounter := by
    rw [merge_keyCache s ok h, merge_result s clock name h]
    rfl
  rw [hcounter, KeyCache.getOrCreate_keyCounter]
  cases hk : s.keyCache.keyMap.find? name with
  | some ka => rfl
  | none => rw [keyId_of_none hk]

lemma merge_options (s : Storage W) (ok : Outcomes) {name : Name} {data : List AggregatedInfo}
    (h : data ≠ []) :
    (s.merge clock ok name data).2.keyCache.options = s.keyCache.options := by
  rw [merge_keyCache s ok h, merge_result s clock name h]
  exact KeyCache.getOrCreate_options _ _ _ _

/-! ### Del -/

lemma del_keyCache (s : Storage W) (ok : Outcomes) (name : Name) :
    (s.del ok name).2.keyCache = (s.keyCache.del name).2 := by
  unfold del
  dsimp only
  split_ifs
  · rfl
  · split <;> rfl

/-- A del that does not find the name changes nothing but the cache. -/
lemma del_of_badKey {s : Storage W} {name : Name} (h : (s.keyCache.del name).1 = badKey) (ok : Outcomes) :
    s.del ok name = (.error .badKey, { s with keyCache := (s.keyCache.del name).2 }) := by
  simp [del, h]

lemma del_status_iff (s : Storage W) (name : Name) :
    (s.del allOk name).1 = .ok () ↔ (s.keyCache.del name).1 ≠ badKey := by
  by_cases h : (s.keyCache.del name).1 = badKey
  · simp [del_of_badKey h, h]
  · simp only [del, h, if_false, ne_eq, not_false_eq_true, iff_true]
    exact DataStorage.del_status _ _ _

lemma del_key? {s : Storage W} {name : Name} (hok : (s.del allOk name).1 = .ok ()) (name' : Name) :
    (s.del allOk name).2.keyStorage.key? name' = if name' = name then none else s.keyStorage.key? name' := by
  have h := (del_status_iff s name).mp hok
  simp only [del, h, if_false]
  exact KeyStorage.key?_del _ _ _

lemma del_point? {s : Storage W} {name : Name} (hok : (s.del allOk name).1 = .ok ()) (id : KeyId) (t : ℤ) :
    (s.del allOk name).2.dataStorage.point? id t =
      if id = (s.keyCache.del name).1 ∧ 0 ≤ t then none else s.dataStorage.point? id t := by
  have h := (del_status_iff s name).mp hok
  simp only [del, h, if_false]
  exact DataStorage.point?_del _ _ _ _ _

/-! ### Get -/

lemma get_of_ok {s : Storage W} {clock : ℤ} {name : Name} {ts : ℤ} {offset limit : ℕ}
    {points : List AggregatedInfo} (h : s.get clock name ts offset limit = .ok points) :
    s.keyCache.getId name ≠ badKey ∧
      ∃ ts', s.dataStorage.get (s.keyCache.getId name) ts' offset limit = points := by
  unfold get at h
  dsimp only at h
  by_cases hid : s.keyCache.getId name = badKey
  · rw [if_pos hid] at h
    exact absurd h (by simp)
  · rw [if_neg hid] at h
    exact ⟨hid, _, Except.ok.inj h⟩

end Storage

/-! ### Requests -/

/-- A call of a client that changes the storage. -/
inductive Request
  | add (clock : ℤ) (name : Name) (data : AggregatedData)
  | merge (clock : ℤ) (name : Name) (data : List AggregatedInfo)
  | del (name : Name)

namespace Storage

/-- A request whose database writes succeed. -/
def serve (s : Storage W) : Request → Status × Storage W
  | .add clock name data => s.add clock allOk name data
  | .merge clock name data => s.merge clock allOk name data
  | .del name => s.del allOk name

/-- The request has no storage error. A del of an unknown name and a merge of an empty
list fail without changing anything. -/
def Served (s : Storage W) (r : Request) : Prop :=
  (s.serve r).1 = .ok () ∨ (∃ name, r = .del name) ∨ ∃ clock name, r = .merge clock name []

/-- A key that is cached after a request was there before or is the one the request
worked on. -/
lemma serve_find?_of_some {s : Storage W} {r : Request} {name : Name} {ka : KeyAggregator W}
    (h : (s.serve r).2.keyCache.keyMap.find? name = some ka) :
    s.keyCache.keyMap.find? name = some ka ∨
      (∃ clock data, r = .add clock name data ∧ ka = (s.addKey name data).1) ∨
      ∃ clock data, r = .merge clock name data ∧ data ≠ [] ∧ ka = (s.mergeKey name data).1 := by
  cases r with
  | add clock n data =>
    change (s.add clock allOk n data).2.keyCache.keyMap.find? name = some ka at h
    rw [add_find?] at h
    split_ifs at h with hn
    · subst hn
      exact .inr (.inl ⟨clock, data, rfl, (Option.some.inj h).symm⟩)
    · exact .inl h
  | merge clock n data =>
    by_cases hd : data = []
    · subst hd
      exact .inl h
    · change (s.merge clock allOk n data).2.keyCache.keyMap.find? name = some ka at h
      rw [merge_find? s allOk hd] at h
      split_ifs at h with hn
      · subst hn
        exact .inr (.inr ⟨clock, data, rfl, hd, (Option.some.inj h).symm⟩)
      · exact .inl h
  | del n =>
    change (s.del allOk n).2.keyCache.keyMap.find? name = some ka at h
    rw [del_keyCache, KeyCache.del_find?] at h
    split_ifs at h
    exact .inl h

lemma serve_options (s : Storage W) (r : Request) :
    (s.serve r).2.keyCache.options = s.keyCache.options := by
  cases r with
  | add clock name data => exact add_options _ _ _ _ _
  | merge clock name data =>
    by_cases hd : data = []
    · subst hd
      rfl
    · exact merge_options s allOk hd
  | del name =>
    change (s.del allOk name).2.keyCache.options = _
    rw [del_keyCache]
    exact (KeyCache.del_keyCounter _ _).2

lemma serve_disableMerge (s : Storage W) (r : Request) : (s.serve r).2.disableMerge = s.disableMerge := by
  cases r with
  | add clock name data => exact add_disableMerge _ _ _ _ _
  | merge clock name data =>
    simp only [serve, merge, storeKeyAndData]
    split_ifs
    · rfl
    · rfl
    · split <;> rfl
  | del name =>
    simp only [serve, del]
    split_ifs
    · rfl
    · split <;> rfl

end Storage

end WfcBtp
