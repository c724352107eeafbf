import WfcBtp.Proofs.DataRows
import WfcBtp.Proofs.LazyMerge

/-!
# The data writes of a call

A call looks at the cache and at the outcomes of its writes, not at what data storage
holds. So its writes to data storage are a list, and any storage may be given them.
-/

namespace WfcBtp
open Library

variable {W : Wrtstat}

namespace Storage

/-- The writes of `setAll`: none behind one that fails. -/
def setWrites (ok : Outcomes) (id : KeyId) : List AggregatedInfo → ℕ → List DataWrite
  | [], _ => []
  | ud :: rest, i => .set (ok i) id ud :: if ok i then setWrites ok id rest (i + 1) else []

/-- The writes of `incAll`. -/
def incWrites (ok : Outcomes) (id : KeyId) : List AggregatedInfo → ℕ → List DataWrite
  | [], _ => []
  | ud :: rest, i => .inc (ok i) id ud :: if ok i then incWrites ok id rest (i + 1) else []

/-- The writes of `closeLoop`, in which the cache stays what it is. -/
def closeWrites (kc : KeyCache W) (ok : Outcomes) : List (StoredName × List AggregatedInfo) → ℕ → List DataWrite
  | [], _ => []
  | kv :: rest, i =>
    if ok i then
      setWrites ok (kc.getId kv.1.name) kv.2 (i + 1) ++
        if (List.range kv.2.length).all fun j => ok (i + 1 + j) then closeWrites kc ok rest (i + 1 + kv.2.length)
        else []
    else []

lemma setAll_eq_foldl (ok : Outcomes) (id : KeyId) (l : List AggregatedInfo) (i : ℕ) (ds : DataStorage) :
    (setAll ok id l i ds).2 = (setWrites ok id l i).foldl (DataStorage.write W) ds := by
  induction l generalizing i ds with
  | nil => rfl
  | cons ud rest ih =>
    rw [setAll, setWrites, List.foldl_cons, DataStorage.write]
    cases hok : ok i with
    | false => rfl
    | true => exact ih (i + 1) (ds.set true id ud).2

lemma incAll_eq_foldl (ok : Outcomes) (id : KeyId) (l : List AggregatedInfo) (i : ℕ) (ds : DataStorage) :
    (incAll W ok id l i ds).2 = (incWrites ok id l i).foldl (DataStorage.write W) ds := by
  induction l generalizing i ds with
  | nil => rfl
  | cons ud rest ih =>
    rw [incAll, incWrites, List.foldl_cons, DataStorage.write]
    cases hok : ok i with
    | false => rfl
    | true => exact ih (i + 1) (ds.inc W true id ud).2

lemma setAll_ok_iff (ok : Outcomes) (id : KeyId) (l : List AggregatedInfo) (i : ℕ) (ds : DataStorage) :
    (setAll ok id l i ds).1 = .ok () ↔ (List.range l.length).all (fun j => ok (i + j)) = true := by
  rw [List.all_eq_true]
  simp only [List.mem_range]
  induction l generalizing i ds with
  | nil => exact iff_of_true rfl fun _ h => absurd h (Nat.not_lt_zero _)
  | cons ud rest ih =>
    rw [setAll]
    cases hok : ok i with
    | false =>
      refine iff_of_false (fun h => by cases h) fun h => ?_
      have hfirst := h 0 (Nat.zero_lt_succ _)
      rw [Nat.add_zero, hok] at hfirst
      cases hfirst
    | true =>
      have hrest := ih (i + 1) (ds.set true id ud).2
      refine hrest.trans ⟨fun h j hj => ?_, fun h j hj => ?_⟩
      · cases j with
        | zero => exact hok
        | succ j =>
          rw [show i + (j + 1) = i + 1 + j by omega]
          exact h j (Nat.lt_of_succ_lt_succ hj)
      · rw [show i + 1 + j = i + (j + 1) by omega]
        exact h (j + 1) (Nat.succ_lt_succ hj)

lemma storeKeyAndData_dataStorage (s : Storage W) (ok : Outcomes) (name : Name) (r : CacheResult W) :
    (s.storeKeyAndData ok name r).2.dataStorage =
      (if ok 0 then setWrites ok r.id r.upData 1 else []).foldl (DataStorage.write W) s.dataStorage := by
  rw [storeKeyAndData]
  cases hok : ok 0 with
  | false => rfl
  | true => exact setAll_eq_foldl ok r.id r.upData 1 s.dataStorage

lemma closeLoop_dataStorage (ok : Outcomes) (l : List (StoredName × List AggregatedInfo)) (i : ℕ) (s : Storage W) :
    (closeLoop ok l i s).2.dataStorage =
      (closeWrites s.keyCache ok l i).foldl (DataStorage.write W) s.dataStorage := by
  induction l generalizing i s with
  | nil => rfl
  | cons kv rest ih =>
    rw [closeLoop, closeWrites]
    cases hok : ok i with
    | false => rfl
    | true =>
      simp only [KeyStorage.set, if_true, List.foldl_append,
        ← setAll_eq_foldl ok (s.keyCache.getId kv.1.name) kv.2 (i + 1) s.dataStorage]
      have hall := setAll_ok_iff ok (s.keyCache.getId kv.1.name) kv.2 (i + 1) s.dataStorage
      cases hset : setAll ok (s.keyCache.getId kv.1.name) kv.2 (i + 1) s.dataStorage with
      | mk status ds =>
        rw [hset] at hall
        cases status with
        | ok u =>
          rw [if_pos (hall.mp rfl)]
          exact ih _ _
        | error e =>
          rw [if_neg fun h => absurd (hall.mpr h) (by simp)]
          rfl

end Storage

namespace Process

/-- What a call writes to data storage. -/
def dataWrites (p : Process W) : StorageCall → List DataWrite
  | .add clock ok name data =>
    let s := p.storage
    let r := s.keyCache.add clock name data
    if r.id = badKey then []
    else if r.isLast then if ok 0 then Storage.setWrites ok r.id r.upData 1 else []
    else if s.disableMerge then Storage.setWrites ok r.id r.upData 0
    else Storage.incWrites ok r.id r.upData 0
  | .merge clock ok name data =>
    let r := p.storage.keyCache.merge clock name data
    if data.isEmpty ∨ r.id = badKey then [] else if ok 0 then Storage.setWrites ok r.id r.upData 1 else []
  | .del ok name =>
    let r := p.storage.keyCache.del name
    if r.1 = badKey then [] else if ok 0 then [.del ok 1 r.1] else []
  | .gc _ => []
  | .close ok =>
    let r := p.storage.keyCache.release
    Storage.closeWrites r.2 ok r.1 0
  | .reopen _ _ => []

lemma call_dataStorage (p : Process W) (c : StorageCall) :
    (p.call c).2.storage.dataStorage = (p.dataWrites c).foldl (DataStorage.write W) p.storage.dataStorage := by
  cases c with
  | add clock ok name data =>
    simp only [call, Storage.add, dataWrites]
    split_ifs with hbad hlast hok hmerge
    · rfl
    · rw [Storage.storeKeyAndData_dataStorage, if_pos hok]
    · rw [Storage.storeKeyAndData_dataStorage, if_neg hok]
    · exact Storage.setAll_eq_foldl _ _ _ _ _
    · exact Storage.incAll_eq_foldl _ _ _ _ _
  | merge clock ok name data =>
    simp only [call, Storage.merge, dataWrites]
    by_cases hempty : data.isEmpty
    · simp [hempty]
    · by_cases hbad : (p.storage.keyCache.merge clock name data).id = badKey
      · simp [hempty, hbad]
      · simp only [hempty, hbad, or_self, if_false, Bool.false_eq_true]
        exact Storage.storeKeyAndData_dataStorage _ _ _ _
  | del ok name =>
    simp only [call, Storage.del, dataWrites]
    split_ifs with hbad hok
    · rfl
    · simp only [KeyStorage.del, hok, if_true]
      rfl
    · simp only [KeyStorage.del, hok, if_false, Bool.false_eq_true]
      rfl
  | gc clock => rfl
  | close ok =>
    rw [call_close_storage]
    exact Storage.closeLoop_dataStorage _ _ _ _
  | reopen opt clock => rfl

/-- What the calls of a run write to data storage, one after another. -/
def runWrites (p : Process W) : List StorageCall → List DataWrite
  | [] => []
  | c :: rest => (if p.Accepts c then p.dataWrites c else []) ++ runWrites (p.step c) rest

lemma run_dataStorage (p : Process W) (calls : List StorageCall) :
    (calls.foldl step p).storage.dataStorage =
      (p.runWrites calls).foldl (DataStorage.write W) p.storage.dataStorage := by
  induction calls generalizing p with
  | nil => rfl
  | cons c rest ih =>
    have hstep : (p.step c).storage.dataStorage =
        (if p.Accepts c then p.dataWrites c else []).foldl (DataStorage.write W) p.storage.dataStorage := by
      unfold step
      split_ifs
      · exact p.call_dataStorage c
      · rfl
    rw [List.foldl_cons, ih, runWrites, List.foldl_append, hstep]

lemma start_dataStorage (W : Wrtstat) (opt : StorageOptions) (clock : ℤ) (hashSize resultLimit : ℕ) :
    (start W opt clock hashSize resultLimit).storage.dataStorage = .create hashSize resultLimit := rfl

end Process

namespace DataStorage

lemma delLoop_status (id : KeyId) (ok : Outcomes) (l : List (KeyTs × AggregatedInfo)) (i : ℕ) (db : DataRocksdb) :
    (DataRocksdb.delLoop id ok l i db).1 = .ok () ∨ (DataRocksdb.delLoop id ok l i db).1 = .error .dataDel := by
  induction l generalizing i db with
  | nil => exact .inl rfl
  | cons e rest ih =>
    rw [DataRocksdb.delLoop]
    split_ifs
    · exact .inl rfl
    · exact ih _ _
    · exact .inr rfl

lemma del_status_eq (s : DataStorage) (ok : Outcomes) (i : ℕ) (id : KeyId) :
    (s.del ok i id).1 = if ∀ j < (s.points id 0).length, ok (i + j) = true then .ok () else .error .dataDel := by
  have hok : (s.del ok i id).1 = .ok () ↔ _ :=
    delLoop_ok_iff ((s.getDb id).content.lowerBound (toLex (id, 0))) i (s.getDb id)
  have hlength : (s.points id 0).length =
      (((s.getDb id).content.lowerBound (toLex (id, 0))).takeWhile fun e => (ofLex e.1).1 = id).length :=
    List.length_map _
  rw [hlength]
  split_ifs with hall
  · exact hok.mpr hall
  · exact (delLoop_status _ _ _ _ _).resolve_left fun h => hall (hok.mp h)

lemma SamePoints.writeStatus {s s' : DataStorage} (h : SamePoints s s') (w : DataWrite) :
    s.writeStatus W w = s'.writeStatus W w := by
  cases w with
  | set ok id data => cases ok <;> rfl
  | inc ok id data => cases ok <;> rfl
  | del ok i id =>
    simp only [DataStorage.writeStatus, del_status_eq, points_congr (h.point? id) 0]

lemma SamePoints.statuses {s s' : DataStorage} (h : SamePoints s s') (writes : List DataWrite) :
    s.statuses W writes = s'.statuses W writes := by
  induction writes generalizing s s' with
  | nil => rfl
  | cons w rest ih => rw [DataStorage.statuses, DataStorage.statuses, h.writeStatus, ih (h.write w)]

end DataStorage

/-- Whatever calls a process makes, and whichever of their writes fail: if data storage is kept
in logs, merged and compacted at any time, in any number of shards, then every write returns
what the model says, and every read returns as many points with the same counts. -/
theorem counts_independent_of_compaction (hC : W.CombinesCounts) {L : InfoLayout} (hL : L.Faithful)
    (opt : StorageOptions) (clock : ℤ) (hashSize hashSize' resultLimit : ℕ) (calls : List StorageCall)
    {statuses : List Status} {s : LogStorage L}
    (hr : LogStorage.Run W (.create L hashSize resultLimit)
      ((Process.start W opt clock hashSize' resultLimit).runWrites calls) statuses s) :
    statuses = (DataStorage.create hashSize' resultLimit).statuses W
        ((Process.start W opt clock hashSize' resultLimit).runWrites calls) ∧
      ∀ id ts offset limit, (s.get W id ts offset limit).map (·.count) =
        ((calls.foldl Process.step (Process.start W opt clock hashSize' resultLimit)).storage.dataStorage.get
          id ts offset limit).map (·.count) := by
  have hsame := DataStorage.SamePoints.create hashSize hashSize' resultLimit
  obtain ⟨hstatuses, hfollows⟩ := (LogStorage.follows_create W L hashSize resultLimit).run hC hL hr
  constructor
  · rw [hstatuses, hsame.statuses]
  · intro id ts offset limit
    rw [Process.run_dataStorage, Process.start_dataStorage, ← (hsame.run _).get_eq]
    exact (hfollows.db id).get hL id ts offset limit

/-- Two late adds of one period, whose operands are compacted after each write. -/
theorem late_counts_independent_of_compaction :
    let W := Wrtstat.reference 10 false
    let calls : List StorageCall := [.add 50 allOk [97] { ts := 40, count := 1 },
      .add 50 allOk [97] { ts := 20, count := 2 }, .add 50 allOk [97] { ts := 20, count := 3 }]
    let p := Process.start W { keyCache := { resolution := 1 } } 0 4 10
    let r := (LogStorage.create InfoLayout.words 3 10).compactEach W (p.runWrites calls)
    (r.2.get W 1 20 0 0).map (·.count) = [5] ∧ r.1 = (DataStorage.create 4 10).statuses W (p.runWrites calls) ∧
      ∀ id ts offset limit, (r.2.get W id ts offset limit).map (·.count) =
        ((calls.foldl Process.step p).storage.dataStorage.get id ts offset limit).map (·.count) := by
  intro W calls p r
  have hC : W.CombinesCounts := Wrtstat.reference_combinesCounts 10 false
  have hvalue : ((calls.foldl Process.step p).storage.dataStorage.get 1 20 0 0).map (·.count) = [5] := by
    decide +kernel
  refine (fun h => ⟨(h.2 1 20 0 0).trans hvalue, h⟩) ?_
  clear_value W
  exact counts_independent_of_compaction hC InfoLayout.faithful_words { keyCache := { resolution := 1 } } 0 3 4 10 calls
    (LogStorage.run_compactEach W (.create InfoLayout.words 3 10) (p.runWrites calls))

end WfcBtp
