import WfcBtp.Model.DataLog
import WfcBtp.Proofs.DataRows

/-!
# Merging later

Over logs that are merged and compacted at any time, every write returns what it returns
over databases that merge at once, and every read finds the same points with the same
counts.
-/

namespace WfcBtp
open Library

variable {W : Wrtstat} {L : InfoLayout}

namespace MergeOperator

/-- The bytes are those of a record. -/
def Sized (L : InfoLayout) (s : L.Slice) : Prop := L.size s = L.sizeofInfo

/-- The count `merge` sees in the bytes. -/
def countOf (L : InfoLayout) (s : L.Slice) : ℕ := ((deserialize L s).getD {}).count

lemma deserialize_of_sized {s : L.Slice} (h : Sized L s) : deserialize L s = some (L.read s) :=
  if_neg (not_not.mpr h)

lemma countOf_of_sized {s : L.Slice} (h : Sized L s) : countOf L s = (L.read s).count := by
  rw [countOf, deserialize_of_sized h, Option.getD_some]

lemma countOf_write (hL : L.Faithful) (data : AggregatedInfo) : countOf L (L.write data) = data.count := by
  rw [countOf_of_sized (hL.size_write data), hL.read_write]

lemma sized_merge (hL : L.Faithful) (e : Option L.Slice) (a : L.Slice) : Sized L (merge W L e a) :=
  hL.size_write _

lemma countOf_merge (hC : W.CombinesCounts) (hL : L.Faithful) (e : Option L.Slice) (a : L.Slice) :
    countOf L (merge W L e a) = ((e.map (countOf L)).getD 0) + countOf L a := by
  rw [merge, countOf_write hL, hC.plus]
  cases e <;> rfl

/-- The counts do not tell when operands are merged. -/
lemma observes_count (hC : W.CombinesCounts) (hL : L.Faithful) : Observes (merge W L) (countOf L) where
  congr e e' a h := by rw [countOf_merge hC hL, countOf_merge hC hL, h]
  assoc e a b := by
    simp only [countOf_merge hC hL, Option.map_some, Option.getD_some]
    exact Nat.add_assoc _ _ _

end MergeOperator

open MergeOperator

namespace LogRocksdb

/-- A database over logs shows the keys of one that merges at once, with the same counts. -/
structure Follows (W : Wrtstat) (db : LogRocksdb L) (db' : DataRocksdb) : Prop where
  resultLimit : db.resultLimit = db'.resultLimit
  sized : ∀ k, ∀ e ∈ logOf db.logs k, e.Carries (Sized L)
  count : ∀ k, ((readLogs (merge W L) db.logs).find? k).map (countOf L) = (db'.content.find? k).map (·.count)

variable {db : LogRocksdb L} {db' : DataRocksdb}

lemma carries_appendLog {P : L.Slice → Prop} {m : OrderedMap KeyTs (List (LogEntry L.Slice))}
    (h : ∀ k, ∀ e ∈ logOf m k, e.Carries P) {k : KeyTs} {e : LogEntry L.Slice} (he : e.Carries P) (k' : KeyTs) :
    ∀ e' ∈ logOf (appendLog m k e) k', e'.Carries P := by
  rw [logOf_appendLog]
  split_ifs
  · exact List.forall_mem_cons.mpr ⟨he, h k⟩
  · exact h k'

/-- An entry and a change of a value that come to the same count. -/
lemma Follows.append (h : Follows W db db') {k : KeyTs} {e : LogEntry L.Slice} (he : e.Carries (Sized L))
    {content : OrderedMap KeyTs AggregatedInfo} {p : Option AggregatedInfo}
    (hcontent : ∀ k', content.find? k' = if k' = k then p else db'.content.find? k')
    (hcount : (e.apply (merge W L) ((readLogs (merge W L) db.logs).find? k)).map (countOf L) = p.map (·.count)) :
    Follows W { db with logs := appendLog db.logs k e } { db' with content := content } := by
  refine ⟨h.resultLimit, carries_appendLog h.sized he, fun k' => ?_⟩
  rw [find?_readLogs_appendLog, hcontent]
  split_ifs
  · exact hcount
  · exact h.count k'

lemma Follows.set (hL : L.Faithful) (h : Follows W db db') (ok : Bool) (id : KeyId) (data : AggregatedInfo) :
    (db.set ok id data).1 = (db'.set ok id data).1 ∧ Follows W (db.set ok id data).2 (db'.set ok id data).2 := by
  cases ok with
  | false => exact ⟨rfl, h⟩
  | true =>
    refine ⟨rfl, h.append (e := .put _) (hL.size_write data) (fun k' => OrderedMap.find?_set _ _ _ _) ?_⟩
    exact congrArg some (countOf_write hL data)

lemma Follows.inc (hC : W.CombinesCounts) (hL : L.Faithful) (h : Follows W db db') (ok : Bool) (id : KeyId)
    (data : AggregatedInfo) :
    (db.inc ok id data).1 = (db'.inc W ok id data).1 ∧ Follows W (db.inc ok id data).2 (db'.inc W ok id data).2 := by
  cases ok with
  | false => exact ⟨rfl, h⟩
  | true =>
    refine ⟨rfl, h.append (e := .merge _) (hL.size_write data) (fun k' => OrderedMap.find?_set _ _ _ _) ?_⟩
    have hcount := h.count (toLex (id, data.ts))
    simp only [LogEntry.apply, Option.map_some, countOf_merge hC hL, hcount, countOf_write hL,
      DataRocksdb.mergeOperator, hC.plus]
    cases db'.content.find? (toLex (id, data.ts)) <;> rfl

/-- What the iterators show, but for everything but the counts. -/
lemma Follows.counts (hL : L.Faithful) (h : Follows W db db') :
    (db.iterated W).content.mapValues (fun _ p => p.count) = db'.content.mapValues fun _ p => p.count := by
  apply OrderedMap.ext
  intro k
  rw [iterated, OrderedMap.find?_mapValues, OrderedMap.find?_mapValues, OrderedMap.find?_mapValues, ← h.count k]
  cases hv : (readLogs (merge W L) db.logs).find? k with
  | none => rfl
  | some s =>
    rw [find?_readLogs] at hv
    have hsized : Sized L s := readLog_carries (sized_merge hL) (h.sized k) hv
    rw [Option.map_some, Option.map_some, Option.map_some, countOf_of_sized hsized]

lemma Follows.lowerBound (hL : L.Faithful) (h : Follows W db db') (k : KeyTs) :
    ((db.iterated W).content.lowerBound k).map (fun e => (e.1, e.2.count)) =
      (db'.content.lowerBound k).map fun e => (e.1, e.2.count) := by
  have hcounts := congrArg (fun m => m.lowerBound k) (h.counts hL)
  rwa [OrderedMap.lowerBound_mapValues, OrderedMap.lowerBound_mapValues] at hcounts

/-- The loop of `get` looks at keys only. -/
lemma getLoop_counts {l l' : List (KeyTs × AggregatedInfo)}
    (h : l.map (fun e => (e.1, e.2.count)) = l'.map fun e => (e.1, e.2.count)) (id : KeyId) (offset limit : ℕ) :
    (DataRocksdb.getLoop id l offset limit []).map (·.count) =
      (DataRocksdb.getLoop id l' offset limit []).map (·.count) := by
  have hloop : ∀ l : List (KeyTs × AggregatedInfo), (DataRocksdb.getLoop id l offset limit []).map (·.count) =
      ((((l.map fun e => (e.1, e.2.count)).takeWhile fun e => (ofLex e.1).1 = id).drop offset).take limit).map
        Prod.snd := by
    intro l
    rw [DataStorage.getLoop_eq, List.nil_append, List.takeWhile_map, ← List.map_drop, ← List.map_take, List.map_map,
      List.map_map]
    rfl
  rw [hloop, hloop, h]

lemma Follows.get (hL : L.Faithful) (h : Follows W db db') (id : KeyId) (ts : ℤ) (offset limit : ℕ) :
    (db.get W id ts offset limit).map (·.count) = (db'.get id ts offset limit).map (·.count) := by
  have hlimit : (db.iterated W).resultLimit = db'.resultLimit := h.resultLimit
  have hloop := fun n => getLoop_counts (h.lowerBound hL (toLex (id, ts))) id offset n
  have hlength := fun n => congrArg List.length (hloop n)
  simp only [List.length_map] at hlength
  simp only [LogRocksdb.get, DataRocksdb.get, hlimit, hlength, apply_ite (List.map _), List.map_drop, hloop]

lemma delLoop_follows {l l' : List (KeyTs × AggregatedInfo)} (hl : l.map Prod.fst = l'.map Prod.fst) (id : KeyId)
    (ok : Outcomes) (i : ℕ) {db : LogRocksdb L} {db' : DataRocksdb} (h : Follows W db db') :
    (delLoop id ok l i db).1 = (DataRocksdb.delLoop id ok l' i db').1 ∧
      Follows W (delLoop id ok l i db).2 (DataRocksdb.delLoop id ok l' i db').2 := by
  induction l generalizing l' i db db' with
  | nil =>
    rw [List.map_nil, eq_comm, List.map_eq_nil_iff] at hl
    rw [hl]
    exact ⟨rfl, h⟩
  | cons e rest ih =>
    cases l' with
    | nil => simp at hl
    | cons e' rest' =>
      obtain ⟨hkey, hrest⟩ := List.cons.inj hl
      rw [delLoop, DataRocksdb.delLoop, hkey]
      split_ifs with hid hok
      · exact ⟨rfl, h⟩
      · refine ih hrest (i + 1) (h.append (e := .delete) trivial (fun k' => OrderedMap.find?_erase _ _ _) rfl)
      · exact ⟨rfl, h⟩

lemma Follows.del (hL : L.Faithful) (h : Follows W db db') (ok : Outcomes) (i : ℕ) (id : KeyId) :
    (db.del W ok i id).1 = (db'.del ok i id).1 ∧ Follows W (db.del W ok i id).2 (db'.del ok i id).2 := by
  have hkeys := congrArg (List.map Prod.fst) (h.lowerBound hL (toLex (id, 0)))
  rw [List.map_map, List.map_map] at hkeys
  exact delLoop_follows hkeys id ok i h

lemma Follows.compacted (hC : W.CombinesCounts) (hL : L.Faithful) (h : Follows W db db') {db₁ : LogRocksdb L}
    (hc : db.Compacted W db₁) : Follows W db₁ db' where
  resultLimit := hc.resultLimit.trans h.resultLimit
  sized := hc.logs.carries (sized_merge hL) h.sized
  count k := (hc.logs.find?_readLogs (observes_count hC hL) k).trans (h.count k)

lemma compacted_compact (W : Wrtstat) (db : LogRocksdb L) (ok : Bool) : db.Compacted W (db.compact W ok).2 := by
  cases ok with
  | false => exact ⟨rfl, fun _ => .refl⟩
  | true => exact ⟨rfl, compacted_compactLogs _ _⟩

end LogRocksdb

namespace DataStorage

/-- What the write returns. -/
def writeStatus (W : Wrtstat) (s : DataStorage) : DataWrite → Status
  | .set ok id data => (s.set ok id data).1
  | .inc ok id data => (s.inc W ok id data).1
  | .del ok i id => (s.del ok i id).1

/-- What one write after another returns. -/
def statuses (W : Wrtstat) : DataStorage → List DataWrite → List Status
  | _, [] => []
  | s, w :: rest => s.writeStatus W w :: statuses W (s.write W w) rest

end DataStorage

namespace LogStorage

def write (W : Wrtstat) (s : LogStorage L) : DataWrite → Status × LogStorage L
  | .set ok id data => s.set ok id data
  | .inc ok id data => s.inc ok id data
  | .del ok i id => s.del W ok i id

/-- From the first state the writes return the statuses and come to the last state, with
calls of `compact` and compactions of RocksDB's own wherever they fall. -/
inductive Run (W : Wrtstat) : LogStorage L → List DataWrite → List Status → LogStorage L → Prop
  | done (s : LogStorage L) : Run W s [] [] s
  | write {s s' : LogStorage L} (w : DataWrite) {rest : List DataWrite} {statuses : List Status} :
    Run W (s.write W w).2 rest statuses s' → Run W s (w :: rest) ((s.write W w).1 :: statuses) s'
  | compact {s s' : LogStorage L} (ok : Outcomes) {writes : List DataWrite} {statuses : List Status} :
    Run W (s.compact W ok).2 writes statuses s' → Run W s writes statuses s'
  | compacted {s s₁ s' : LogStorage L} {writes : List DataWrite} {statuses : List Status} :
    s.Compacted W s₁ → Run W s₁ writes statuses s' → Run W s writes statuses s'

/-- The run that compacts all databases after every write. -/
def compactEach (W : Wrtstat) : LogStorage L → List DataWrite → List Status × LogStorage L
  | s, [] => ([], s)
  | s, w :: rest =>
    let r := s.write W w
    let r' := compactEach W (r.2.compact W allOk).2 rest
    (r.1 :: r'.1, r'.2)

lemma run_compactEach (W : Wrtstat) (s : LogStorage L) (writes : List DataWrite) :
    Run W s writes (s.compactEach W writes).1 (s.compactEach W writes).2 := by
  induction writes generalizing s with
  | nil => exact .done s
  | cons w rest ih => exact .write w (.compact allOk (ih _))

/-- Every shard shows what the same shard of a storage that merges at once does. -/
structure Follows (W : Wrtstat) (s : LogStorage L) (d : DataStorage) : Prop where
  hashSize : s.hashSize = d.hashSize
  db : ∀ id, (s.getDb id).Follows W (d.getDb id)

variable {s : LogStorage L} {d : DataStorage}

lemma getDb_putDb (s : LogStorage L) (id : KeyId) (db : LogRocksdb L) (id' : KeyId) :
    (s.putDb id db).getDb id' = if s.shard id' = s.shard id then db else s.getDb id' := by
  have hs : (s.putDb id db).shard id' = s.shard id' := rfl
  rw [getDb, hs]
  exact Function.update_apply _ _ _ _

lemma Follows.putDb (h : Follows W s d) {id : KeyId} {db : LogRocksdb L} {db' : DataRocksdb}
    (hdb : db.Follows W db') : Follows W (s.putDb id db) (d.putDb id db') := by
  refine ⟨h.hashSize, fun id' => ?_⟩
  have hshard : s.shard id' = s.shard id ↔ d.shard id' = d.shard id := by
    simp only [shard, DataStorage.shard, Fin.mk.injEq, h.hashSize]
  rw [getDb_putDb, DataStorage.getDb_putDb]
  simp only [hshard]
  split_ifs
  · exact hdb
  · exact h.db id'

lemma Follows.write (hC : W.CombinesCounts) (hL : L.Faithful) (h : Follows W s d) (w : DataWrite) :
    (s.write W w).1 = d.writeStatus W w ∧ Follows W (s.write W w).2 (d.write W w) := by
  cases w with
  | set ok id data =>
    have hset := (h.db id).set hL ok id data
    exact ⟨hset.1, h.putDb hset.2⟩
  | inc ok id data =>
    have hinc := (h.db id).inc hC hL ok id data
    exact ⟨hinc.1, h.putDb hinc.2⟩
  | del ok i id =>
    have hdel := (h.db id).del hL ok i id
    exact ⟨hdel.1, h.putDb hdel.2⟩

lemma Follows.compacted (hC : W.CombinesCounts) (hL : L.Faithful) (h : Follows W s d) {s₁ : LogStorage L}
    (hc : s.Compacted W s₁) : Follows W s₁ d := by
  obtain ⟨dbs, rfl, hdbs⟩ := hc
  exact ⟨h.hashSize, fun id => (h.db id).compacted hC hL (hdbs _)⟩

lemma compacted_compactLoop (W : Wrtstat) {n : ℕ} (ok : Outcomes) (l : List (Fin n)) (dbs : Fin n → LogRocksdb L)
    (i : Fin n) : (dbs i).Compacted W ((compactLoop W ok l dbs).2 i) := by
  induction l generalizing dbs with
  | nil => exact ⟨rfl, fun _ => .refl⟩
  | cons j rest ih =>
    have hfirst : (dbs i).Compacted W (Function.update dbs j ((dbs j).compact W (ok j)).2 i) := by
      rw [Function.update_apply]
      split_ifs with hij
      · rw [hij]
        exact LogRocksdb.compacted_compact W (dbs j) (ok j)
      · exact ⟨rfl, fun _ => .refl⟩
    simp only [compactLoop]
    split_ifs
    · have hrest := ih (Function.update dbs j ((dbs j).compact W (ok j)).2)
      exact ⟨hrest.resultLimit.trans hfirst.resultLimit, fun k => (hfirst.logs k).trans (hrest.logs k)⟩
    · exact hfirst

lemma compacted_compact (W : Wrtstat) (s : LogStorage L) (ok : Outcomes) : s.Compacted W (s.compact W ok).2 :=
  ⟨_, rfl, compacted_compactLoop W ok _ _⟩

lemma follows_create (W : Wrtstat) (L : InfoLayout) (hashSize resultLimit : ℕ) :
    Follows W (create L hashSize resultLimit) (.create hashSize resultLimit) where
  hashSize := rfl
  db _ := ⟨rfl, fun _ _ he => absurd he List.not_mem_nil, fun _ => rfl⟩

lemma Follows.run (hC : W.CombinesCounts) (hL : L.Faithful) {writes : List DataWrite} {statuses : List Status}
    {s' : LogStorage L} (hr : Run W s writes statuses s') {d : DataStorage} (h : Follows W s d) :
    statuses = d.statuses W writes ∧ Follows W s' (writes.foldl (DataStorage.write W) d) := by
  induction hr generalizing d with
  | done s => exact ⟨rfl, h⟩
  | write w _ ih =>
    have hw := h.write hC hL w
    have hrest := ih hw.2
    exact ⟨congrArg₂ List.cons hw.1 hrest.1, hrest.2⟩
  | compact ok _ ih => exact ih (h.compacted hC hL (compacted_compact W _ ok))
  | compacted hc _ ih => exact ih (h.compacted hC hL hc)

end LogStorage

end WfcBtp
