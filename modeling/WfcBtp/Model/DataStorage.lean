import Mathlib.Logic.Function.Basic
import WfcBtp.Library.OrderedMap
import WfcBtp.Model.Wrtstat

/-!
# Data storage

Points are kept in several RocksDB databases, one per shard, each an ordered map from
pairs of an id and a time. A database write takes its outcome as an argument; a failed
write leaves the database as it is.
-/

namespace WfcBtp
open Library

/-- `key_ts_t`, ordered as `data_comparator` orders it. -/
abbrev KeyTs := KeyId ×ₗ ℤ

/-- Why a storage call returned false, with what its error text names. -/
inductive StorageError
  | badKey
  | emptyData
  | keyPut (name : Name)
  | keyDel (name : Name)
  | dataPut (id : KeyId) (ts : ℤ)
  | dataDel
  deriving DecidableEq, Repr

/-- `true` and no error, or `false` with its error. -/
abbrev Status := Except StorageError Unit

/-- The outcomes of the database writes of one call, in the order it makes them. -/
abbrev Outcomes := ℕ → Bool

/-- No write fails. -/
def allOk : Outcomes := fun _ => true

@[simp] lemma allOk_apply (i : ℕ) : allOk i = true := rfl

structure DataRocksdb where
  resultLimit : ℕ
  content : OrderedMap KeyTs AggregatedInfo

namespace DataRocksdb

/-- `_db->Put` under the point's id and time. -/
def set (db : DataRocksdb) (ok : Bool) (id : KeyId) (data : AggregatedInfo) : Status × DataRocksdb :=
  if ok then (.ok (), { db with content := db.content.set (toLex (id, data.ts)) data })
  else (.error (.dataPut id data.ts), db)

/-- `merge_operator::Merge`: the operand is added to the stored point, or to a zero one. -/
def mergeOperator (W : Wrtstat) (existing : Option AggregatedInfo) (value : AggregatedInfo) :
    AggregatedInfo :=
  W.plus (existing.getD {}) value

/-- `_db->Merge` under the point's id and time. -/
def inc (W : Wrtstat) (db : DataRocksdb) (ok : Bool) (id : KeyId) (data : AggregatedInfo) :
    Status × DataRocksdb :=
  if ok then
    let key := toLex (id, data.ts)
    (.ok (), { db with content := db.content.set key (mergeOperator W (db.content.find? key) data) })
  else (.error (.dataPut id data.ts), db)

def getLoop (id : KeyId) : List (KeyTs × AggregatedInfo) → ℕ → ℕ → List AggregatedInfo →
    List AggregatedInfo
  | [], _, _, result => result
  | e :: rest, offset, limit, result =>
    if (ofLex e.1).1 ≠ id then result
    else if offset = 0 then
      let limit' := if limit ≠ 0 then limit - 1 else limit
      let result := if limit ≠ 0 then result ++ [e.2] else result
      if limit' = 0 then result else getLoop id rest offset limit' result
    else getLoop id rest (offset - 1) limit result

def get (db : DataRocksdb) (id : KeyId) (ts : ℤ) (offset limit : ℕ) : List AggregatedInfo :=
  let limit := if limit = 0 ∨ limit > db.resultLimit then db.resultLimit else limit
  let result := getLoop id (db.content.lowerBound (toLex (id, ts))) offset limit []
  if result.length > db.resultLimit then result.drop (result.length - db.resultLimit) else result

/-- The loop of `del` over an iterator, which keeps seeing the content it was created on. -/
def delLoop (id : KeyId) (ok : Outcomes) : List (KeyTs × AggregatedInfo) → ℕ → DataRocksdb →
    Status × DataRocksdb
  | [], _, db => (.ok (), db)
  | e :: rest, i, db =>
    if (ofLex e.1).1 ≠ id then (.ok (), db)
    else if ok i then delLoop id ok rest (i + 1) { db with content := db.content.erase e.1 }
    else (.error .dataDel, db)

/-- `del`; `i` is the index of its first write among the writes of the call. -/
def del (db : DataRocksdb) (ok : Outcomes) (i : ℕ) (id : KeyId) : Status × DataRocksdb :=
  delLoop id ok (db.content.lowerBound (toLex (id, 0))) i db

end DataRocksdb

/-- `shard_rocksdb`, which `data_storage` forwards every call to. A key's points are in
the database its id selects. -/
structure DataStorage where
  hashSize : ℕ
  hashSize_pos : 0 < hashSize
  dbs : Fin hashSize → DataRocksdb

namespace DataStorage

/-- Freshly created databases; a `hash_size` of zero counts as one. -/
def create (hashSize resultLimit : ℕ) : DataStorage where
  hashSize := if hashSize = 0 then 1 else hashSize
  hashSize_pos := by split <;> omega
  dbs := fun _ => ⟨resultLimit, OrderedMap.empty⟩

/-- `get_db`, as the index it selects. -/
def shard (s : DataStorage) (id : KeyId) : Fin s.hashSize := ⟨id % s.hashSize, Nat.mod_lt _ s.hashSize_pos⟩

def getDb (s : DataStorage) (id : KeyId) : DataRocksdb := s.dbs (s.shard id)

/-- The database `get_db` selects has become `db`. -/
def putDb (s : DataStorage) (id : KeyId) (db : DataRocksdb) : DataStorage :=
  { s with dbs := Function.update s.dbs (s.shard id) db }

def set (s : DataStorage) (ok : Bool) (id : KeyId) (data : AggregatedInfo) : Status × DataStorage :=
  let r := (s.getDb id).set ok id data
  (r.1, s.putDb id r.2)

def inc (W : Wrtstat) (s : DataStorage) (ok : Bool) (id : KeyId) (data : AggregatedInfo) :
    Status × DataStorage :=
  let r := (s.getDb id).inc W ok id data
  (r.1, s.putDb id r.2)

def get (s : DataStorage) (id : KeyId) (ts : ℤ) (offset limit : ℕ) : List AggregatedInfo :=
  (s.getDb id).get id ts offset limit

def del (s : DataStorage) (ok : Outcomes) (i : ℕ) (id : KeyId) : Status × DataStorage :=
  let r := (s.getDb id).del ok i id
  (r.1, s.putDb id r.2)

/-- The point stored under an id and a time. -/
def point? (s : DataStorage) (id : KeyId) (ts : ℤ) : Option AggregatedInfo :=
  (s.getDb id).content.find? (toLex (id, ts))

/-- The count stored under an id and a time, zero where there is no point. -/
def count (s : DataStorage) (id : KeyId) (ts : ℤ) : ℕ := ((s.point? id ts).map (·.count)).getD 0

/-! ### What the calls do to the stored points -/

lemma point?_putDb (s : DataStorage) (id : KeyId) (db : DataRocksdb) (id' : KeyId) (ts : ℤ) :
    (s.putDb id db).point? id' ts =
      if s.shard id' = s.shard id then db.content.find? (toLex (id', ts)) else s.point? id' ts := by
  have hs : (s.putDb id db).shard id' = s.shard id' := rfl
  simp only [point?, getDb, hs]
  simp only [putDb, Function.update_apply]
  split_ifs <;> rfl

lemma putDb_getDb (s : DataStorage) (id : KeyId) : s.putDb id (s.getDb id) = s := by
  unfold putDb getDb
  rw [Function.update_eq_self]

/-- A write that fails changes nothing. -/
lemma set_false (s : DataStorage) (id : KeyId) (d : AggregatedInfo) :
    s.set false id d = (.error (.dataPut id d.ts), s) :=
  Prod.ext rfl (s.putDb_getDb id)

lemma inc_false (W : Wrtstat) (s : DataStorage) (id : KeyId) (d : AggregatedInfo) :
    s.inc W false id d = (.error (.dataPut id d.ts), s) :=
  Prod.ext rfl (s.putDb_getDb id)

lemma point?_set (s : DataStorage) (id : KeyId) (data : AggregatedInfo) (id' : KeyId) (ts : ℤ) :
    (s.set true id data).2.point? id' ts =
      if id' = id ∧ ts = data.ts then some data else s.point? id' ts := by
  simp only [set, DataRocksdb.set, if_true, point?_putDb, OrderedMap.find?_set]
  by_cases hs : s.shard id' = s.shard id
  · simp [hs, point?, getDb]
  · have hne : id' ≠ id := fun h => hs (by rw [h])
    simp [hs, hne]

lemma point?_inc (W : Wrtstat) (s : DataStorage) (id : KeyId) (data : AggregatedInfo) (id' : KeyId)
    (ts : ℤ) :
    (s.inc W true id data).2.point? id' ts =
      if id' = id ∧ ts = data.ts then
        some (DataRocksdb.mergeOperator W (s.point? id ts) data)
      else s.point? id' ts := by
  simp only [inc, DataRocksdb.inc, if_true, point?_putDb, OrderedMap.find?_set]
  by_cases hs : s.shard id' = s.shard id
  · by_cases h : id' = id ∧ ts = data.ts
    · obtain ⟨rfl, rfl⟩ := h
      simp [point?, getDb]
    · simp [hs, h, point?, getDb]
  · have hne : id' ≠ id := fun h => hs (by rw [h])
    simp [hs, hne]

end DataStorage

end WfcBtp
