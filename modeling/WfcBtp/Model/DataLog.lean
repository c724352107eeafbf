import WfcBtp.Library.MergeLog
import WfcBtp.Model.DataStorage

/-!
# Data storage over logs

RocksDB combines what is merged into a point only when it reads or compacts: `_db->Merge`
leaves an operand in the log of the key, and `merge_operator` is called later on, for
operands in the order they were written in. Values are the bytes of an `aggregated_info`.
-/

namespace WfcBtp
open Library

/-- The bytes of an `aggregated_info` in memory: how many there are, and the two casts. -/
structure InfoLayout where
  Slice : Type
  size : Slice → ℕ
  sizeofInfo : ℕ
  read : Slice → AggregatedInfo
  write : AggregatedInfo → Slice

/-- The bytes of a record have its size, and reading them gives the record again. -/
structure InfoLayout.Faithful (L : InfoLayout) : Prop where
  size_write : ∀ data, L.size (L.write data) = L.sizeofInfo
  read_write : ∀ data, L.read (L.write data) = data

/-- Eleven words of eight bytes. -/
def InfoLayout.words : InfoLayout where
  Slice := List ℤ
  size s := 8 * s.length
  sizeofInfo := 88
  read s :=
    { ts := s.getD 0 0
      count := (s.getD 1 0).toNat
      lossy := (s.getD 2 0).toNat
      min := s.getD 3 0
      max := s.getD 4 0
      avg := s.getD 5 0
      perc50 := s.getD 6 0
      perc80 := s.getD 7 0
      perc95 := s.getD 8 0
      perc99 := s.getD 9 0
      perc100 := s.getD 10 0 }
  write d :=
    [d.ts, d.count, d.lossy, d.min, d.max, d.avg, d.perc50, d.perc80, d.perc95, d.perc99, d.perc100]

lemma InfoLayout.faithful_words : words.Faithful := ⟨fun _ => rfl, fun _ => rfl⟩

variable {L : InfoLayout}

namespace MergeOperator

/-- `Deserialize`; none where it returns false. -/
def deserialize (L : InfoLayout) (ival : L.Slice) : Option AggregatedInfo :=
  if L.size ival ≠ L.sizeofInfo then none else some (L.read ival)

/-- `Merge`, which treats what it cannot read as zero. -/
def merge (W : Wrtstat) (L : InfoLayout) (existingValue : Option L.Slice) (value : L.Slice) : L.Slice :=
  let resAg := existingValue.elim {} fun ival => (deserialize L ival).getD {}
  let operAg := (deserialize L value).getD {}
  L.write (W.plus resAg operAg)

end MergeOperator

/-- `data_rocksdb`, with a log for every key. -/
structure LogRocksdb (L : InfoLayout) where
  resultLimit : ℕ
  logs : OrderedMap KeyTs (List (LogEntry L.Slice))

namespace LogRocksdb

def append (db : LogRocksdb L) (id : KeyId) (ts : ℤ) (e : LogEntry L.Slice) : LogRocksdb L :=
  { db with logs := appendLog db.logs (toLex (id, ts)) e }

def set (db : LogRocksdb L) (ok : Bool) (id : KeyId) (data : AggregatedInfo) : Status × LogRocksdb L :=
  if ok then (.ok (), db.append id data.ts (.put (L.write data))) else (.error (.dataPut id data.ts), db)

def inc (db : LogRocksdb L) (ok : Bool) (id : KeyId) (data : AggregatedInfo) : Status × LogRocksdb L :=
  if ok then (.ok (), db.append id data.ts (.merge (L.write data))) else (.error (.dataPut id data.ts), db)

/-- What an iterator shows, its values cast to points. -/
def iterated (W : Wrtstat) (db : LogRocksdb L) : DataRocksdb where
  resultLimit := db.resultLimit
  content := (readLogs (MergeOperator.merge W L) db.logs).mapValues fun _ value => L.read value

def get (W : Wrtstat) (db : LogRocksdb L) (id : KeyId) (ts : ℤ) (offset limit : ℕ) : List AggregatedInfo :=
  (db.iterated W).get id ts offset limit

/-- The loop of `del`, as in `DataRocksdb.delLoop`. -/
def delLoop (id : KeyId) (ok : Outcomes) : List (KeyTs × AggregatedInfo) → ℕ → LogRocksdb L →
    Status × LogRocksdb L
  | [], _, db => (.ok (), db)
  | e :: rest, i, db =>
    if (ofLex e.1).1 ≠ id then (.ok (), db)
    else if ok i then delLoop id ok rest (i + 1) { db with logs := appendLog db.logs e.1 .delete }
    else (.error .dataDel, db)

def del (W : Wrtstat) (db : LogRocksdb L) (ok : Outcomes) (i : ℕ) (id : KeyId) : Status × LogRocksdb L :=
  delLoop id ok ((db.iterated W).content.lowerBound (toLex (id, 0))) i db

/-- `_db->CompactRange` over all keys. -/
def compact (W : Wrtstat) (db : LogRocksdb L) (ok : Bool) : Bool × LogRocksdb L :=
  if ok then (true, { db with logs := compactLogs (MergeOperator.merge W L) db.logs }) else (false, db)

/-- RocksDB compacted something on its own. -/
structure Compacted (W : Wrtstat) (db db' : LogRocksdb L) : Prop where
  resultLimit : db'.resultLimit = db.resultLimit
  logs : Library.Compacted (MergeOperator.merge W L) db.logs db'.logs

end LogRocksdb

/-- `shard_rocksdb` over such databases. -/
structure LogStorage (L : InfoLayout) where
  hashSize : ℕ
  hashSize_pos : 0 < hashSize
  dbs : Fin hashSize → LogRocksdb L

namespace LogStorage

def create (L : InfoLayout) (hashSize resultLimit : ℕ) : LogStorage L where
  hashSize := (DataStorage.create hashSize resultLimit).hashSize
  hashSize_pos := (DataStorage.create hashSize resultLimit).hashSize_pos
  dbs := fun _ => ⟨resultLimit, OrderedMap.empty⟩

def shard (s : LogStorage L) (id : KeyId) : Fin s.hashSize := ⟨id % s.hashSize, Nat.mod_lt _ s.hashSize_pos⟩

def getDb (s : LogStorage L) (id : KeyId) : LogRocksdb L := s.dbs (s.shard id)

def putDb (s : LogStorage L) (id : KeyId) (db : LogRocksdb L) : LogStorage L :=
  { s with dbs := Function.update s.dbs (s.shard id) db }

def set (s : LogStorage L) (ok : Bool) (id : KeyId) (data : AggregatedInfo) : Status × LogStorage L :=
  let r := (s.getDb id).set ok id data
  (r.1, s.putDb id r.2)

def inc (s : LogStorage L) (ok : Bool) (id : KeyId) (data : AggregatedInfo) : Status × LogStorage L :=
  let r := (s.getDb id).inc ok id data
  (r.1, s.putDb id r.2)

def get (W : Wrtstat) (s : LogStorage L) (id : KeyId) (ts : ℤ) (offset limit : ℕ) : List AggregatedInfo :=
  (s.getDb id).get W id ts offset limit

def del (W : Wrtstat) (s : LogStorage L) (ok : Outcomes) (i : ℕ) (id : KeyId) : Status × LogStorage L :=
  let r := (s.getDb id).del W ok i id
  (r.1, s.putDb id r.2)

/-- The loop of `compact`, which stops at the first database that fails. -/
def compactLoop (W : Wrtstat) {n : ℕ} (ok : Outcomes) : List (Fin n) → (Fin n → LogRocksdb L) →
    Bool × (Fin n → LogRocksdb L)
  | [], dbs => (true, dbs)
  | i :: rest, dbs =>
    let r := (dbs i).compact W (ok i)
    let dbs := Function.update dbs i r.2
    if r.1 then compactLoop W ok rest dbs else (false, dbs)

def compact (W : Wrtstat) (s : LogStorage L) (ok : Outcomes) : Bool × LogStorage L :=
  let r := compactLoop W ok (List.finRange s.hashSize) s.dbs
  (r.1, { s with dbs := r.2 })

/-- Some databases compacted something on their own. -/
def Compacted (W : Wrtstat) (s s' : LogStorage L) : Prop :=
  ∃ dbs, s' = { s with dbs := dbs } ∧ ∀ i, (s.dbs i).Compacted W (dbs i)

end LogStorage

end WfcBtp
