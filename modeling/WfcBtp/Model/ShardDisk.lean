import WfcBtp.Library.Simulation
import WfcBtp.Model.DataStorage

/-!
# The shards on disk

The database of a shard is in the directory with its number. A process opens as many of them
as its `hash_size` says, calls them, and leaves what is in other directories as it was.
-/

namespace WfcBtp
open Library

/-- `data_storage_options`, without the paths and the time to live. -/
structure DataStorageOptions where
  hashSize : ℕ := 128
  resultLimit : ℕ := 3000
  createIfMissing : Bool := true
  deriving DecidableEq, Repr

namespace DataStorageOptions

/-- The size of `_dbs`. -/
def size (opt : DataStorageOptions) : ℕ := if opt.hashSize = 0 then 1 else opt.hashSize

lemma size_pos (opt : DataStorageOptions) : 0 < opt.size := by
  unfold size
  split_ifs <;> omega

/-- The number of the directory that a key's points are in. -/
def shard (opt : DataStorageOptions) (id : KeyId) : ℕ := id % opt.size

end DataStorageOptions

/-- What `DBWithTTL::Open` does in a directory. It may fail before or after it has created a database. -/
inductive Opening
  | opened
  | failed (created : Bool)
  deriving DecidableEq, Repr

/-- The databases in the directories with these numbers, where there are any. -/
abbrev ShardDisk := ℕ → Option (OrderedMap KeyTs AggregatedInfo)

namespace ShardDisk

def content (disk : ShardDisk) (i : ℕ) : OrderedMap KeyTs AggregatedInfo := (disk i).getD OrderedMap.empty

/-- There is a database in the directory. -/
def create (disk : ShardDisk) (i : ℕ) : ShardDisk := Function.update disk i (some (disk.content i))

/-- The loop of `shard_rocksdb::open`, which stops at the first database that cannot be opened. -/
def openLoop (createIfMissing : Bool) (opening : ℕ → Opening) : List ℕ → ShardDisk → Bool × ShardDisk
  | [], disk => (true, disk)
  | i :: rest, disk =>
    if !createIfMissing && (disk i).isNone then (false, disk)
    else
      match opening i with
      | .opened => openLoop createIfMissing opening rest (disk.create i)
      | .failed created => (false, if created then disk.create i else disk)

end ShardDisk

/-- A call of `data_storage`, with the outcomes of its database writes. -/
inductive DataCall
  | set (ok : Bool) (id : KeyId) (data : AggregatedInfo)
  | inc (ok : Bool) (id : KeyId) (data : AggregatedInfo)
  | del (ok : Outcomes) (id : KeyId)
  | get (id : KeyId) (ts : ℤ) (offset limit : ℕ)

inductive DataAnswer
  | status (status : Status)
  | points (result : List AggregatedInfo)
  deriving DecidableEq

def DataCall.id : DataCall → KeyId
  | .set _ id _ => id
  | .inc _ id _ => id
  | .del _ id => id
  | .get id _ _ _ => id

namespace DataStorage

/-- The databases that `open` has opened. -/
def ofDisk (opt : DataStorageOptions) (disk : ShardDisk) : DataStorage where
  hashSize := opt.size
  hashSize_pos := opt.size_pos
  dbs i := ⟨opt.resultLimit, disk.content i⟩

/-- The disk, with the databases of the storage on it. -/
def onDisk (s : DataStorage) (disk : ShardDisk) : ShardDisk := fun i =>
  if h : i < s.hashSize then some (s.dbs ⟨i, h⟩).content else disk i

def reply (W : Wrtstat) (s : DataStorage) : DataCall → DataAnswer × DataStorage
  | .set ok id data => (.status (s.set ok id data).1, (s.set ok id data).2)
  | .inc ok id data => (.status (s.inc W ok id data).1, (s.inc W ok id data).2)
  | .del ok id => (.status (s.del ok 0 id).1, (s.del ok 0 id).2)
  | .get id ts offset limit => (.points (s.get id ts offset limit), s)

end DataStorage

/-- A process: how it opens data storage, and its calls. -/
structure DataSession where
  options : DataStorageOptions
  opening : ℕ → Opening := fun _ => .opened
  calls : List DataCall

/-- What the calls return, if the databases open, and what is on disk afterwards. -/
def DataSession.run (W : Wrtstat) (disk : ShardDisk) (p : DataSession) : Option (List DataAnswer) × ShardDisk :=
  let r := disk.openLoop p.options.createIfMissing p.opening (List.range p.options.size)
  if r.1 then
    let s := DataStorage.ofDisk p.options r.2
    (some (answers (DataStorage.reply W) s p.calls), (afterInputs (DataStorage.reply W) s p.calls).onDisk r.2)
  else (none, r.2)

end WfcBtp
