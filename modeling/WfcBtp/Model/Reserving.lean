import WfcBtp.Library.Guarded
import WfcBtp.Model.Calls
import WfcBtp.Model.Checked

/-!
# Reserved memory

The calls that reserve what they are told to before they read anything, with what they do not
return from: a `reserve` beyond what a vector can get, and a time that 64 bits do not hold.
-/

namespace WfcBtp
open Library

/-- `reserve`, which throws above `room`: `std::length_error` beyond `max_size`, or
`std::bad_alloc` where there is less memory. -/
def reserve (room n : ℕ) : Option Unit := if n ≤ room then some () else none

/-- The result of `time_type` arithmetic, whose overflow is undefined. -/
def timeValue (v : ℤ) : Option ℤ := if Fits v then some v else none

/-- `get`, which reserves the whole result limit, whatever `limit` is. -/
def DataRocksdb.getReserving (room : ℕ) (db : DataRocksdb) (id : KeyId) (ts : ℤ) (offset limit : ℕ) :
    Option (List AggregatedInfo) := do
  reserve room db.resultLimit
  some (db.get id ts offset limit)

def DataStorage.getReserving (room : ℕ) (s : DataStorage) (id : KeyId) (ts : ℤ) (offset limit : ℕ) :
    Option (List AggregatedInfo) :=
  (s.getDb id).getReserving room id ts offset limit

/-- `load`, which reserves a full batch. -/
def KeyStorage.loadReserving (room : ℕ) (s : KeyStorage) (step : ℕ) : Option (List (List StoredName)) := do
  reserve room (if step = 0 then 16 else step)
  some (s.load step)

namespace Storage

variable {W : Wrtstat}

/-- The cache that the load handler of `open` has filled. -/
def loadCacheReserving (room : ℕ) (opt : KeyCacheOptions) (clock : ℤ) (ks : KeyStorage) : Option (KeyCache W) := do
  let batches ← ks.loadReserving room 10000
  batches.foldlM (loadFun? clock) (KeyCache.new opt)

/-- `(time(nullptr) - _ttl) * _resolution`. -/
def defaultTime (s : Storage W) (clock : ℤ) : Option ℤ := do
  let live ← timeValue (clock - s.ttl)
  timeValue (live * s.resolution)

def getReserving (room : ℕ) (s : Storage W) (clock : ℤ) (name : Name) (ts : ℤ) (offset limit : ℕ) :
    Option (Except StorageError (List AggregatedInfo)) :=
  let id := s.keyCache.getId name
  if id = badKey then some (.error .badKey)
  else do
    let ts ← (if ts = 0 then s.defaultTime clock else some ts)
    let points ← s.dataStorage.getReserving room id ts offset limit
    some (.ok points)

/-- The answer to a client, if the call returns. -/
def reply? (room : ℕ) (s : Storage W) : ClientCall → Option (ClientAnswer × Storage W)
  | .add clock ok name data => (s.add? clock ok name data).map fun r => (.returned r.1, r.2)
  | .merge clock ok name data => (s.merge? clock ok name data).map fun r => (.returned r.1, r.2)
  | .del ok name => (s.del? ok name).map fun r => (.returned r.1, r.2)
  | .get clock name ts offset limit =>
    (s.getReserving room clock name ts offset limit).map fun points => (.points points, s)
  | .gc clock => some (.evicted (s.gc clock).1, (s.gc clock).2)

end Storage

/-! ### When they return -/

lemma reserve_guarded (room n : ℕ) : Guarded (reserve room n) (n ≤ room) () := ⟨fun h => if_pos h, fun h => if_neg h⟩

lemma timeValue_guarded (v : ℤ) : Guarded (timeValue v) (Fits v) v := ⟨fun h => if_pos h, fun h => if_neg h⟩

lemma DataStorage.getReserving_guarded (room : ℕ) (s : DataStorage) (id : KeyId) (ts : ℤ) (offset limit : ℕ) :
    Guarded (s.getReserving room id ts offset limit) ((s.getDb id).resultLimit ≤ room) (s.get id ts offset limit) :=
  (reserve_guarded room _).bind_of_eq_some rfl

lemma KeyStorage.loadReserving_guarded (room : ℕ) (s : KeyStorage) (step : ℕ) :
    Guarded (s.loadReserving room step) ((if step = 0 then 16 else step) ≤ room) (s.load step) :=
  (reserve_guarded room _).bind_of_eq_some rfl

end WfcBtp
