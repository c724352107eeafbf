import WfcBtp.Library.Ownership
import WfcBtp.Model.DataStorage

/-!
# The life cycle of the storage objects

Construction, `open`, `close` and destruction of the storage and of its parts, without what
they store. A shared pointer is an `Option`; a plain pointer to a database has no
initializer, so that it may also never have been assigned. Following a pointer that leads
nowhere goes wrong.
-/

namespace WfcBtp.Lifecycle
open Library Library.Owning

/-- A plain pointer to a database. -/
inductive DbPtr
  | neverAssigned
  | absent
  | assigned (db : ℕ)
  deriving DecidableEq, Repr

/-- Call a method of the database. -/
def DbPtr.use : DbPtr → Owning Unit
  | .assigned _ => pure ()
  | _ => fault

/-- Delete the database unless the pointer is null, and make it null. -/
def DbPtr.closeDb : DbPtr → Owning (Bool × DbPtr)
  | .neverAssigned => fault
  | .absent => pure (false, .absent)
  | .assigned db => do
    release db
    pure (true, .absent)

/-- Follow a shared pointer. -/
def deref {α : Type} : Option α → Owning α
  | some a => pure a
  | none => fault

/-- The only shared pointer to an object goes away. -/
def drop {α : Type} (destroy : α → Owning Unit) : Option α → Owning Unit
  | some a => destroy a
  | none => pure ()

/-- What the calls made by one `open` of the storage return, and the keys that the cache
holds after it, each with the number of points that it has open at the next `close`. -/
structure Env where
  keyDirectory : Bool := true
  keyOptions : Bool := true
  keyDb : Bool := true
  dataDirectory : Bool := true
  dataOptions : Bool := true
  shardDb : ℕ → Bool := fun _ => true
  hashSize : ℕ := 128
  keyIterator : Bool := true
  keys : List (KeyId × ℕ) := []

/-! ### Key storage -/

structure KeyRocksdb where
  db : DbPtr := .neverAssigned

namespace KeyRocksdb

def close (r : KeyRocksdb) : Owning (Bool × KeyRocksdb) := do
  let (res, db) ← r.db.closeDb
  pure (res, { r with db := db })

def destroy (r : KeyRocksdb) : Owning Unit := do
  let _ ← r.close
  pure ()

/-- `failedOpen` is what `DBWithTTL::Open` leaves in the pointer when it fails. -/
def open_ (failedOpen : DbPtr → DbPtr) (env : Env) (r : KeyRocksdb) : Owning (Bool × KeyRocksdb) :=
  if !env.keyDirectory then pure (false, r)
  else if !env.keyOptions then pure (false, r)
  else if !env.keyDb then pure (false, { r with db := failedOpen r.db })
  else do
    let db ← acquire
    pure (true, { r with db := .assigned db })

end KeyRocksdb

structure KeyStorage where
  rocksdb : Option KeyRocksdb := none

namespace KeyStorage

def open_ (failedOpen : DbPtr → DbPtr) (env : Env) (k : KeyStorage) : Owning (Bool × KeyStorage) := do
  drop KeyRocksdb.destroy k.rocksdb
  let (res, r) ← KeyRocksdb.open_ failedOpen env {}
  pure (res, { k with rocksdb := some r })

def close (k : KeyStorage) : Owning (Bool × KeyStorage) := do
  let r ← deref k.rocksdb
  let (res, r) ← r.close
  r.destroy
  pure (res, { k with rocksdb := none })

def destroy (k : KeyStorage) : Owning Unit := do
  let (_, k) ← k.close
  drop KeyRocksdb.destroy k.rocksdb

def set (ok : Bool) (k : KeyStorage) : Owning Bool := do
  let r ← deref k.rocksdb
  r.db.use
  pure ok

def load (env : Env) (k : KeyStorage) : Owning Bool := do
  let r ← deref k.rocksdb
  r.db.use
  pure env.keyIterator

end KeyStorage

/-! ### Data storage -/

structure DataRocksdb where
  db : DbPtr := .neverAssigned

namespace DataRocksdb

def open_ (db : ℕ) (r : DataRocksdb) : DataRocksdb := { r with db := .assigned db }

def close (r : DataRocksdb) : Owning (Bool × DataRocksdb) := do
  let (res, db) ← r.db.closeDb
  pure (res, { r with db := db })

def destroy (r : DataRocksdb) : Owning Unit := do
  let _ ← r.close
  pure ()

end DataRocksdb

structure ShardRocksdb where
  dbs : List (Option DataRocksdb) := []

namespace ShardRocksdb

/-- The loop of `open`, from shard `i`, over the `n` pointers that are still null. -/
def openLoop (env : Env) : ℕ → ℕ → Owning (Bool × List (Option DataRocksdb))
  | 0, _ => pure (true, [])
  | n + 1, i =>
    if !env.shardDb i then pure (false, List.replicate (n + 1) none)
    else do
      let db ← acquire
      let (res, rest) ← openLoop env n (i + 1)
      pure (res, some (DataRocksdb.open_ db {}) :: rest)

/-- `open` of a new object. -/
def open_ (env : Env) : Owning (Bool × ShardRocksdb) :=
  if !env.dataDirectory then pure (false, {})
  else if !env.dataOptions then pure (false, {})
  else do
    let (res, dbs) ← openLoop env (if env.hashSize = 0 then 1 else env.hashSize) 0
    pure (res, { dbs := dbs })

/-- The loop of `close`, which stops at the first shard that does not close. -/
def closeLoop : List (Option DataRocksdb) → Owning (Bool × List (Option DataRocksdb))
  | [] => pure (true, [])
  | none :: rest => do
    let (res, rest) ← closeLoop rest
    pure (res, none :: rest)
  | some r :: rest => do
    let (res, r) ← r.close
    if !res then pure (false, some r :: rest)
    else do
      let (res, rest) ← closeLoop rest
      pure (res, some r :: rest)

/-- `_dbs.clear()`. -/
def clear : List (Option DataRocksdb) → Owning Unit
  | [] => pure ()
  | p :: rest => do
    drop DataRocksdb.destroy p
    clear rest

def close (s : ShardRocksdb) : Owning (Bool × ShardRocksdb) :=
  if s.dbs.isEmpty then pure (false, s)
  else do
    let (res, dbs) ← closeLoop s.dbs
    if !res then pure (false, { s with dbs := dbs })
    else do
      clear dbs
      pure (true, { s with dbs := [] })

def destroy (s : ShardRocksdb) : Owning Unit := do
  let (_, s) ← s.close
  clear s.dbs

def getDb (id : KeyId) (s : ShardRocksdb) : Owning DataRocksdb := deref (s.dbs[id % s.dbs.length]?).join

def set (ok : Bool) (id : KeyId) (s : ShardRocksdb) : Owning Bool := do
  let r ← s.getDb id
  r.db.use
  pure ok

end ShardRocksdb

structure DataStorage where
  db : Option ShardRocksdb := none

namespace DataStorage

def open_ (env : Env) (d : DataStorage) : Owning (Bool × DataStorage) := do
  drop ShardRocksdb.destroy d.db
  let (res, s) ← ShardRocksdb.open_ env
  pure (res, { d with db := some s })

def close (d : DataStorage) : Owning (Bool × DataStorage) := do
  let s ← deref d.db
  let (res, s) ← s.close
  s.destroy
  pure (res, { d with db := none })

/-- The destructor has an empty body. -/
def destroy (d : DataStorage) : Owning Unit := drop ShardRocksdb.destroy d.db

def set (ok : Bool) (id : KeyId) (d : DataStorage) : Owning Bool := do
  let s ← deref d.db
  s.set ok id

end DataStorage

/-! ### The storage -/

/-- Of the key cache only the ids of its keys are left and how many points each has open. -/
structure Storage where
  keyCache : Option (List (KeyId × ℕ)) := none
  keyStorage : Option KeyStorage := none
  dataStorage : Option DataStorage := none

namespace Storage

def open_ (failedOpen : DbPtr → DbPtr) (env : Env) (s : Storage) : Owning (Bool × Storage) := do
  drop KeyStorage.destroy s.keyStorage
  let (res, k) ← KeyStorage.open_ failedOpen env {}
  let s := { s with keyCache := some [], keyStorage := some k }
  if !res then pure (false, s)
  else do
    drop DataStorage.destroy s.dataStorage
    let (res, d) ← DataStorage.open_ env {}
    let s := { s with dataStorage := some d }
    if !res then pure (false, s)
    else do
      let res ← k.load env
      if !res then pure (false, s) else pure (true, { s with keyCache := some env.keys })

/-- The inner loop of `close` over the points of a key. -/
def setAll (ok : Outcomes) (s : Storage) (id : KeyId) : ℕ → ℕ → Owning Bool
  | 0, _ => pure true
  | n + 1, i => do
    let d ← deref s.dataStorage
    let res ← d.set (ok i) id
    if !res then pure false else setAll ok s id n (i + 1)

/-- The loop of `close` over the released keys; `i` counts the writes made before. -/
def closeLoop (ok : Outcomes) (s : Storage) : List (KeyId × ℕ) → ℕ → Owning Bool
  | [], _ => pure true
  | kv :: rest, i => do
    let k ← deref s.keyStorage
    let res ← k.set (ok i)
    if !res then pure false
    else do
      let res ← setAll ok s kv.1 kv.2 (i + 1)
      if !res then pure false else closeLoop ok s rest (i + 1 + kv.2)

/-- `release` leaves the keys in the cache and takes their open points. -/
def released (keys : List (KeyId × ℕ)) : List (KeyId × ℕ) := keys.map fun kv => (kv.1, 0)

def close (ok : Outcomes) (s : Storage) : Owning (Bool × Storage) := do
  let keys ← deref s.keyCache
  let s := { s with keyCache := some (released keys) }
  let res ← closeLoop ok s keys 0
  if !res then pure (false, s)
  else do
    let k ← deref s.keyStorage
    let (res, k) ← k.close
    let s := { s with keyStorage := some k }
    if !res then pure (false, s)
    else do
      let d ← deref s.dataStorage
      let (res, d) ← d.close
      pure (res, { s with dataStorage := some d })

/-- The destructor has an empty body; the members go in the reverse order. -/
def destroy (s : Storage) : Owning Unit := do
  drop DataStorage.destroy s.dataStorage
  drop KeyStorage.destroy s.keyStorage

end Storage

/-- After the destruction of a storage the next one is constructed. -/
inductive Event
  | open_ (env : Env)
  | close (ok : Outcomes)
  | destroy

def step (failedOpen : DbPtr → DbPtr) (s : Storage) : Event → Owning Storage
  | .open_ env => do
    let (_, s) ← s.open_ failedOpen env
    pure s
  | .close ok => do
    let (_, s) ← s.close ok
    pure s
  | .destroy => do
    s.destroy
    pure {}

/-- A life cycle from the construction of the first storage, with no handle opened before. -/
def run (failedOpen : DbPtr → DbPtr) (events : List Event) : Option (Storage × Handles) :=
  events.foldlM (step failedOpen) {} {}

end WfcBtp.Lifecycle
