import WfcBtp.Model.Lifecycle

/-!
# The life cycle of the domain object

`start_`, `stop` and the requests of `ag_domain`, with the timer of the garbage collection, over
the storage that it points to. Of a request only what it makes the storage call is left, and the
keys that the cache has afterwards.
-/

namespace WfcBtp.Lifecycle
open Library Library.Owning

/-! ### Requests to the storage -/

namespace KeyStorage

/-- `del` and `compact` follow the pointers that `set` follows. -/
def del (ok : Bool) (k : KeyStorage) : Owning Bool := k.set ok

def compact (ok : Bool) (k : KeyStorage) : Owning Bool := k.set ok

end KeyStorage

namespace ShardRocksdb

/-- The loop of `compact`; `i` counts the calls made before. -/
def compactLoop (ok : Outcomes) : List (Option DataRocksdb) → ℕ → Owning Bool
  | [], _ => pure true
  | p :: rest, i => do
    let r ← deref p
    r.db.use
    if !ok i then pure false else compactLoop ok rest (i + 1)

end ShardRocksdb

namespace DataStorage

/-- `get` and `del` follow the pointers that `set` follows, as `inc` does. -/
def get (ok : Bool) (id : KeyId) (d : DataStorage) : Owning Bool := d.set ok id

def del (ok : Bool) (id : KeyId) (d : DataStorage) : Owning Bool := d.set ok id

def compact (ok : Outcomes) (d : DataStorage) : Owning Bool := do
  let s ← deref d.db
  ShardRocksdb.compactLoop ok s.dbs 1

end DataStorage

/-- A call of the storage, with what its cache answers: the id and the number of points to write,
or the id of the name if it has one. `select` stands for `tree` as well. -/
inductive Request
  | select
  | add (isLast : Bool) (id : KeyId) (points : ℕ)
  | merge (id : KeyId) (points : ℕ)
  | get (id : Option KeyId)
  | del (id : Option KeyId)
  | compact

namespace Storage

/-- A call of the cache, which has these keys afterwards. -/
def useCache (keys : List (KeyId × ℕ)) (s : Storage) : Owning Storage := do
  let _ ← deref s.keyCache
  pure { s with keyCache := some keys }

def gc (keys : List (KeyId × ℕ)) (s : Storage) : Owning Storage := s.useCache keys

/-- The writes of a key and its points. -/
def setKeyAndData (ok : Outcomes) (s : Storage) (id : KeyId) (points : ℕ) : Owning Bool := do
  let k ← deref s.keyStorage
  let res ← k.set (ok 0)
  if !res then pure false else setAll ok s id points 1

/-- A call with the keys that the cache has after it. -/
def call (ok : Outcomes) (keys : List (KeyId × ℕ)) (s : Storage) : Request → Owning (Bool × Storage)
  | .select => do
    let _ ← deref s.keyCache
    pure (true, s)
  | .add isLast id points => do
    let s ← s.useCache keys
    let res ← (if isLast then setKeyAndData ok s id points else setAll ok s id points 0)
    pure (res, s)
  | .merge id points => do
    let s ← s.useCache keys
    let res ← setKeyAndData ok s id points
    pure (res, s)
  | .get id => do
    let _ ← deref s.keyCache
    match id with
    | none => pure (false, s)
    | some id =>
      let d ← deref s.dataStorage
      let res ← d.get (ok 0) id
      pure (res, s)
  | .del id => do
    let s ← s.useCache keys
    match id with
    | none => pure (false, s)
    | some id =>
      let k ← deref s.keyStorage
      let res ← k.del (ok 0)
      if !res then pure (false, s)
      else do
        let d ← deref s.dataStorage
        let res ← d.del (ok 1) id
        pure (res, s)
  | .compact => do
    let k ← deref s.keyStorage
    let res ← k.compact (ok 0)
    if !res then pure (false, s)
    else do
      let d ← deref s.dataStorage
      let res ← d.compact ok
      pure (res, s)

end Storage

/-! ### The domain -/

/-- What the calls that make the directories return, if there is a global object that makes them. -/
structure Directories where
  hasGlobal : Bool := true
  key : Bool := true
  data : Bool := true
  deriving DecidableEq, Repr

/-- The storage, and whether a timer calls its garbage collection. -/
structure Domain where
  storage : Option Storage := none
  gcTimer : Bool := false

namespace Domain

/-- `start_`; a storage that does not open is dropped, the timer is left as it is then. -/
def start_ (failedOpen : DbPtr → DbPtr) (dirs : Directories) (env : Env) (gcInterval : ℤ) (d : Domain) :
    Owning Domain :=
  if dirs.hasGlobal && !dirs.key then pure d
  else if dirs.hasGlobal && !dirs.data then pure d
  else do
    drop Storage.destroy d.storage
    let (res, s) ← Storage.open_ failedOpen env {}
    if !res then do
      s.destroy
      pure { d with storage := none }
    else pure { storage := some s, gcTimer := gcInterval ≠ 0 }

def stop (ok : Outcomes) (d : Domain) : Owning Domain := do
  let s ← deref d.storage
  let (_, s) ← s.close ok
  pure { d with storage := some s }

def request (ok : Outcomes) (keys : List (KeyId × ℕ)) (r : Request) (d : Domain) : Owning Domain := do
  let s ← deref d.storage
  let (_, s) ← s.call ok keys r
  pure { d with storage := some s }

/-- The timer, if there is one. -/
def timer (keys : List (KeyId × ℕ)) (d : Domain) : Owning Domain :=
  if !d.gcTimer then pure d
  else do
    let s ← deref d.storage
    let s ← s.gc keys
    pure { d with storage := some s }

/-- A compaction from the queue, whose weak pointer has not expired: only the domain owns the storage,
so that it is the one the domain has now. -/
def compaction (ok : Outcomes) (d : Domain) : Owning Domain :=
  match d.storage with
  | none => pure d
  | some s => do
    let (_, s) ← s.call ok [] .compact
    pure { d with storage := some s }

end Domain

/-- After the destruction of a domain object the next one is constructed. The timer of the old object
is taken to fire no more: nothing releases it, and it would call the old object. -/
inductive DomainEvent
  | start (dirs : Directories) (env : Env) (gcInterval : ℤ)
  | stop (ok : Outcomes)
  | request (ok : Outcomes) (keys : List (KeyId × ℕ)) (r : Request)
  | timer (keys : List (KeyId × ℕ))
  | compaction (ok : Outcomes)
  | destroy

def Domain.step (failedOpen : DbPtr → DbPtr) (d : Domain) : DomainEvent → Owning Domain
  | .start dirs env gcInterval => d.start_ failedOpen dirs env gcInterval
  | .stop ok => d.stop ok
  | .request ok keys r => d.request ok keys r
  | .timer keys => d.timer keys
  | .compaction ok => d.compaction ok
  | .destroy => do
    drop Storage.destroy d.storage
    pure {}

/-- A life from the construction of the first domain object, with no handle opened before. -/
def Domain.run (failedOpen : DbPtr → DbPtr) (events : List DomainEvent) : Option (Domain × Handles) :=
  events.foldlM (Domain.step failedOpen) {} {}

end WfcBtp.Lifecycle
