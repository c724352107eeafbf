import WfcBtp.Model.KeyCache
import WfcBtp.Model.KeyStorage

/-!
# Storage

The public calls. Each goes to the cache first and then writes key storage and data
storage, and stops at the first database write that fails. `clock` is the reading of
`time(0)` the call makes.
-/

namespace WfcBtp

structure StorageOptions where
  keyCache : KeyCacheOptions
  dataTtl : ℤ := 0
  disableMerge : Bool := false

structure Storage (W : Wrtstat) where
  keyCache : KeyCache W
  keyStorage : KeyStorage
  dataStorage : DataStorage
  ttl : ℤ
  resolution : ℤ
  disableMerge : Bool

namespace Storage

variable {W : Wrtstat}

/-- The load handler of `open` on one batch. -/
def loadFun (clock : ℤ) (kc : KeyCache W) (vsn : List StoredName) : KeyCache W :=
  vsn.foldl (fun kc sn => (kc.init clock sn).2) kc

/-- `open` over the databases of an earlier storage, which it can open. -/
def openOn (opt : StorageOptions) (clock : ℤ) (ks : KeyStorage) (ds : DataStorage) : Storage W :=
  let kc := (ks.load 10000).foldl (loadFun clock) (KeyCache.new opt.keyCache)
  { keyCache := (kc.gc clock).2
    keyStorage := ks
    dataStorage := ds
    ttl := opt.dataTtl
    resolution := opt.keyCache.resolution
    disableMerge := opt.disableMerge }

def gc (s : Storage W) (clock : ℤ) : ℕ × Storage W :=
  let r := s.keyCache.gc clock
  (r.1, { s with keyCache := r.2 })

/-- Writes points with `set`, the `i`th write of the call first. -/
def setAll (ok : Outcomes) (id : KeyId) : List AggregatedInfo → ℕ → DataStorage → Status × DataStorage
  | [], _, ds => (.ok (), ds)
  | ud :: rest, i, ds =>
    match ds.set (ok i) id ud with
    | (.ok _, ds) => setAll ok id rest (i + 1) ds
    | (.error e, ds) => (.error e, ds)

/-- Writes points with `inc`, the `i`th write of the call first. -/
def incAll (W : Wrtstat) (ok : Outcomes) (id : KeyId) : List AggregatedInfo → ℕ → DataStorage →
    Status × DataStorage
  | [], _, ds => (.ok (), ds)
  | ud :: rest, i, ds =>
    match ds.inc W (ok i) id ud with
    | (.ok _, ds) => incAll W ok id rest (i + 1) ds
    | (.error e, ds) => (.error e, ds)

/-- Steps 2 and 3 of `add` and `merge`: the stored key, then the points. -/
def storeKeyAndData (s : Storage W) (ok : Outcomes) (name : Name) (r : CacheResult W) :
    Status × Storage W :=
  match s.keyStorage.set (ok 0) name r.upKey with
  | (.ok _, ks) =>
    let d := setAll ok r.id r.upData 1 s.dataStorage
    (d.1, { s with keyStorage := ks, dataStorage := d.2 })
  | (.error e, ks) => (.error e, { s with keyStorage := ks })

def add (s : Storage W) (clock : ℤ) (ok : Outcomes) (name : Name) (data : AggregatedData) :
    Status × Storage W :=
  let r := s.keyCache.add clock name data
  let s := { s with keyCache := r.cache }
  if r.id = badKey then (.error .badKey, s)
  else if r.isLast then s.storeKeyAndData ok name r
  else
    let d := if s.disableMerge then setAll ok r.id r.upData 0 s.dataStorage
      else incAll W ok r.id r.upData 0 s.dataStorage
    (d.1, { s with dataStorage := d.2 })

def merge (s : Storage W) (clock : ℤ) (ok : Outcomes) (name : Name) (data : List AggregatedInfo) :
    Status × Storage W :=
  if data.isEmpty then (.error .emptyData, s)
  else
    let r := s.keyCache.merge clock name data
    let s := { s with keyCache := r.cache }
    if r.id = badKey then (.error .badKey, s) else s.storeKeyAndData ok name r

/-- `get`; a time of zero means the start of the time to live. -/
def get (s : Storage W) (clock : ℤ) (name : Name) (ts : ℤ) (offset limit : ℕ) :
    Except StorageError (List AggregatedInfo) :=
  let id := s.keyCache.getId name
  if id = badKey then .error .badKey
  else
    let ts := if ts = 0 then (clock - s.ttl) * s.resolution else ts
    .ok (s.dataStorage.get id ts offset limit)

def del (s : Storage W) (ok : Outcomes) (name : Name) : Status × Storage W :=
  let r := s.keyCache.del name
  let s := { s with keyCache := r.2 }
  if r.1 = badKey then (.error .badKey, s)
  else
    match s.keyStorage.del (ok 0) name with
    | (.ok _, ks) =>
      let d := s.dataStorage.del ok 1 r.1
      (d.1, { s with keyStorage := ks, dataStorage := d.2 })
    | (.error e, ks) => (.error e, { s with keyStorage := ks })

/-- The loop of `close` over the released keys; `i` counts the writes made before. -/
def closeLoop (ok : Outcomes) : List (StoredName × List AggregatedInfo) → ℕ → Storage W →
    Status × Storage W
  | [], _, s => (.ok (), s)
  | kv :: rest, i, s =>
    match s.keyStorage.set (ok i) kv.1.name kv.1.toStoredKey with
    | (.ok _, ks) =>
      let s := { s with keyStorage := ks }
      match setAll ok (s.keyCache.getId kv.1.name) kv.2 (i + 1) s.dataStorage with
      | (.ok _, ds) => closeLoop ok rest (i + 1 + kv.2.length) { s with dataStorage := ds }
      | (.error e, ds) => (.error e, { s with dataStorage := ds })
    | (.error e, ks) => (.error e, { s with keyStorage := ks })

/-- `close`: every open period is popped and written before the databases are closed. -/
def close (s : Storage W) (ok : Outcomes) : Status × Storage W :=
  let r := s.keyCache.release
  closeLoop ok r.1 0 { s with keyCache := r.2 }

end Storage

end WfcBtp
