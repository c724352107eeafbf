import WfcBtp.Model.Storage

/-!
# Checked divisions

The calls of the cache and the storage once more, with every division and every choice of
an element by a remainder looked at: `none` where the divisor is zero or the index is beyond
the list. `_mutex_list` has `mutex_hash` elements and `_dbs` as many as `open` has resized it
to.
-/

namespace WfcBtp
open Library

/-- `list[k % list.size()]`, as the index. -/
def chooseIndex (k size : ℕ) : Option (Fin size) :=
  if size = 0 then none
  else if h : k % size < size then some ⟨k % size, h⟩
  else none

/-- The quotient of two `time_type` values. -/
def divide (a b : ℤ) : Option ℤ := if b = 0 then none else some (a.tdiv b)

namespace KeyCache

variable {W : Wrtstat}

def getMutex? (c : KeyCache W) (k : KeyId) : Option ℕ := (chooseIndex k c.options.mutexHash).map Fin.val

def getOrCreate? (c : KeyCache W) (clock : ℤ) (name : Name) (nowTs : ℤ) :
    Option (KeyAggregator W × KeyCache W) :=
  match c.keyMap.find? name with
  | some ka => some (ka, c.updateTime clock name 0)
  | none => do
    let id := (c.keyCounter + 1) % 2 ^ 64
    let m ← c.getMutex? id
    let ka := KeyAggregator.create m id nowTs c.options
    some (ka, { c with keyCounter := id, keyMap := c.keyMap.set name ka }.updateTime clock name 0)

def create? (c : KeyCache W) (clock : ℤ) (name : Name) (nowTs : ℤ) : Option (KeyId × KeyCache W) := do
  let r ← c.getOrCreate? clock name nowTs
  some (r.1.getId, r.2)

def add? (c : KeyCache W) (clock : ℤ) (name : Name) (data : AggregatedData) : Option (CacheResult W) := do
  let p ← c.getOrCreate? clock name data.ts
  let r := p.1.add data []
  some
    { id := r.1.getId
      cache := p.2.putKey name r.1
      upKey := if r.2.2 then r.1.getKeyInfo else {}
      upData := r.2.1
      isLast := r.2.2 }

def merge? (c : KeyCache W) (clock : ℤ) (name : Name) (data : List AggregatedInfo) : Option (CacheResult W) :=
  match data.getLast? with
  | none => some { id := badKey, cache := c }
  | some d => do
    let p ← c.getOrCreate? clock name d.ts
    let r := p.1.merge [] data
    some
      { id := r.1.getId
        cache := p.2.putKey name r.1
        upKey := r.1.getKeyInfo
        upData := r.2 }

def init? (c : KeyCache W) (clock : ℤ) (info : StoredName) : Option (Bool × KeyCache W) := do
  let c := if c.keyCounter < info.id then { c with keyCounter := info.id } else c
  let m ← c.getMutex? info.id
  let ka := (KeyAggregator.create m info.id info.lastUpdate c.options).setKeyInfo info.toStoredValues
  let updTime ← divide info.lastUpdate c.options.resolution
  let c := c.updateTime clock info.name (if updTime ≠ 0 then updTime else 1)
  let m := c.keyMap.insertNew info.name ka
  some (m.2, { c with keyMap := m.1 })

end KeyCache

namespace DataStorage

/-- The databases that `open` leaves when their directories hold `content`; a `hash_size`
of zero counts as one. -/
def opened (hashSize resultLimit : ℕ) (content : ℕ → OrderedMap KeyTs AggregatedInfo) : DataStorage :=
  { create hashSize resultLimit with dbs := fun i => ⟨resultLimit, content i⟩ }

def shard? (s : DataStorage) (id : KeyId) : Option (Fin s.hashSize) := chooseIndex id s.hashSize

def set? (s : DataStorage) (ok : Bool) (id : KeyId) (data : AggregatedInfo) : Option (Status × DataStorage) := do
  let i ← s.shard? id
  let r := (s.dbs i).set ok id data
  some (r.1, { s with dbs := Function.update s.dbs i r.2 })

def inc? (W : Wrtstat) (s : DataStorage) (ok : Bool) (id : KeyId) (data : AggregatedInfo) :
    Option (Status × DataStorage) := do
  let i ← s.shard? id
  let r := (s.dbs i).inc W ok id data
  some (r.1, { s with dbs := Function.update s.dbs i r.2 })

def get? (s : DataStorage) (id : KeyId) (ts : ℤ) (offset limit : ℕ) : Option (List AggregatedInfo) := do
  let i ← s.shard? id
  some ((s.dbs i).get id ts offset limit)

def del? (s : DataStorage) (ok : Outcomes) (i : ℕ) (id : KeyId) : Option (Status × DataStorage) := do
  let j ← s.shard? id
  let r := (s.dbs j).del ok i id
  some (r.1, { s with dbs := Function.update s.dbs j r.2 })

end DataStorage

namespace Storage

variable {W : Wrtstat}

def loadFun? (clock : ℤ) (kc : KeyCache W) (vsn : List StoredName) : Option (KeyCache W) :=
  vsn.foldlM (fun kc sn => (kc.init? clock sn).map Prod.snd) kc

/-- The cache that the load handler of `open` has filled. -/
def loadCache? (opt : KeyCacheOptions) (clock : ℤ) (ks : KeyStorage) : Option (KeyCache W) :=
  (ks.load 10000).foldlM (loadFun? clock) (KeyCache.new opt)

def openOn? (opt : StorageOptions) (clock : ℤ) (ks : KeyStorage) (ds : DataStorage) : Option (Storage W) := do
  let kc ← loadCache? opt.keyCache clock ks
  some
    { keyCache := (kc.gc clock).2
      keyStorage := ks
      dataStorage := ds
      ttl := opt.dataTtl
      resolution := opt.keyCache.resolution
      disableMerge := opt.disableMerge }

def setAll? (ok : Outcomes) (id : KeyId) : List AggregatedInfo → ℕ → DataStorage → Option (Status × DataStorage)
  | [], _, ds => some (.ok (), ds)
  | ud :: rest, i, ds => do
    let r ← ds.set? (ok i) id ud
    match r with
    | (.ok _, ds) => setAll? ok id rest (i + 1) ds
    | (.error e, ds) => some (.error e, ds)

def incAll? (W : Wrtstat) (ok : Outcomes) (id : KeyId) : List AggregatedInfo → ℕ → DataStorage →
    Option (Status × DataStorage)
  | [], _, ds => some (.ok (), ds)
  | ud :: rest, i, ds => do
    let r ← ds.inc? W (ok i) id ud
    match r with
    | (.ok _, ds) => incAll? W ok id rest (i + 1) ds
    | (.error e, ds) => some (.error e, ds)

def storeKeyAndData? (s : Storage W) (ok : Outcomes) (name : Name) (r : CacheResult W) :
    Option (Status × Storage W) :=
  match s.keyStorage.set (ok 0) name r.upKey with
  | (.ok _, ks) => do
    let d ← setAll? ok r.id r.upData 1 s.dataStorage
    some (d.1, { s with keyStorage := ks, dataStorage := d.2 })
  | (.error e, ks) => some (.error e, { s with keyStorage := ks })

def add? (s : Storage W) (clock : ℤ) (ok : Outcomes) (name : Name) (data : AggregatedData) :
    Option (Status × Storage W) := do
  let r ← s.keyCache.add? clock name data
  let s := { s with keyCache := r.cache }
  if r.id = badKey then some (.error .badKey, s)
  else if r.isLast then s.storeKeyAndData? ok name r
  else do
    let d ← if s.disableMerge then setAll? ok r.id r.upData 0 s.dataStorage
      else incAll? W ok r.id r.upData 0 s.dataStorage
    some (d.1, { s with dataStorage := d.2 })

def merge? (s : Storage W) (clock : ℤ) (ok : Outcomes) (name : Name) (data : List AggregatedInfo) :
    Option (Status × Storage W) :=
  if data.isEmpty then some (.error .emptyData, s)
  else do
    let r ← s.keyCache.merge? clock name data
    let s := { s with keyCache := r.cache }
    if r.id = badKey then some (.error .badKey, s) else s.storeKeyAndData? ok name r

def get? (s : Storage W) (clock : ℤ) (name : Name) (ts : ℤ) (offset limit : ℕ) :
    Option (Except StorageError (List AggregatedInfo)) :=
  let id := s.keyCache.getId name
  if id = badKey then some (.error .badKey)
  else do
    let ts := if ts = 0 then (clock - s.ttl) * s.resolution else ts
    let points ← s.dataStorage.get? id ts offset limit
    some (.ok points)

def del? (s : Storage W) (ok : Outcomes) (name : Name) : Option (Status × Storage W) :=
  let r := s.keyCache.del name
  let s := { s with keyCache := r.2 }
  if r.1 = badKey then some (.error .badKey, s)
  else
    match s.keyStorage.del (ok 0) name with
    | (.ok _, ks) => do
      let d ← s.dataStorage.del? ok 1 r.1
      some (d.1, { s with keyStorage := ks, dataStorage := d.2 })
    | (.error e, ks) => some (.error e, { s with keyStorage := ks })

end Storage

/-- The calls that select a mutex or a database or divide by the resolution. `openOver`
finds what the directories hold; a storage that does not open is dropped by `ag_domain` and
gets no further calls. `init` and `create` are made on the cache, `dataGet` and `dataDel` on
the data storage. -/
inductive DividingCall
  | openOver (opt : StorageOptions) (clock : ℤ) (ks : KeyStorage) (hashSize resultLimit : ℕ)
      (content : ℕ → OrderedMap KeyTs AggregatedInfo)
  | init (clock : ℤ) (info : StoredName)
  | create (clock : ℤ) (name : Name) (nowTs : ℤ)
  | add (clock : ℤ) (ok : Outcomes) (name : Name) (data : AggregatedData)
  | merge (clock : ℤ) (ok : Outcomes) (name : Name) (data : List AggregatedInfo)
  | get (clock : ℤ) (name : Name) (ts : ℤ) (offset limit : ℕ)
  | del (ok : Outcomes) (name : Name)
  | dataGet (id : KeyId) (ts : ℤ) (offset limit : ℕ)
  | dataDel (ok : Outcomes) (id : KeyId)

namespace Storage

variable {W : Wrtstat}

/-- What a call leaves. -/
def call (s : Storage W) : DividingCall → Storage W
  | .openOver opt clock ks hashSize resultLimit content => openOn opt clock ks (.opened hashSize resultLimit content)
  | .init clock info => { s with keyCache := (s.keyCache.init clock info).2 }
  | .create clock name nowTs => { s with keyCache := (s.keyCache.create clock name nowTs).2 }
  | .add clock ok name data => (s.add clock ok name data).2
  | .merge clock ok name data => (s.merge clock ok name data).2
  | .get _ _ _ _ _ => s
  | .del ok name => (s.del ok name).2
  | .dataGet _ _ _ _ => s
  | .dataDel ok id => { s with dataStorage := (s.dataStorage.del ok 0 id).2 }

def call? (s : Storage W) : DividingCall → Option (Storage W)
  | .openOver opt clock ks hashSize resultLimit content => openOn? opt clock ks (.opened hashSize resultLimit content)
  | .init clock info => (s.keyCache.init? clock info).map fun r => { s with keyCache := r.2 }
  | .create clock name nowTs => (s.keyCache.create? clock name nowTs).map fun r => { s with keyCache := r.2 }
  | .add clock ok name data => (s.add? clock ok name data).map Prod.snd
  | .merge clock ok name data => (s.merge? clock ok name data).map Prod.snd
  | .get clock name ts offset limit => (s.get? clock name ts offset limit).map fun _ => s
  | .del ok name => (s.del? ok name).map Prod.snd
  | .dataGet id ts offset limit => (s.dataStorage.get? id ts offset limit).map fun _ => s
  | .dataDel ok id => (s.dataStorage.del? ok 0 id).map fun r => { s with dataStorage := r.2 }

end Storage

end WfcBtp
