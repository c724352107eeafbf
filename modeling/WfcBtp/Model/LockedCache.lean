import WfcBtp.Library.Locks
import WfcBtp.Model.KeyCacheSelect

/-!
# The locks of the key cache

The calls of the key cache as programs of threads that share it. The map holds shared pointers,
so a thread may go on with a key that another one removes from the map; `keys` has every key
aggregator that was ever made, at its pointer. The cache has a mutex of its own, and a list of
mutexes for the keys, which several keys may have in common.
-/

namespace WfcBtp
open Library

inductive CacheLock
  | cache
  | key (i : ℕ)
  deriving DecidableEq

/-- A shared pointer, with the mutex that the key it points to was made with. -/
structure KeyPtr where
  address : ℕ
  mutex : ℕ
  deriving DecidableEq

structure SharedCache (W : Wrtstat) where
  options : KeyCacheOptions
  keyCounter : KeyId
  keyMap : OrderedMap Name KeyPtr
  timeKeySet : OrderedMultiset (ℤ ×ₗ Name)
  keyTimeMap : OrderedMap Name ℤ
  made : ℕ
  keys : ℕ → KeyAggregator W

abbrev CacheProg (W : Wrtstat) (α : Type) := Prog (SharedCache W) CacheLock α

variable {W : Wrtstat}

namespace SharedCache

def new (opt : KeyCacheOptions) : SharedCache W where
  options := opt
  keyCounter := 0
  keyMap := OrderedMap.empty
  timeKeySet := OrderedMultiset.empty
  keyTimeMap := OrderedMap.empty
  made := 0
  keys := fun _ => KeyAggregator.create 0 0 0 opt

/-- The key cache that the pointers lead to. -/
def view (c : SharedCache W) : KeyCache W where
  options := c.options
  keyCounter := c.keyCounter
  keyMap := c.keyMap.mapValues fun _ p => c.keys p.address
  timeKeySet := c.timeKeySet
  keyTimeMap := c.keyTimeMap

def getMutex (c : SharedCache W) (k : KeyId) : ℕ := k % c.options.mutexHash

/-- `make_shared`. -/
def make (c : SharedCache W) (ka : KeyAggregator W) : KeyPtr × SharedCache W :=
  (⟨c.made, ka.mutex⟩, { c with made := c.made + 1, keys := Function.update c.keys c.made ka })

/-- One access through a pointer. -/
def onKey {α : Type} (p : KeyPtr) (f : KeyAggregator W → α × KeyAggregator W) (c : SharedCache W) :
    α × SharedCache W :=
  ((f (c.keys p.address)).1, { c with keys := Function.update c.keys p.address (f (c.keys p.address)).2 })

def updateTime (c : SharedCache W) (clock : ℤ) (name : Name) (now : ℤ) : SharedCache W :=
  if c.options.gcInterval = 0 then c
  else
    let now := if now = 0 then clock else now
    match c.keyTimeMap.find? name with
    | some t =>
      if t > now - c.options.gcInterval then c
      else
        { c with
          keyTimeMap := (c.keyTimeMap.erase name).set name now
          timeKeySet := (c.timeKeySet.erase (toLex (t, name))).insert (toLex (now, name)) }
    | none =>
      { c with
        keyTimeMap := c.keyTimeMap.set name now
        timeKeySet := c.timeKeySet.insert (toLex (now, name)) }

/-- The body of `get_or_create`. -/
def findOrMake (clock : ℤ) (name : Name) (nowTs : ℤ) (c : SharedCache W) : KeyPtr × SharedCache W :=
  match c.keyMap.find? name with
  | some p => (p, c.updateTime clock name 0)
  | none =>
    let id := (c.keyCounter + 1) % 2 ^ 64
    let r := { c with keyCounter := id }.make (KeyAggregator.create (c.getMutex id) id nowTs c.options)
    (r.1, { r.2 with keyMap := r.2.keyMap.set name r.1 }.updateTime clock name 0)

def gcLoop (c : SharedCache W) : List (ℤ ×ₗ Name) → ℕ → ℕ × SharedCache W
  | [], count => (count, c)
  | p :: rest, count =>
    let name := (ofLex p).2
    let c :=
      { c with
        keyMap := c.keyMap.erase name
        keyTimeMap := c.keyTimeMap.erase name
        timeKeySet := c.timeKeySet.eraseFirst }
    gcLoop c rest (count + 1)

def sizesDiffer (c : SharedCache W) : Prop :=
  c.keyTimeMap.size ≠ c.timeKeySet.size ∨ c.keyTimeMap.size ≠ c.keyMap.size

instance (c : SharedCache W) : Decidable c.sizesDiffer := by
  unfold sizesDiffer
  infer_instance

/-- The body of `gc`. -/
def collect (clock : ℤ) (c : SharedCache W) : ℕ × SharedCache W :=
  if c.options.gcInterval = 0 then (0, c)
  else
    match c.timeKeySet.elems with
    | [] => (0, c)
    | p :: _ =>
      let deathTime := clock - c.options.ttl
      if (ofLex p).1 > deathTime then (0, c)
      else
        let r := c.gcLoop (c.timeKeySet.below (toLex (deathTime, []))) 0
        if r.2.sizesDiffer then (0, r.2) else r

/-- The end of `del`, after the id was read: whether the indexes agree. -/
def forget (name : Name) (c : SharedCache W) : Bool × SharedCache W :=
  let c := { c with keyMap := c.keyMap.erase name }
  if c.options.gcInterval ≠ 0 then
    match c.keyTimeMap.find? name with
    | some t =>
      let c :=
        { c with
          timeKeySet := c.timeKeySet.erase (toLex (t, name))
          keyTimeMap := c.keyTimeMap.erase name }
      (!decide c.sizesDiffer, c)
    | none => (true, c)
  else (true, c)

end SharedCache

/-! ### A key aggregator -/

namespace KeyPtr

/-- A call that takes the mutex of the key. -/
def locking {α : Type} (p : KeyPtr) (f : KeyAggregator W → α × KeyAggregator W) : CacheProg W α :=
  .locked (.key p.mutex) (.touch (some (.key p.mutex)) (SharedCache.onKey p f))

/-- A call that takes no mutex. -/
def unlocked {α : Type} (p : KeyPtr) (f : KeyAggregator W → α × KeyAggregator W) : CacheProg W α :=
  .touch none (SharedCache.onKey p f)

def getId (p : KeyPtr) : CacheProg W KeyId := p.unlocked fun ka => (ka.getId, ka)

def add (p : KeyPtr) (data : AggregatedData) : CacheProg W (List AggregatedInfo × Bool) :=
  p.locking fun ka => ((ka.add data []).2, (ka.add data []).1)

def merge (p : KeyPtr) (data : List AggregatedInfo) : CacheProg W (List AggregatedInfo) :=
  p.unlocked fun ka => ((ka.merge [] data).2, (ka.merge [] data).1)

def aggregateLastPointIf (p : KeyPtr) (force : Bool) : CacheProg W (List AggregatedInfo) :=
  p.locking fun ka => ((ka.aggregateLastPointIf [] force).2, (ka.aggregateLastPointIf [] force).1)

def getKeyInfo (p : KeyPtr) : CacheProg W StoredKey := p.locking fun ka => (ka.getKeyInfo, ka)

def setKeyInfo (p : KeyPtr) (si : StoredValues) : CacheProg W Unit := p.locking fun ka => ((), ka.setKeyInfo si)

def getAggregatedInfo (p : KeyPtr) (pow : Bool) : CacheProg W AggregatedInfo :=
  p.locking fun ka => (ka.getAggregatedInfo pow, ka)

end KeyPtr

/-! ### The calls -/

/-- What a call returns, with its output arguments. -/
structure CacheOutput where
  id : KeyId
  upKey : StoredKey := {}
  upData : List AggregatedInfo := []
  isLast : Bool := false

namespace SharedCache

/-- An access to the members of the cache. -/
def inside {α : Type} (f : SharedCache W → α × SharedCache W) : CacheProg W α := .touch (some .cache) f

def getOrCreate (clock : ℤ) (name : Name) (nowTs : ℤ) : CacheProg W KeyPtr :=
  .locked .cache (inside (findOrMake clock name nowTs))

def create (clock : ℤ) (name : Name) (nowTs : ℤ) : CacheProg W KeyId := do
  let p ← getOrCreate clock name nowTs
  p.getId

def size : CacheProg W ℕ := .locked .cache (inside fun c => (c.keyMap.size, c))

def getId (name : Name) : CacheProg W KeyId := .locked .cache do
  match ← inside fun c => (c.keyMap.find? name, c) with
  | some p => p.getId
  | none => pure badKey

def add (clock : ℤ) (name : Name) (data : AggregatedData) : CacheProg W CacheOutput := do
  let p ← getOrCreate clock name data.ts
  let r ← p.add data
  let upKey ← (if r.2 then p.getKeyInfo else pure {} : CacheProg W StoredKey)
  let id ← p.getId
  pure { id := id, upKey := upKey, upData := r.1, isLast := r.2 }

def merge (clock : ℤ) (name : Name) (data : List AggregatedInfo) : CacheProg W CacheOutput :=
  match data.getLast? with
  | none => pure { id := badKey }
  | some d => do
    let p ← getOrCreate clock name d.ts
    let upData ← p.merge data
    let upKey ← p.getKeyInfo
    let id ← p.getId
    pure { id := id, upKey := upKey, upData := upData }

def init (clock : ℤ) (info : StoredName) : CacheProg W Bool := .locked .cache do
  let p ← inside fun c =>
    let c := if c.keyCounter < info.id then { c with keyCounter := info.id } else c
    c.make (KeyAggregator.create (c.getMutex info.id) info.id info.lastUpdate c.options)
  p.setKeyInfo info.toStoredValues
  inside fun c =>
    let updTime := info.lastUpdate.tdiv c.options.resolution
    let c := c.updateTime clock info.name (if updTime ≠ 0 then updTime else 1)
    let m := c.keyMap.insertNew info.name p
    (m.2, { c with keyMap := m.1 })

/-- The loop of `release`. -/
def releaseLoop : List (Name × KeyPtr) → CacheProg W (List (StoredName × List AggregatedInfo))
  | [] => pure []
  | e :: rest => do
    let ki ← e.2.getKeyInfo
    let points ← e.2.aggregateLastPointIf true
    let stored ← releaseLoop rest
    pure (({ toStoredKey := ki, name := e.1 }, points) :: stored)

def release : CacheProg W (List (StoredName × List AggregatedInfo)) := .locked .cache do
  let entries ← inside fun c => (c.keyMap.entries, c)
  releaseLoop entries

def gc (clock : ℤ) : CacheProg W ℕ := .locked .cache (inside (collect clock))

def del (name : Name) : CacheProg W KeyId := .locked .cache do
  match ← inside fun c => (c.keyMap.find? name, c) with
  | none => pure badKey
  | some p =>
    let id ← p.getId
    let agree ← inside (forget name)
    pure (if agree then id else badKey)

/-- The scan of the second `select`, which asks each key for its info. -/
def selectionLoop (start ending : Name) (power : Bool) :
    List (Name × KeyPtr) → List (Name × AggregatedInfo) → CacheProg W (List (Name × AggregatedInfo))
  | [], selection => pure selection
  | e :: rest, selection =>
    if !checkPrefix e.1 start then pure selection
    else if checkSuffix e.1 ending then do
      let ai ← e.2.getAggregatedInfo power
      selectionLoop start ending power rest (selection ++ [(e.1, ai)])
    else selectionLoop start ending power rest selection

def select (sort : SortFunction) (start ending : Name) (offset limit : ℕ) (by' : SortBy) (power : Bool) :
    CacheProg W (Option (List NameValue)) := .locked .cache do
  let entries ← inside fun c => (c.keyMap.lowerBound start, c)
  if by' = .nosort then pure (some (KeyCache.selectLoop start ending entries offset limit []))
  else
    let selection ← selectionLoop start ending power entries []
    if selection.length < offset then pure (some [])
    else
      let selection := sort _ (createCompare by') selection
      let end' := if limit ≠ 0 ∧ selection.length > (offset + limit) % 2 ^ 64 then offset + limit
        else selection.length
      pure ((KeyCache.range selection offset end').map (List.map fun agn => (agn.1, getByValue by' agn.2)))

end SharedCache

/-- A call of a thread. `tree` takes its locks in `select`. -/
inductive CacheCall
  | create (clock : ℤ) (name : Name) (nowTs : ℤ)
  | size
  | getId (name : Name)
  | add (clock : ℤ) (name : Name) (data : AggregatedData)
  | merge (clock : ℤ) (name : Name) (data : List AggregatedInfo)
  | init (clock : ℤ) (info : StoredName)
  | release
  | gc (clock : ℤ)
  | del (name : Name)
  | select (sort : SortFunction) (start ending : Name) (offset limit : ℕ) (by' : SortBy) (power : Bool)

inductive CallResult
  | id (id : KeyId)
  | number (n : ℕ)
  | output (r : CacheOutput)
  | isNew (b : Bool)
  | stored (l : List (StoredName × List AggregatedInfo))
  | names (l : Option (List NameValue))
  | sorted (l : Option (List NameValue))

namespace CacheCall

def prog : CacheCall → CacheProg W CallResult
  | .create clock name nowTs => do return .id (← SharedCache.create clock name nowTs)
  | .size => do return .number (← SharedCache.size)
  | .getId name => do return .id (← SharedCache.getId name)
  | .add clock name data => do return .output (← SharedCache.add clock name data)
  | .merge clock name data => do return .output (← SharedCache.merge clock name data)
  | .init clock info => do return .isNew (← SharedCache.init clock info)
  | .release => do return .stored (← SharedCache.release)
  | .gc clock => do return .number (← SharedCache.gc clock)
  | .del name => do return .id (← SharedCache.del name)
  | .select sort start ending offset limit by' power => do
    let l ← SharedCache.select sort start ending offset limit by' power
    return if by' = .nosort then .names l else .sorted l

/-- The call of a cache that has no other threads. -/
def answer (c : KeyCache W) : CacheCall → CallResult × KeyCache W
  | .create clock name nowTs => (.id (c.create clock name nowTs).1, (c.create clock name nowTs).2)
  | .size => (.number c.size, c)
  | .getId name => (.id (c.getId name), c)
  | .add clock name data =>
    let r := c.add clock name data
    (.output { id := r.id, upKey := r.upKey, upData := r.upData, isLast := r.isLast }, r.cache)
  | .merge clock name data =>
    let r := c.merge clock name data
    (.output { id := r.id, upKey := r.upKey, upData := r.upData, isLast := r.isLast }, r.cache)
  | .init clock info => (.isNew (c.init clock info).1, (c.init clock info).2)
  | .release => (.stored c.release.1, c.release.2)
  | .gc clock => (.number (c.gc clock).1, (c.gc clock).2)
  | .del name => (.id (c.del name).1, (c.del name).2)
  | .select sort start ending offset limit by' power =>
    let l := c.select sort start ending offset limit by' power
    (if by' = .nosort then .names l else .sorted l, c)

def answers (c : KeyCache W) : List CacheCall → List CallResult × KeyCache W
  | [] => ([], c)
  | call :: rest =>
    let r := answer c call
    let results := answers r.2 rest
    (r.1 :: results.1, results.2)

/-- The calls of a thread, one after another; the return of a call is a step of its own. -/
def thread : List CacheCall → CacheProg W (List CallResult)
  | [] => pure []
  | c :: rest => do
    let r ← c.prog
    let _ ← .touch none fun c => ((), c)
    let results ← thread rest
    pure (r :: results)

end CacheCall

end WfcBtp
