import WfcBtp.Library.OrderedMap
import WfcBtp.Library.OrderedMultiset
import WfcBtp.Model.KeyAggregator

/-!
# Key cache

The names a running storage knows, with a counter for fresh ids and two time indexes
for evicting names that were not used. Every call takes the reading of `time(0)` it makes
as `clock`. A key aggregator reached through a shared pointer is updated by writing it
back under its name.
-/

namespace WfcBtp
open Library

structure KeyCache (W : Wrtstat) where
  options : KeyCacheOptions
  keyCounter : KeyId
  keyMap : OrderedMap Name (KeyAggregator W)
  timeKeySet : OrderedMultiset (ℤ ×ₗ Name)
  keyTimeMap : OrderedMap Name ℤ

/-- What a cache call hands to the storage: the id it returns and its output arguments. -/
structure CacheResult (W : Wrtstat) where
  id : KeyId
  cache : KeyCache W
  upKey : StoredKey := {}
  upData : List AggregatedInfo := []
  isLast : Bool := false

namespace KeyCache

variable {W : Wrtstat}

def new (opt : KeyCacheOptions) : KeyCache W where
  options := opt
  keyCounter := 0
  keyMap := OrderedMap.empty
  timeKeySet := OrderedMultiset.empty
  keyTimeMap := OrderedMap.empty

def size (c : KeyCache W) : ℕ := c.keyMap.size

def getId (c : KeyCache W) (name : Name) : KeyId :=
  match c.keyMap.find? name with
  | some ka => ka.getId
  | none => badKey

def getMutex (c : KeyCache W) (k : KeyId) : ℕ := k % c.options.mutexHash

def updateTime (c : KeyCache W) (clock : ℤ) (name : Name) (now : ℤ) : KeyCache W :=
  if c.options.gcInterval = 0 then c
  else
    let now := if now = 0 then clock else now
    match c.keyTimeMap.find? name with
    | some t =>
      if t > now - c.options.gcInterval then c
      else
        { c with
          keyTimeMap := (c.keyTimeMap.erase name).set name now
          timeKeySet := (c.timeKeySet.erase (toLex (t, name))).insert (toLex (now, name)) }
    | none =>
      { c with
        keyTimeMap := c.keyTimeMap.set name now
        timeKeySet := c.timeKeySet.insert (toLex (now, name)) }

/-- `get_or_create`; `++_key_counter` wraps at 64 bits. -/
def getOrCreate (c : KeyCache W) (clock : ℤ) (name : Name) (nowTs : ℤ) :
    KeyAggregator W × KeyCache W :=
  match c.keyMap.find? name with
  | some ka => (ka, c.updateTime clock name 0)
  | none =>
    let id := (c.keyCounter + 1) % 2 ^ 64
    let ka := KeyAggregator.create (c.getMutex id) id nowTs c.options
    (ka, { c with keyCounter := id, keyMap := c.keyMap.set name ka }.updateTime clock name 0)

/-- The aggregator behind the shared pointer of `name` has become `ka`. -/
def putKey (c : KeyCache W) (name : Name) (ka : KeyAggregator W) : KeyCache W :=
  { c with keyMap := c.keyMap.set name ka }

def create (c : KeyCache W) (clock : ℤ) (name : Name) (nowTs : ℤ) : KeyId × KeyCache W :=
  let r := c.getOrCreate clock name nowTs
  (r.1.getId, r.2)

def add (c : KeyCache W) (clock : ℤ) (name : Name) (data : AggregatedData) : CacheResult W :=
  let p := c.getOrCreate clock name data.ts
  let r := p.1.add data []
  { id := r.1.getId
    cache := p.2.putKey name r.1
    upKey := if r.2.2 then r.1.getKeyInfo else {}
    upData := r.2.1
    isLast := r.2.2 }

/-- `merge`. The key is created at the time of the last point of the list. -/
def merge (c : KeyCache W) (clock : ℤ) (name : Name) (data : List AggregatedInfo) : CacheResult W :=
  match data.getLast? with
  | none => { id := badKey, cache := c }
  | some d =>
    let p := c.getOrCreate clock name d.ts
    let r := p.1.merge [] data
    { id := r.1.getId
      cache := p.2.putKey name r.1
      upKey := r.1.getKeyInfo
      upData := r.2 }

/-- `init`: restores one stored key, and says whether its name was new. -/
def init (c : KeyCache W) (clock : ℤ) (info : StoredName) : Bool × KeyCache W :=
  let c := if c.keyCounter < info.id then { c with keyCounter := info.id } else c
  let ka := (KeyAggregator.create (c.getMutex info.id) info.id info.lastUpdate c.options).setKeyInfo
    info.toStoredValues
  let updTime := info.lastUpdate.tdiv c.options.resolution
  let c := c.updateTime clock info.name (if updTime ≠ 0 then updTime else 1)
  let m := c.keyMap.insertNew info.name ka
  (m.2, { c with keyMap := m.1 })

/-- `release`: every key's info and the period it still had open, which is popped. -/
def release (c : KeyCache W) : List (StoredName × List AggregatedInfo) × KeyCache W :=
  (c.keyMap.entries.map fun e =>
      ({ toStoredKey := e.2.getKeyInfo, name := e.1 }, (e.2.aggregateLastPointIf [] true).2),
    { c with keyMap := c.keyMap.mapValues fun _ ka => (ka.aggregateLastPointIf [] true).1 })

/-- The body of the loop of `gc`, once for every pair before the end of the range. -/
def gcLoop (c : KeyCache W) : List (ℤ ×ₗ Name) → ℕ → ℕ × KeyCache W
  | [], count => (count, c)
  | p :: rest, count =>
    let name := (ofLex p).2
    let c :=
      { c with
        keyMap := c.keyMap.erase name
        keyTimeMap := c.keyTimeMap.erase name
        timeKeySet := c.timeKeySet.eraseFirst }
    gcLoop c rest (count + 1)

/-- The size comparison that `gc` and `del` make at the end. -/
def sizesDiffer (c : KeyCache W) : Prop :=
  c.keyTimeMap.size ≠ c.timeKeySet.size ∨ c.keyTimeMap.size ≠ c.keyMap.size

instance (c : KeyCache W) : Decidable c.sizesDiffer := by
  unfold sizesDiffer
  infer_instance

def gc (c : KeyCache W) (clock : ℤ) : ℕ × KeyCache W :=
  if c.options.gcInterval = 0 then (0, c)
  else
    match c.timeKeySet.elems with
    | [] => (0, c)
    | p :: _ =>
      let deathTime := clock - c.options.ttl
      if (ofLex p).1 > deathTime then (0, c)
      else
        let r := c.gcLoop (c.timeKeySet.below (toLex (deathTime, []))) 0
        if r.2.sizesDiffer then (0, r.2) else r

def del (c : KeyCache W) (name : Name) : KeyId × KeyCache W :=
  match c.keyMap.find? name with
  | none => (badKey, c)
  | some ka =>
    let c := { c with keyMap := c.keyMap.erase name }
    if c.options.gcInterval ≠ 0 then
      match c.keyTimeMap.find? name with
      | some t =>
        let c :=
          { c with
            timeKeySet := c.timeKeySet.erase (toLex (t, name))
            keyTimeMap := c.keyTimeMap.erase name }
        (if c.sizesDiffer then badKey else ka.getId, c)
      | none => (ka.getId, c)
    else (ka.getId, c)

/-! ### What the calls leave alone -/

/-- Refreshing a time changes the two time indexes only. -/
lemma updateTime_times (c : KeyCache W) (clock : ℤ) (name : Name) (now : ℤ) :
    ∃ s m, c.updateTime clock name now = { c with timeKeySet := s, keyTimeMap := m } := by
  by_cases hg : c.options.gcInterval = 0
  · exact ⟨c.timeKeySet, c.keyTimeMap, by simp [updateTime, hg]⟩
  · simp only [updateTime, hg, ite_false]
    generalize (if now = 0 then clock else now) = now'
    cases c.keyTimeMap.find? name with
    | none => exact ⟨_, _, rfl⟩
    | some t =>
      dsimp only
      split
      · exact ⟨_, _, rfl⟩
      · exact ⟨_, _, rfl⟩

@[simp] lemma updateTime_keyMap (c : KeyCache W) (clock : ℤ) (name : Name) (now : ℤ) :
    (c.updateTime clock name now).keyMap = c.keyMap := by
  obtain ⟨s, m, h⟩ := c.updateTime_times clock name now
  rw [h]

@[simp] lemma updateTime_keyCounter (c : KeyCache W) (clock : ℤ) (name : Name) (now : ℤ) :
    (c.updateTime clock name now).keyCounter = c.keyCounter := by
  obtain ⟨s, m, h⟩ := c.updateTime_times clock name now
  rw [h]

@[simp] lemma updateTime_options (c : KeyCache W) (clock : ℤ) (name : Name) (now : ℤ) :
    (c.updateTime clock name now).options = c.options := by
  obtain ⟨s, m, h⟩ := c.updateTime_times clock name now
  rw [h]

/-! ### The key map after a call -/

/-- The aggregator `get_or_create` returns: the cached one, or a new one with the next id. -/
def keyOrNew (c : KeyCache W) (name : Name) (nowTs : ℤ) : KeyAggregator W :=
  (c.keyMap.find? name).getD
    (KeyAggregator.create (c.getMutex ((c.keyCounter + 1) % 2 ^ 64)) ((c.keyCounter + 1) % 2 ^ 64) nowTs
      c.options)

lemma getOrCreate_fst (c : KeyCache W) (clock : ℤ) (name : Name) (nowTs : ℤ) :
    (c.getOrCreate clock name nowTs).1 = c.keyOrNew name nowTs := by
  unfold getOrCreate keyOrNew
  cases c.keyMap.find? name <;> rfl

lemma keyOrNew_of_some {c : KeyCache W} {name : Name} {ka : KeyAggregator W} (nowTs : ℤ)
    (h : c.keyMap.find? name = some ka) : c.keyOrNew name nowTs = ka := by
  simp [keyOrNew, h]

lemma keyOrNew_of_none {c : KeyCache W} {name : Name} (nowTs : ℤ) (h : c.keyMap.find? name = none) :
    c.keyOrNew name nowTs = KeyAggregator.create (c.getMutex ((c.keyCounter + 1) % 2 ^ 64))
      ((c.keyCounter + 1) % 2 ^ 64) nowTs c.options := by
  simp [keyOrNew, h]

lemma getOrCreate_find? (c : KeyCache W) (clock : ℤ) (name : Name) (nowTs : ℤ) (name' : Name) :
    (c.getOrCreate clock name nowTs).2.keyMap.find? name' =
      if name' = name then some (c.keyOrNew name nowTs) else c.keyMap.find? name' := by
  unfold getOrCreate keyOrNew
  cases h : c.keyMap.find? name with
  | some ka =>
    by_cases hn : name' = name
    · simp [hn, h]
    · simp [hn]
  | none => simp [OrderedMap.find?_set]

lemma getOrCreate_keyCounter (c : KeyCache W) (clock : ℤ) (name : Name) (nowTs : ℤ) :
    (c.getOrCreate clock name nowTs).2.keyCounter =
      if (c.keyMap.find? name).isSome then c.keyCounter else (c.keyCounter + 1) % 2 ^ 64 := by
  unfold getOrCreate
  cases c.keyMap.find? name <;> simp

@[simp] lemma getOrCreate_options (c : KeyCache W) (clock : ℤ) (name : Name) (nowTs : ℤ) :
    (c.getOrCreate clock name nowTs).2.options = c.options := by
  unfold getOrCreate
  cases c.keyMap.find? name <;> simp

lemma add_find? (c : KeyCache W) (clock : ℤ) (name : Name) (data : AggregatedData) (name' : Name) :
    (c.add clock name data).cache.keyMap.find? name' =
      if name' = name then some ((c.keyOrNew name data.ts).add data []).1 else c.keyMap.find? name' := by
  simp only [add, putKey, OrderedMap.find?_set, getOrCreate_fst, getOrCreate_find?]
  split_ifs <;> rfl

lemma add_id (c : KeyCache W) (clock : ℤ) (name : Name) (data : AggregatedData) :
    (c.add clock name data).id = (c.keyOrNew name data.ts).getId := by
  simp [add, getOrCreate_fst]

lemma add_keyCounter (c : KeyCache W) (clock : ℤ) (name : Name) (data : AggregatedData) :
    (c.add clock name data).cache.keyCounter =
      if (c.keyMap.find? name).isSome then c.keyCounter else (c.keyCounter + 1) % 2 ^ 64 :=
  c.getOrCreate_keyCounter clock name data.ts

@[simp] lemma add_options (c : KeyCache W) (clock : ℤ) (name : Name) (data : AggregatedData) :
    (c.add clock name data).cache.options = c.options :=
  c.getOrCreate_options clock name data.ts

lemma merge_of_getLast? {data : List AggregatedInfo} {d : AggregatedInfo} (h : data.getLast? = some d)
    (c : KeyCache W) (clock : ℤ) (name : Name) :
    c.merge clock name data =
      { id := (c.keyOrNew name d.ts).getId
        cache := (c.getOrCreate clock name d.ts).2.putKey name ((c.keyOrNew name d.ts).merge [] data).1
        upKey := ((c.keyOrNew name d.ts).merge [] data).1.getKeyInfo
        upData := ((c.keyOrNew name d.ts).merge [] data).2 } := by
  simp [merge, h, getOrCreate_fst]

lemma putKey_find? (c : KeyCache W) (name : Name) (ka : KeyAggregator W) (name' : Name) :
    (c.putKey name ka).keyMap.find? name' = if name' = name then some ka else c.keyMap.find? name' :=
  OrderedMap.find?_set _ _ _ _

lemma init_find? (c : KeyCache W) (clock : ℤ) (info : StoredName) (name : Name) :
    (c.init clock info).2.keyMap.find? name =
      if name = info.name then
        some ((c.keyMap.find? info.name).getD ((KeyAggregator.create (c.getMutex info.id) info.id
          info.lastUpdate c.options).setKeyInfo info.toStoredValues))
      else c.keyMap.find? name := by
  simp only [init, OrderedMap.find?_insertNew, updateTime_keyMap]
  split_ifs <;> rfl

lemma init_keyCounter (c : KeyCache W) (clock : ℤ) (info : StoredName) :
    (c.init clock info).2.keyCounter = max c.keyCounter info.id := by
  simp only [init, updateTime_keyCounter]
  split_ifs with h
  · exact (max_eq_right h.le).symm
  · exact (max_eq_left (not_lt.mp h)).symm

@[simp] lemma init_options (c : KeyCache W) (clock : ℤ) (info : StoredName) :
    (c.init clock info).2.options = c.options := by
  simp only [init, updateTime_options]
  split_ifs <;> rfl

/-- The time and name pairs `gc` removes. -/
def expired (c : KeyCache W) (clock : ℤ) : List (ℤ ×ₗ Name) :=
  if c.options.gcInterval = 0 then [] else c.timeKeySet.below (toLex (clock - c.options.ttl, []))

lemma expired_eq_nil {c : KeyCache W} {clock : ℤ} {p : ℤ ×ₗ Name} {rest : List (ℤ ×ₗ Name)}
    (he : c.timeKeySet.elems = p :: rest) (hp : (ofLex p).1 > clock - c.options.ttl) :
    c.expired clock = [] := by
  have hnot : ¬p < toLex (clock - c.options.ttl, []) :=
    not_lt.mpr (Prod.Lex.le_iff.mpr (Or.inl hp))
  simp [expired, OrderedMultiset.below, he, hnot]

lemma gcLoop_fst (l : List (ℤ ×ₗ Name)) (c : KeyCache W) (count : ℕ) :
    (c.gcLoop l count).1 = count + l.length := by
  induction l generalizing c count with
  | nil => rfl
  | cons p rest ih =>
    rw [gcLoop, ih, List.length_cons]
    omega

/-- Every early exit of `gc` is taken when nothing has expired, so `gc` is its loop. -/
lemma gc_eq (c : KeyCache W) (clock : ℤ) :
    (c.gc clock).2 = (c.gcLoop (c.expired clock) 0).2 ∧
      (c.gc clock).1 = if (c.gc clock).2.sizesDiffer then 0 else (c.expired clock).length := by
  by_cases hg : c.options.gcInterval = 0
  · simp [gc, expired, hg, gcLoop]
  · have hexp : c.timeKeySet.below (toLex (clock - c.options.ttl, [])) = c.expired clock := by
      rw [expired, if_neg hg]
    cases he : c.timeKeySet.elems with
    | nil =>
      have hnil : c.expired clock = [] := by simp [← hexp, OrderedMultiset.below, he]
      simp [gc, hg, he, hnil, gcLoop]
    | cons p rest =>
      by_cases hp : (ofLex p).1 > clock - c.options.ttl
      · simp [gc, hg, he, hp, expired_eq_nil he hp, gcLoop]
      · simp only [gc, hg, he, hp, hexp, if_false]
        by_cases hd : (c.gcLoop (c.expired clock) 0).2.sizesDiffer
        · simp [hd]
        · simp [hd, gcLoop_fst]

lemma gcLoop_keyCounter (l : List (ℤ ×ₗ Name)) (c : KeyCache W) (count : ℕ) :
    (c.gcLoop l count).2.keyCounter = c.keyCounter ∧ (c.gcLoop l count).2.options = c.options := by
  induction l generalizing c count with
  | nil => exact ⟨rfl, rfl⟩
  | cons p rest ih => exact ih _ _

lemma gcLoop_find? (l : List (ℤ ×ₗ Name)) (c : KeyCache W) (count : ℕ) (name : Name) :
    (c.gcLoop l count).2.keyMap.find? name =
      if name ∈ l.map (fun p => (ofLex p).2) then none else c.keyMap.find? name := by
  induction l generalizing c count with
  | nil => simp [gcLoop]
  | cons p rest ih =>
    simp only [gcLoop, ih, OrderedMap.find?_erase, List.map_cons, List.mem_cons]
    by_cases hp : name = (ofLex p).2
    · simp [hp]
    · rw [if_neg hp]
      exact if_congr (or_iff_right hp).symm rfl rfl

lemma gc_keyCounter (c : KeyCache W) (clock : ℤ) : (c.gc clock).2.keyCounter = c.keyCounter := by
  rw [(c.gc_eq clock).1]
  exact (gcLoop_keyCounter _ _ _).1

@[simp] lemma gc_options (c : KeyCache W) (clock : ℤ) : (c.gc clock).2.options = c.options := by
  rw [(c.gc_eq clock).1]
  exact (gcLoop_keyCounter _ _ _).2

lemma gc_find? (c : KeyCache W) (clock : ℤ) (name : Name) :
    (c.gc clock).2.keyMap.find? name =
      if name ∈ (c.expired clock).map (fun p => (ofLex p).2) then none else c.keyMap.find? name := by
  rw [(c.gc_eq clock).1]
  exact gcLoop_find? _ _ _ _

lemma gc_of_interval_zero {c : KeyCache W} (h : c.options.gcInterval = 0) (clock : ℤ) :
    c.gc clock = (0, c) := by
  rw [gc, if_pos h]

lemma del_of_none {c : KeyCache W} {name : Name} (h : c.keyMap.find? name = none) :
    c.del name = (badKey, c) := by
  simp [del, h]

lemma del_find? (c : KeyCache W) (name name' : Name) :
    (c.del name).2.keyMap.find? name' = if name' = name then none else c.keyMap.find? name' := by
  unfold del
  cases h : c.keyMap.find? name with
  | none =>
    by_cases hn : name' = name
    · simp [hn, h]
    · simp [hn]
  | some ka =>
    dsimp only
    split_ifs <;> try split
    all_goals simp [OrderedMap.find?_erase, *]

lemma del_keyCounter (c : KeyCache W) (name : Name) :
    (c.del name).2.keyCounter = c.keyCounter ∧ (c.del name).2.options = c.options := by
  unfold del
  cases c.keyMap.find? name with
  | none => exact ⟨rfl, rfl⟩
  | some ka =>
    dsimp only
    split_ifs
    · split <;> exact ⟨rfl, rfl⟩
    · exact ⟨rfl, rfl⟩

lemma getId_of_some {c : KeyCache W} {name : Name} {ka : KeyAggregator W}
    (h : c.keyMap.find? name = some ka) : c.getId name = ka.getId := by
  simp [getId, h]

end KeyCache

end WfcBtp
