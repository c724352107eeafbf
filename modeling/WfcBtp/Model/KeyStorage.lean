import WfcBtp.Model.DataStorage

/-!
# Key storage

The stored key of every name, in one RocksDB database ordered by name.
-/

namespace WfcBtp
open Library

structure KeyStorage where
  content : OrderedMap Name StoredKey

namespace KeyStorage

def create : KeyStorage := ⟨OrderedMap.empty⟩

def set (s : KeyStorage) (ok : Bool) (name : Name) (key : StoredKey) : Status × KeyStorage :=
  if ok then (.ok (), ⟨s.content.set name key⟩) else (.error (.keyPut name), s)

def del (s : KeyStorage) (ok : Bool) (name : Name) : Status × KeyStorage :=
  if ok then (.ok (), ⟨s.content.erase name⟩) else (.error (.keyDel name), s)

/-- The scan of `load`: `data` is the batch being filled, and the result the batches given
to the handler. Handing a full batch over leaves `data` empty. -/
def loadLoop (step : ℕ) : List (Name × StoredKey) → List StoredName → List (List StoredName)
  | [], data => if data.isEmpty then [] else [data]
  | e :: rest, data =>
    let data := data ++ [{ toStoredKey := e.2, name := e.1 }]
    if data.length = step then data :: loadLoop step rest [] else loadLoop step rest data

/-- `load`: the batches its handler gets, in order. -/
def load (s : KeyStorage) (step : ℕ) : List (List StoredName) :=
  loadLoop (if step = 0 then 16 else step) s.content.entries []

/-- The stored keys with their names, in name order. -/
def names (s : KeyStorage) : List StoredName :=
  s.content.entries.map fun e => { toStoredKey := e.2, name := e.1 }

/-- The stored key of `name`. -/
def key? (s : KeyStorage) (name : Name) : Option StoredKey := s.content.find? name

lemma loadLoop_flatten (step : ℕ) (l : List (Name × StoredKey)) (data : List StoredName) :
    (loadLoop step l data).flatten =
      data ++ l.map fun e => { toStoredKey := e.2, name := e.1 } := by
  induction l generalizing data with
  | nil =>
    cases data with
    | nil => rfl
    | cons d rest => simp [loadLoop]
  | cons e rest ih =>
    simp only [loadLoop]
    split_ifs <;> simp [ih]

/-- The batches together are the stored keys. -/
lemma load_flatten (s : KeyStorage) (step : ℕ) : (s.load step).flatten = s.names := by
  simp [load, loadLoop_flatten, names]

lemma key?_set (s : KeyStorage) (name name' : Name) (key : StoredKey) :
    (s.set true name key).2.key? name' = if name' = name then some key else s.key? name' :=
  OrderedMap.find?_set _ _ _ _

lemma key?_del (s : KeyStorage) (name name' : Name) :
    (s.del true name).2.key? name' = if name' = name then none else s.key? name' :=
  OrderedMap.find?_erase _ _ _

@[simp] lemma key?_create (name : Name) : create.key? name = none := rfl

lemma mem_names_iff (s : KeyStorage) (sn : StoredName) :
    sn ∈ s.names ↔ s.key? sn.name = some sn.toStoredKey := by
  rw [key?, ← OrderedMap.mem_entries_iff, names, List.mem_map]
  constructor
  · rintro ⟨e, he, rfl⟩
    exact he
  · intro h
    exact ⟨_, h, rfl⟩

end KeyStorage

end WfcBtp
