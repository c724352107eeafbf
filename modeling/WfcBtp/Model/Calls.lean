import WfcBtp.Model.Storage

/-!
# Calls on a storage

A process makes one call after another on its storage, and any database write of a call
may fail. After a close that succeeded the databases are gone and the only call left is
`open`; an open over the same databases also follows when the storage is dropped.
-/

namespace WfcBtp

/-- A call, with the clock it reads and the outcomes of the writes it makes. -/
inductive StorageCall
  | add (clock : ℤ) (ok : Outcomes) (name : Name) (data : AggregatedData)
  | merge (clock : ℤ) (ok : Outcomes) (name : Name) (data : List AggregatedInfo)
  | del (ok : Outcomes) (name : Name)
  | gc (clock : ℤ)
  | close (ok : Outcomes)
  | reopen (opt : StorageOptions) (clock : ℤ)

structure Process (W : Wrtstat) where
  storage : Storage W
  closed : Bool := false

namespace Process

variable {W : Wrtstat}

/-- What a call returns and what it leaves. -/
def call (p : Process W) : StorageCall → Status × Process W
  | .add clock ok name data =>
    let r := p.storage.add clock ok name data
    (r.1, { p with storage := r.2 })
  | .merge clock ok name data =>
    let r := p.storage.merge clock ok name data
    (r.1, { p with storage := r.2 })
  | .del ok name =>
    let r := p.storage.del ok name
    (r.1, { p with storage := r.2 })
  | .gc clock => (.ok (), { p with storage := (p.storage.gc clock).2 })
  | .close ok =>
    let r := p.storage.close ok
    match r.1 with
    | .ok _ => (.ok (), ⟨r.2, true⟩)
    | .error e => (.error e, ⟨r.2, false⟩)
  | .reopen opt clock =>
    (.ok (), ⟨Storage.openOn opt clock p.storage.keyStorage p.storage.dataStorage, false⟩)

lemma call_close_storage (p : Process W) (ok : Outcomes) :
    (p.call (.close ok)).2.storage = (p.storage.close ok).2 := by
  simp only [call]
  cases (p.storage.close ok).1 with
  | ok u => rfl
  | error e => rfl

/-- A closed storage can only be opened. -/
def Accepts (p : Process W) : StorageCall → Prop
  | .reopen _ _ => True
  | _ => p.closed = false

instance (p : Process W) (c : StorageCall) : Decidable (p.Accepts c) := by
  cases c <;> unfold Accepts <;> infer_instance

def step (p : Process W) (c : StorageCall) : Process W := if p.Accepts c then (p.call c).2 else p

/-- What every call keeps, every sequence of calls does. -/
lemma run_of_call {P : Process W → Prop} (hcall : ∀ p c, P p → P (p.call c).2) {p : Process W} (h : P p)
    (calls : List StorageCall) : P (calls.foldl step p) := by
  induction calls generalizing p with
  | nil => exact h
  | cons c rest ih =>
    apply ih
    unfold step
    split_ifs
    · exact hcall p c h
    · exact h

/-- A process that has opened its storage over empty databases. -/
def start (W : Wrtstat) (opt : StorageOptions) (clock : ℤ) (hashSize resultLimit : ℕ) : Process W where
  storage := Storage.openOn opt clock KeyStorage.create (DataStorage.create hashSize resultLimit)

end Process

/-- The call returned false because a database write failed. -/
def Status.writeFailed : Status → Bool
  | .error (.keyPut _) | .error (.keyDel _) | .error (.dataPut _ _) | .error .dataDel => true
  | .error .badKey | .error .emptyData | .ok _ => false

/-! ### Calls of clients -/

/-- A call of a client, with the outcomes of its writes, or a cleanup. -/
inductive ClientCall
  | add (clock : ℤ) (ok : Outcomes) (name : Name) (data : AggregatedData)
  | merge (clock : ℤ) (ok : Outcomes) (name : Name) (data : List AggregatedInfo)
  | del (ok : Outcomes) (name : Name)
  | get (clock : ℤ) (name : Name) (ts : ℤ) (offset limit : ℕ)
  | gc (clock : ℤ)

/-- The name the call is about. -/
def ClientCall.name? : ClientCall → Option Name
  | .add _ _ name _ | .merge _ _ name _ | .del _ name | .get _ name _ _ _ => some name
  | .gc _ => none

inductive ClientAnswer
  | returned (status : Status)
  | points (result : Except StorageError (List AggregatedInfo))
  | evicted (n : ℕ)

def Storage.reply {W : Wrtstat} (s : Storage W) : ClientCall → ClientAnswer × Storage W
  | .add clock ok name data => (.returned (s.add clock ok name data).1, (s.add clock ok name data).2)
  | .merge clock ok name data => (.returned (s.merge clock ok name data).1, (s.merge clock ok name data).2)
  | .del ok name => (.returned (s.del ok name).1, (s.del ok name).2)
  | .get clock name ts offset limit => (.points (s.get clock name ts offset limit), s)
  | .gc clock => (.evicted (s.gc clock).1, (s.gc clock).2)

end WfcBtp
