import WfcBtp.Model.Storage

/-!
# The domain object

What `ag_domain` adds to the storage it owns: the power transformation of the points it
answers with, and the counters by which several instances load their storages in parallel.
-/

namespace WfcBtp

/-- The product of two `value_type` values. -/
def mulValue (a b : ℤ) : ℤ := (a * b).bmod (2 ^ 64)

def toPower (ai : AggregatedInfo) : AggregatedInfo :=
  { ai with
    avg := mulValue ai.avg ai.avg
    min := mulValue ai.min (toValue ai.count)
    perc50 := mulValue ai.perc50 (toValue ai.count)
    perc80 := mulValue ai.perc80 (toValue ai.count)
    perc95 := mulValue ai.perc95 (toValue ai.count)
    perc99 := mulValue ai.perc99 (toValue ai.count)
    perc100 := mulValue ai.perc100 (toValue ai.count)
    max := mulValue ai.max (toValue ai.count) }

/-- A stored count read as a `value_type` gives the products that the aggregator keeps. -/
@[simp] lemma mulValue_toValue (v : ℤ) (n : ℕ) : mulValue v (toValue n) = powValue v n :=
  Int.mul_bmod_bmod

namespace AgDomain

variable {W : Wrtstat}

/-- The counters `get` answers with; an error of the storage leaves none. -/
def get (s : Storage W) (clock : ℤ) (name : Name) (ts : ℤ) (offset limit : ℕ) (power : Bool) :
    List AggregatedInfo :=
  let counters := match s.get clock name ts offset limit with
    | .ok counters => counters
    | .error _ => []
  if power then counters.map toPower else counters

/-- `multi_get` leaves out the names the storage has an error for. -/
def multiGet (s : Storage W) (clock : ℤ) (ts : ℤ) (offset limit : ℕ) (power : Bool) :
    List Name → List (Name × List AggregatedInfo)
  | [] => []
  | name :: rest =>
    match s.get clock name ts offset limit with
    | .ok counters =>
      (name, if power then counters.map toPower else counters) :: multiGet s clock ts offset limit power rest
    | .error _ => multiGet s clock ts offset limit power rest

/-! ### Loading in parallel -/

/-- The two static counters. -/
structure InstanceCounters where
  instanceCounter1 : ℤ := 0
  instanceCounter2 : ℤ := 0
  deriving DecidableEq, Repr

/-- What the calls made by `start_` return: whether there is a global object that makes
directories, and whether each directory and the storage could be opened. -/
structure StartResults where
  hasGlobal : Bool := true
  keyDirectory : Bool := true
  dataDirectory : Bool := true
  storageOpen : Bool := true
  deriving DecidableEq, Repr

/-- `initialize`. -/
def initializeInstance (c : InstanceCounters) : InstanceCounters where
  instanceCounter1 := c.instanceCounter1 + 1
  instanceCounter2 := c.instanceCounter2 + 1

/-- `start_`, with its early returns. -/
def start_ (r : StartResults) (c : InstanceCounters) : InstanceCounters :=
  if r.hasGlobal ∧ !r.keyDirectory then c
  else if r.hasGlobal ∧ !r.dataDirectory then c
  else if !r.storageOpen then c
  else { c with instanceCounter2 := c.instanceCounter2 - 1 }

inductive InstanceState
  | initialized | loading | returned
  deriving DecidableEq, Repr

/-- The instances with `mtload`, and whether a call of `start` is in its waiting loop. -/
structure Loading where
  counters : InstanceCounters
  instances : List InstanceState
  waiting : Bool
  deriving DecidableEq, Repr

inductive LoadStep
  | start (i : ℕ)
  | startReturns (i : ℕ) (r : StartResults)
  | wake

namespace Loading

/-- Every one of `n` instances has been initialized. -/
def initialized (n : ℕ) : Loading where
  counters := initializeInstance^[n] {}
  instances := List.replicate n .initialized
  waiting := false

/-- `start` detaches a thread that runs `start_`, and waits if it is the last one. A step
that is not possible changes nothing. -/
def step (s : Loading) : LoadStep → Loading
  | .start i =>
    if s.instances[i]? = some .initialized then
      let c := { s.counters with instanceCounter1 := s.counters.instanceCounter1 - 1 }
      { counters := c
        instances := s.instances.set i .loading
        waiting := s.waiting || c.instanceCounter1 = 0 }
    else s
  | .startReturns i r =>
    if s.instances[i]? = some .loading then
      { s with counters := start_ r s.counters, instances := s.instances.set i .returned }
    else s
  | .wake => { s with waiting := s.waiting && s.counters.instanceCounter2 ≠ 0 }

/-- The number of instances whose `start_` has not returned. -/
def pending (s : Loading) : ℕ := s.instances.countP (· ≠ .returned)

end Loading

end AgDomain

end WfcBtp
