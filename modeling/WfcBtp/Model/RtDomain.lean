import WfcBtp.Library.OrderedMap
import WfcBtp.Model.Wrtstat

/-!
# The real-time domain object

`rt_domain` aggregates what clients add under each name and pushes finished periods on to
its targets. The map of aggregators is part of the aggregation library, and a parameter
here; requests that are turned away as bad do not get this far.
-/

namespace WfcBtp
open Library

/-- What `aggregator_hashmap::push` returns, hands to the handler, in order, and leaves. -/
structure PushResult (σ : Type) where
  status : Bool
  handed : List AggregatedData
  state : σ

/-- `wrtstat::aggregator_hashmap` at the options of the domain object. -/
structure AggregatorHashmap where
  State : Type
  push : State → Name → AggregatedData → PushResult State

namespace AggregatorHashmap

/-- One aggregator per name, and at most `limit` names. -/
def limited (W : Wrtstat) (limit : ℕ) : AggregatorHashmap where
  State := OrderedMap Name W.Aggregator
  push m name data :=
    match m.find? name with
    | some ag =>
      let r := W.push ag data
      ⟨true, r.1, m.set name r.2⟩
    | none =>
      if m.size < limit then
        let r := W.push (W.create data.ts) data
        ⟨true, r.1, m.set name r.2⟩
      else ⟨false, [], m⟩

end AggregatorHashmap

/-- `rtdepr::request::add`; a negative count stands for the number of values. -/
structure AddRequest where
  ts : ℤ := 0
  count : ℤ := -1
  name : Name := []
  cl : List ℤ := []
  deriving DecidableEq, Repr

/-- `rtdepr::request::multi_add`. -/
structure MultiAddRequest where
  data : List AddRequest := []
  deriving DecidableEq, Repr

/-- `result` of `rtdepr::response::add` and of `rtdepr::response::multi_add`: false if the
limit of counters was exceeded, in the latter by one new name at least. -/
structure AddResponse where
  result : Bool := false
  deriving DecidableEq, Repr

/-- `wfc::statistics::request::push`. -/
structure PushRequest extends AggregatedData where
  name : Name := []
  deriving DecidableEq, Repr

/-- A push sent to the target at an index. -/
abbrev Sent := ℕ × PushRequest

/-- `targets` tells which of the configured targets are there to be locked. -/
structure RtDomain (H : AggregatorHashmap) where
  targets : List Bool
  aggregators : H.State

namespace RtDomain

variable {H : AggregatorHashmap}

/-- The targets of a list that are there get the push. -/
def sendTo (req : PushRequest) (targets : List (Bool × ℕ)) : List Sent :=
  (targets.filter (·.1)).map fun t => (t.2, req)

/-- `ag_handler_`: the first target comes last, after the others have got copies. -/
def agHandler (s : RtDomain H) (name : Name) (ag : AggregatedData) : List Sent :=
  if s.targets.isEmpty then []
  else
    let req : PushRequest := { toAggregatedData := ag, name := name }
    sendTo req (s.targets.zipIdx.drop 1) ++ sendTo req (s.targets.zipIdx.take 1)

/-- `push`, as its status, what it sends and what it leaves. -/
def push (s : RtDomain H) (req : PushRequest) : Bool × List Sent × RtDomain H :=
  let r := H.push s.aggregators req.name req.toAggregatedData
  (r.status, r.handed.flatMap (s.agHandler req.name), { s with aggregators := r.state })

def add (s : RtDomain H) (req : AddRequest) : AddResponse × List Sent × RtDomain H :=
  let ag : AggregatedData :=
    { ts := req.ts
      count := if req.count < 0 then req.cl.length else req.count.toNat
      data := req.cl }
  let r := H.push s.aggregators req.name ag
  (⟨r.status⟩, r.handed.flatMap (s.agHandler req.name), { s with aggregators := r.state })

/-- The loop of `multi_add`, which fills one record again for every element. -/
def multiAddLoop : List AddRequest → AggregatedData → List Sent → RtDomain H → List Sent × RtDomain H
  | [], _, sent, s => (sent, s)
  | a :: rest, ag, sent, s =>
    let ag := { ag with ts := a.ts }
    let ag := { ag with count := if a.count < 0 then a.cl.length else a.count.toNat }
    let ag := { ag with data := a.cl }
    let r := H.push s.aggregators a.name ag
    multiAddLoop rest ag (sent ++ r.handed.flatMap (s.agHandler a.name)) { s with aggregators := r.state }

def multiAdd (s : RtDomain H) (req : MultiAddRequest) : AddResponse × List Sent × RtDomain H :=
  let r := multiAddLoop req.data {} [] s
  (⟨true⟩, r.1, r.2)

end RtDomain

end WfcBtp
