import WfcBtp.Model.RtDomain

/-!
# Forwarding to the targets

The calls of `rt_domain` once more, with the pointers they follow, the indexes they use and
the callbacks they invoke looked at: `none` where an index is beyond the list of targets, a
null pointer is followed or a null callback is invoked. A callback is told by whether there
is one. The requests are those that `bad_request` lets through.
-/

namespace WfcBtp

/-- `wfc::statistics::request::del`. -/
structure DelRequest where
  names : List Name := []
  deriving DecidableEq, Repr

/-- `wfc::statistics::response::del`, which nothing is written to. -/
structure DelResponse where
  deriving DecidableEq, Repr

/-- What the target at an index was given: a unique pointer to a request. -/
abbrev Given (ρ : Type) := ℕ × Option ρ

/-- The unique pointer to the request, and what the targets were given so far. -/
structure Forwarding (ρ : Type) where
  req : Option ρ
  sent : List (Given ρ) := []

namespace Forwarding

variable {ρ : Type}

/-- The target at an index is given a new copy of the request, if it can be locked. -/
def copyTo? (targets : List Bool) (f : Forwarding ρ) (i : ℕ) : Option (Forwarding ρ) := do
  let t ← targets[i]?
  if t then do
    let r ← f.req
    some { f with sent := f.sent ++ [(i, some r)] }
  else some f

/-- The target at an index is given the pointer itself, if it can be locked. -/
def moveTo? (targets : List Bool) (f : Forwarding ρ) (i : ℕ) : Option (Forwarding ρ) := do
  let t ← targets[i]?
  some (if t then { req := none, sent := f.sent ++ [(i, f.req)] } else f)

/-- The loop over the targets from the second on, and then the first one. -/
def forward? (targets : List Bool) (req : ρ) : Option (Forwarding ρ) := do
  let f ← (List.range' 1 (targets.length - 1)).foldlM (copyTo? targets) { req := some req }
  moveTo? targets f 0

end Forwarding

/-- The responses that the callback gets when a call ends; `createResponse` tells whether
`create_response` makes one. -/
def answer? {α : Type} (createResponse : Bool → Bool) (cb : Bool) (res : α) : Option (List α) :=
  if createResponse cb then
    if cb then some [res] else none
  else some []

/-- The responses a callback got, what the targets were given, and the domain object after. -/
structure RtOutcome (H : AggregatorHashmap) (ρ α : Type) where
  answers : List α
  sent : List (Given ρ)
  domain : RtDomain H

namespace RtDomain

variable {H : AggregatorHashmap}

def agHandler? (s : RtDomain H) (name : Name) (ag : AggregatedData) : Option (List (Given PushRequest)) :=
  if s.targets.isEmpty then some []
  else do
    let req : PushRequest := { toAggregatedData := ag, name := name }
    let f ← Forwarding.forward? s.targets req
    some f.sent

/-- The handler on each period that a push finishes. -/
def handle? (s : RtDomain H) (name : Name) : List AggregatedData → Option (List (Given PushRequest))
  | [] => some []
  | ag :: rest => do
    let a ← s.agHandler? name ag
    let b ← s.handle? name rest
    some (a ++ b)

def push? (createResponse : Bool → Bool) (s : RtDomain H) (cb : Bool) (req : PushRequest) :
    Option (RtOutcome H PushRequest Bool) := do
  let r := H.push s.aggregators req.name req.toAggregatedData
  let sent ← s.handle? req.name r.handed
  let answers ← answer? createResponse cb r.status
  some { answers := answers, sent := sent, domain := { s with aggregators := r.state } }

/-- `del`. The callback is not used. -/
def del? (s : RtDomain H) (_cb : Bool) (req : DelRequest) : Option (RtOutcome H DelRequest DelResponse) := do
  let f ← Forwarding.forward? s.targets req
  some { answers := [], sent := f.sent, domain := s }

def add? (createResponse : Bool → Bool) (s : RtDomain H) (cb : Bool) (req : AddRequest) :
    Option (RtOutcome H PushRequest AddResponse) := do
  let ag : AggregatedData :=
    { ts := req.ts
      count := if req.count < 0 then req.cl.length else req.count.toNat
      data := req.cl }
  let r := H.push s.aggregators req.name ag
  let sent ← s.handle? req.name r.handed
  let answers ← answer? createResponse cb ⟨r.status⟩
  some { answers := answers, sent := sent, domain := { s with aggregators := r.state } }

/-- The loop of `multi_add`. -/
def multiAddLoop? : List AddRequest → AggregatedData → List (Given PushRequest) → RtDomain H →
    Option (List (Given PushRequest) × RtDomain H)
  | [], _, sent, s => some (sent, s)
  | a :: rest, ag, sent, s => do
    let ag := { ag with ts := a.ts }
    let ag := { ag with count := if a.count < 0 then a.cl.length else a.count.toNat }
    let ag := { ag with data := a.cl }
    let r := H.push s.aggregators a.name ag
    let given ← s.handle? a.name r.handed
    multiAddLoop? rest ag (sent ++ given) { s with aggregators := r.state }

def multiAdd? (createResponse : Bool → Bool) (s : RtDomain H) (cb : Bool) (req : MultiAddRequest) :
    Option (RtOutcome H PushRequest AddResponse) := do
  let r ← multiAddLoop? req.data {} [] s
  let answers ← answer? createResponse cb ⟨true⟩
  some { answers := answers, sent := r.1, domain := r.2 }

end RtDomain

end WfcBtp
