import WfcBtp.Library.Mailboxes
import WfcBtp.Model.RtDomain
import WfcBtp.Model.Storage

/-!
# From real-time to aggregating domain objects

The targets of `rt_domain` are `ag_domain` objects, each with a storage of its own. A target
handles the pushes it is given when it gets to them, in any order.
-/

namespace WfcBtp
open Library

namespace AgDomain

/-- `push_`. -/
def push_ {W : Wrtstat} (s : Storage W) (clock : ℤ) (ok : Outcomes) (req : PushRequest) : Bool × Storage W :=
  let r := s.add clock ok req.name req.toAggregatedData
  (r.1.isOk, r.2)

end AgDomain

/-- A request of a client to `rt_domain`. -/
inductive RtCall
  | push (req : PushRequest)
  | add (req : AddRequest)
  | multiAdd (req : MultiAddRequest)

namespace RtDomain

variable {H : AggregatorHashmap}

def call (s : RtDomain H) : RtCall → List Sent × RtDomain H
  | .push req => (s.push req).2
  | .add req => (s.add req).2
  | .multiAdd req => (s.multiAdd req).2

end RtDomain

/-- The pushes on their way to each target, and the storages of the targets. -/
abbrev Pipeline (H : AggregatorHashmap) (W : ℕ → Wrtstat) := Mailboxes (RtDomain H) PushRequest fun i => Storage (W i)

namespace Pipeline

variable {H : AggregatorHashmap} {W : ℕ → Wrtstat}

/-- A request to `rt_domain`, or a target handles a push, at the time its clock shows. -/
abbrev Step := MailStep RtCall ℤ

def step (p : Pipeline H W) (a : Step) : Pipeline H W :=
  Mailboxes.step RtDomain.call (fun _ s clock req => (AgDomain.push_ s clock allOk req).2) p a

end Pipeline

end WfcBtp
