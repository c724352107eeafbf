import WfcBtp.Model.RtDomain
import WfcBtp.Model.WrtstatReference

/-!
# Adding many at once

`multi_add` fills one record again and again where `add` makes a new one, and drops what the
pushes return. The elements leave and send the same in both ways.
-/

namespace WfcBtp

/-- What is pushed for a request. -/
def AddRequest.record (a : AddRequest) : AggregatedData where
  ts := a.ts
  count := if a.count < 0 then a.cl.length else a.count.toNat
  data := a.cl

namespace RtDomain

variable {H : AggregatorHashmap}

lemma add_eq_push (s : RtDomain H) (a : AddRequest) :
    s.add a = (⟨(s.push ⟨a.record, a.name⟩).1⟩, (s.push ⟨a.record, a.name⟩).2) :=
  rfl

/-- `add` on one request after another: the answers, what was sent and what is left. -/
def adds (s : RtDomain H) : List AddRequest → List AddResponse × List Sent × RtDomain H
  | [] => ([], [], s)
  | a :: rest =>
    let r := s.add a
    let n := r.2.2.adds rest
    (r.1 :: n.1, r.2.1 ++ n.2.1, n.2.2)

/-- Only the three fields that every element sets have been set. -/
def Reusable (ag : AggregatedData) : Prop := ag = { ts := ag.ts, count := ag.count, data := ag.data }

/-- Filled again, the record is a new one. -/
lemma Reusable.filled {ag : AggregatedData} (h : Reusable ag) (a : AddRequest) :
    { ag with
      ts := a.ts
      count := if a.count < 0 then a.cl.length else a.count.toNat
      data := a.cl } = a.record := by
  rw [h]
  rfl

lemma reusable_record (a : AddRequest) : Reusable a.record := rfl

lemma multiAddLoop_eq (s : RtDomain H) (reqs : List AddRequest) {ag : AggregatedData} (h : Reusable ag)
    (sent : List Sent) :
    multiAddLoop reqs ag sent s = (sent ++ (s.adds reqs).2.1, (s.adds reqs).2.2) := by
  induction reqs generalizing s ag sent with
  | nil => rw [multiAddLoop, adds, List.append_nil]
  | cons a rest ih =>
    have hrecord := h.filled a
    have hrest := ih (s.add a).2.2 (reusable_record a) (sent ++ (s.add a).2.1)
    rw [multiAddLoop, adds, ← List.append_assoc]
    simp only [hrecord]
    exact hrest

/-- No push of the requests, one after another, is refused. -/
def NoneRefused (H : AggregatorHashmap) : H.State → List AddRequest → Prop
  | _, [] => True
  | m, a :: rest => (H.push m a.name a.record).status = true ∧ NoneRefused H (H.push m a.name a.record).state rest

lemma adds_true_iff (s : RtDomain H) (reqs : List AddRequest) :
    (∀ res ∈ (s.adds reqs).1, res.result = true) ↔ NoneRefused H s.aggregators reqs := by
  induction reqs generalizing s with
  | nil => exact iff_of_true (fun _ h => absurd h List.not_mem_nil) trivial
  | cons a rest ih =>
    rw [adds, NoneRefused, List.forall_mem_cons, ih, add_eq_push]
    rfl

/-- `multi_add` is the adds of its elements, and true if all of them are. -/
structure MatchesAdds (s : RtDomain H) (req : MultiAddRequest) : Prop where
  domain : (s.multiAdd req).2.2 = (s.adds req.data).2.2
  sent : (s.multiAdd req).2.1 = (s.adds req.data).2.1
  result : (s.multiAdd req).1.result = true ↔ ∀ res ∈ (s.adds req.data).1, res.result = true

/-- The state and the pushes are those of the adds, and the result is that of the adds
exactly if no push is refused. -/
theorem multi_add_matches_adds_iff (s : RtDomain H) (req : MultiAddRequest) :
    (s.multiAdd req).2 = (s.adds req.data).2 ∧
      (s.MatchesAdds req ↔ NoneRefused H s.aggregators req.data) := by
  have hloop : (s.multiAdd req).2 = (s.adds req.data).2 := by
    have heq := multiAddLoop_eq s req.data (rfl : Reusable {}) []
    rw [List.nil_append] at heq
    exact heq
  refine ⟨hloop, ?_⟩
  rw [← adds_true_iff]
  constructor
  · intro h
    exact h.result.mp rfl
  · intro h
    refine ⟨congrArg Prod.snd hloop, congrArg Prod.fst hloop, iff_of_true rfl h⟩

/-- There is room for one name, and the second one is refused. -/
theorem multi_add_true_though_refused :
    let s : RtDomain (.limited (.reference 1 false) 1) := { targets := [true], aggregators := .empty }
    let req : MultiAddRequest := { data := [{ ts := 5, name := [97], cl := [1] }, { ts := 5, name := [98], cl := [2] }] }
    (s.multiAdd req).1.result = true ∧ (s.adds req.data).1.map (·.result) = [true, false] ∧ ¬s.MatchesAdds req := by
  intro s req
  have hresults : (s.adds req.data).1 = [⟨true⟩, ⟨false⟩] := rfl
  refine ⟨rfl, congrArg (List.map (·.result)) hresults, fun h => ?_⟩
  have hall := h.result.mp rfl
  rw [hresults] at hall
  exact absurd (hall ⟨false⟩ (by simp)) Bool.false_ne_true

end RtDomain

end WfcBtp
