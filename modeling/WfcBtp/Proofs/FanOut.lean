import Mathlib.Data.List.Nodup
import WfcBtp.Model.RtForwarding
import WfcBtp.Model.WrtstatReference

/-!
# Fan-out

Which targets are given a request, how often, and how often a call answers its callback.
-/

namespace WfcBtp

variable {H : AggregatorHashmap} {ρ : Type}

/-- The target at an index is there to be locked. -/
def liveAt (targets : List Bool) (i : ℕ) : Bool := targets[i]? = some true

lemma getElem?_eq_liveAt {targets : List Bool} {i : ℕ} (h : i < targets.length) :
    targets[i]? = some (liveAt targets i) := by
  unfold liveAt
  rw [List.getElem?_eq_getElem h]
  cases targets[i] <;> rfl

/-- The indexes of the live targets, in the order in which they are given a request. -/
def liveIndexes (targets : List Bool) : List ℕ :=
  (List.range' 1 (targets.length - 1) ++ [0]).filter (liveAt targets)

/-- Every target that is there is given the request once, and nothing else is sent. -/
structure DeliversOnce (targets : List Bool) (req : ρ) (sent : List (Given ρ)) : Prop where
  carries : ∀ m ∈ sent, m.2 = some req
  once : ∀ i, (sent.map Prod.fst).count i = if targets[i]? = some true then 1 else 0

/-- A callback is answered once, and without a callback there is no answer. -/
def AnswersOnce {α : Type} (cb : Bool) (answers : List α) : Prop := answers.length = if cb then 1 else 0

instance {α : Type} (cb : Bool) (answers : List α) : Decidable (AnswersOnce cb answers) :=
  inferInstanceAs (Decidable (_ = _))

lemma count_liveIndexes (targets : List Bool) (i : ℕ) :
    (liveIndexes targets).count i = if targets[i]? = some true then 1 else 0 := by
  have hnodup : (List.range' 1 (targets.length - 1) ++ [0]).Nodup := by
    rw [List.nodup_append]
    refine ⟨List.nodup_range', List.nodup_singleton 0, ?_⟩
    intro j hj k hk
    rw [List.mem_range'_1] at hj
    rw [List.mem_singleton.mp hk]
    omega
  by_cases h : targets[i]? = some true
  · have hlt : i < targets.length := (List.getElem?_eq_some_iff.mp h).1
    have hmem : i ∈ List.range' 1 (targets.length - 1) ++ [0] := by
      rw [List.mem_append, List.mem_range'_1, List.mem_singleton]
      omega
    rw [if_pos h]
    apply List.count_eq_one_of_mem (hnodup.filter _)
    exact List.mem_filter.mpr ⟨hmem, decide_eq_true h⟩
  · rw [if_neg h]
    apply List.count_eq_zero_of_not_mem
    intro hmem
    exact h (of_decide_eq_true (List.mem_filter.mp hmem).2)

lemma deliversOnce_liveIndexes (targets : List Bool) (req : ρ) :
    DeliversOnce targets req ((liveIndexes targets).map fun i => (i, some req)) := by
  constructor
  · intro m hm
    obtain ⟨i, _, rfl⟩ := List.mem_map.mp hm
    rfl
  · intro i
    have hfst : ((liveIndexes targets).map fun i => (i, some req)).map Prod.fst = liveIndexes targets := by
      rw [List.map_map]
      exact List.map_id _
    rw [hfst, count_liveIndexes]

/-! ### Forwarding -/

namespace Forwarding

lemma copyTo?_eq {targets : List Bool} {i : ℕ} (h : i < targets.length) (req : ρ) (sent : List (Given ρ)) :
    copyTo? targets ⟨some req, sent⟩ i =
      some ⟨some req, sent ++ ([i].filter (liveAt targets)).map fun i => (i, some req)⟩ := by
  rw [copyTo?, getElem?_eq_liveAt h, List.filter_cons, List.filter_nil]
  cases liveAt targets i with
  | true => rfl
  | false =>
    rw [if_neg Bool.false_ne_true, List.map_nil, List.append_nil]
    rfl

/-- The copies leave the request where it is. -/
lemma foldlM_copyTo? {targets : List Bool} (req : ρ) {l : List ℕ} (h : ∀ i ∈ l, i < targets.length)
    (sent : List (Given ρ)) :
    l.foldlM (copyTo? targets) ⟨some req, sent⟩ =
      some ⟨some req, sent ++ (l.filter (liveAt targets)).map fun i => (i, some req)⟩ := by
  induction l generalizing sent with
  | nil =>
    rw [List.foldlM_nil, List.filter_nil, List.map_nil, List.append_nil]
    rfl
  | cons i rest ih =>
    rw [List.foldlM_cons, copyTo?_eq (h i List.mem_cons_self), Option.bind_eq_bind, Option.bind_some,
      ih fun j hj => h j (List.mem_cons_of_mem i hj), List.append_assoc, ← List.map_append,
      ← List.filter_append, List.singleton_append]

lemma moveTo?_eq {targets : List Bool} {i : ℕ} (h : i < targets.length) (req : ρ) (sent : List (Given ρ)) :
    ∃ left, moveTo? targets ⟨some req, sent⟩ i =
      some ⟨left, sent ++ ([i].filter (liveAt targets)).map fun i => (i, some req)⟩ := by
  rw [moveTo?, getElem?_eq_liveAt h, List.filter_cons, List.filter_nil]
  cases liveAt targets i with
  | true => exact ⟨none, rfl⟩
  | false =>
    rw [if_neg Bool.false_ne_true, List.map_nil, List.append_nil]
    exact ⟨some req, rfl⟩

/-- The live targets are given the request, the first one after all others. -/
lemma forward?_eq {targets : List Bool} (h : targets ≠ []) (req : ρ) :
    ∃ f, forward? targets req = some f ∧ f.sent = (liveIndexes targets).map fun i => (i, some req) := by
  have hpos : 0 < targets.length := List.length_pos_iff.mpr h
  have hbound : ∀ i ∈ List.range' 1 (targets.length - 1), i < targets.length := by
    intro i hi
    rw [List.mem_range'_1] at hi
    omega
  obtain ⟨left, hmove⟩ := moveTo?_eq hpos req
    (((List.range' 1 (targets.length - 1)).filter (liveAt targets)).map fun i => (i, some req))
  refine ⟨⟨left, (liveIndexes targets).map fun i => (i, some req)⟩, ?_, rfl⟩
  rw [forward?, foldlM_copyTo? req hbound, List.nil_append, Option.bind_eq_bind, Option.bind_some, hmove,
    ← List.map_append, ← List.filter_append]
  rfl

/-- There is no first target. -/
lemma forward?_nil (req : ρ) : forward? [] req = none := rfl

end Forwarding

namespace RtDomain

/-- A sent push as what its target was given. -/
def given (m : Sent) : Given PushRequest := (m.1, some m.2)

lemma sendTo_zipIdx (req : PushRequest) {targets l : List Bool} {k : ℕ} (h : l <+: targets.drop k) :
    sendTo req (l.zipIdx k) = ((List.range' k l.length).filter (liveAt targets)).map fun i => (i, req) := by
  induction l generalizing k with
  | nil => rfl
  | cons t rest ih =>
    obtain ⟨tail, htail⟩ := h
    have hrest : rest <+: targets.drop (k + 1) := by
      rw [← List.tail_drop, ← htail]
      exact List.prefix_append rest tail
    have hlive : liveAt targets k = t := by
      have hget : targets[k]? = some t := by rw [← List.head?_drop, ← htail, List.cons_append, List.head?_cons]
      rw [getElem?_eq_liveAt (List.getElem?_eq_some_iff.mp hget).1] at hget
      exact Option.some.inj hget
    have hsend : sendTo req ((t :: rest).zipIdx k) =
        (if t then [(k, req)] else []) ++ sendTo req (rest.zipIdx (k + 1)) := by
      cases t <;> rfl
    rw [hsend, ih hrest, List.length_cons, List.range'_succ, List.filter_cons, hlive]
    cases t <;> rfl

lemma agHandler_eq (s : RtDomain H) (name : Name) (ag : AggregatedData) :
    s.agHandler name ag =
      (liveIndexes s.targets).map fun i => (i, { toAggregatedData := ag, name := name }) := by
  unfold agHandler liveIndexes
  cases s.targets with
  | nil => rfl
  | cons t rest =>
    have hothers : rest <+: (t :: rest).drop 1 := List.prefix_rfl
    have hfirst : [t] <+: (t :: rest).drop 0 := List.take_prefix 1 (t :: rest)
    rw [List.filter_append, List.map_append]
    exact congrArg₂ (· ++ ·) (sendTo_zipIdx _ hothers) (sendTo_zipIdx _ hfirst)

/-- The handler follows no null pointer and uses no index beyond the list. -/
lemma agHandler?_eq (s : RtDomain H) (name : Name) (ag : AggregatedData) :
    s.agHandler? name ag = some ((s.agHandler name ag).map given) := by
  rw [agHandler_eq, List.map_map, agHandler?]
  by_cases h : s.targets = []
  · rw [h]
    rfl
  · obtain ⟨f, hf, hsent⟩ := Forwarding.forward?_eq h ({ toAggregatedData := ag, name := name } : PushRequest)
    rw [if_neg fun hempty => h (List.isEmpty_iff.mp hempty)]
    dsimp only
    rw [hf, Option.bind_eq_bind, Option.bind_some, hsent]
    rfl

lemma agHandler_deliversOnce (s : RtDomain H) (name : Name) (ag : AggregatedData) :
    DeliversOnce s.targets { toAggregatedData := ag, name := name } ((s.agHandler name ag).map given) := by
  rw [agHandler_eq, List.map_map]
  exact deliversOnce_liveIndexes s.targets _

lemma handle?_eq (s : RtDomain H) (name : Name) (l : List AggregatedData) :
    s.handle? name l = some ((l.flatMap (s.agHandler name)).map given) := by
  induction l with
  | nil => rfl
  | cons ag rest ih =>
    rw [handle?, agHandler?_eq, ih, List.flatMap_cons, List.map_append]
    rfl

/-! ### Answers -/

/-- `create_response` makes a response exactly if there is a callback. -/
structure MakesResponse (createResponse : Bool → Bool) : Prop where
  of_callback : createResponse true = true
  of_none : createResponse false = false

variable {createResponse : Bool → Bool}

lemma answer?_eq {α : Type} (h : MakesResponse createResponse) (cb : Bool) (res : α) :
    answer? createResponse cb res = some (if cb then [res] else []) := by
  unfold answer?
  cases cb with
  | true =>
    rw [if_pos h.of_callback]
    rfl
  | false =>
    rw [if_neg (ne_true_of_eq_false h.of_none)]
    rfl

lemma answersOnce_ite {α : Type} (cb : Bool) (res : α) : AnswersOnce cb (if cb then [res] else []) := by
  cases cb <;> rfl

lemma push?_eq (h : MakesResponse createResponse) (s : RtDomain H) (cb : Bool) (req : PushRequest) :
    s.push? createResponse cb req =
      some ⟨if cb then [(s.push req).1] else [], (s.push req).2.1.map given, (s.push req).2.2⟩ := by
  rw [push?, handle?_eq, answer?_eq h]
  rfl

lemma add?_eq (h : MakesResponse createResponse) (s : RtDomain H) (cb : Bool) (req : AddRequest) :
    s.add? createResponse cb req =
      some ⟨if cb then [(s.add req).1] else [], (s.add req).2.1.map given, (s.add req).2.2⟩ := by
  rw [add?, handle?_eq, answer?_eq h]
  rfl

lemma multiAddLoop?_eq (s : RtDomain H) (reqs : List AddRequest) (ag : AggregatedData) (sent : List Sent) :
    multiAddLoop? reqs ag (sent.map given) s =
      some ((multiAddLoop reqs ag sent s).1.map given, (multiAddLoop reqs ag sent s).2) := by
  induction reqs generalizing s ag sent with
  | nil => rfl
  | cons a rest ih =>
    rw [multiAddLoop?, multiAddLoop, handle?_eq, Option.bind_eq_bind, Option.bind_some, ← List.map_append]
    exact ih _ _ _

lemma multiAdd?_eq (h : MakesResponse createResponse) (s : RtDomain H) (cb : Bool) (req : MultiAddRequest) :
    s.multiAdd? createResponse cb req =
      some ⟨if cb then [(s.multiAdd req).1] else [], (s.multiAdd req).2.1.map given, (s.multiAdd req).2.2⟩ := by
  have hloop := multiAddLoop?_eq s req.data {} []
  rw [List.map_nil] at hloop
  rw [multiAdd?, hloop, answer?_eq h]
  rfl

/-! ### Deleting -/

lemma del?_of_nil {s : RtDomain H} (h : s.targets = []) (cb : Bool) (req : DelRequest) :
    s.del? cb req = none := by
  rw [del?, h, Forwarding.forward?_nil]
  rfl

/-- With a target on the list the live ones are given the request, and nobody is answered. -/
lemma del?_of_ne_nil {s : RtDomain H} (h : s.targets ≠ []) (cb : Bool) (req : DelRequest) :
    ∃ o, s.del? cb req = some o ∧ DeliversOnce s.targets req o.sent ∧ o.answers = [] := by
  obtain ⟨f, hf, hsent⟩ := Forwarding.forward?_eq h req
  refine ⟨⟨[], f.sent, s⟩, ?_, ?_, rfl⟩
  · rw [del?, hf]
    rfl
  · rw [hsent]
    exact deliversOnce_liveIndexes s.targets req

lemma ne_nil_of_del? {s : RtDomain H} {cb : Bool} {req : DelRequest} {o : RtOutcome H DelRequest DelResponse}
    (h : s.del? cb req = some o) : s.targets ≠ [] := by
  intro hnil
  rw [del?_of_nil hnil] at h
  exact absurd h (by simp)

/-- The list of answers is empty, which is right where there is no callback. -/
lemma answersOnce_nil_iff {α : Type} (cb : Bool) : AnswersOnce cb ([] : List α) ↔ cb = false := by
  unfold AnswersOnce
  cases cb <;> simp

lemma del?_delivers_iff (s : RtDomain H) (cb : Bool) (req : DelRequest) :
    (∃ o, s.del? cb req = some o ∧ DeliversOnce s.targets req o.sent) ↔ s.targets ≠ [] := by
  constructor
  · rintro ⟨o, ho, _⟩
    exact ne_nil_of_del? ho
  · intro h
    obtain ⟨o, ho, hdeliver, _⟩ := del?_of_ne_nil h cb req
    exact ⟨o, ho, hdeliver⟩

lemma del?_delivers_and_answers_iff (s : RtDomain H) (cb : Bool) (req : DelRequest) :
    (∃ o, s.del? cb req = some o ∧ DeliversOnce s.targets req o.sent ∧ AnswersOnce cb o.answers) ↔
      s.targets ≠ [] ∧ cb = false := by
  constructor
  · rintro ⟨o, ho, _, hanswer⟩
    have hnil := ne_nil_of_del? ho
    obtain ⟨o', ho', _, hempty⟩ := del?_of_ne_nil hnil cb req
    rw [ho', Option.some.injEq] at ho
    rw [← ho, hempty, answersOnce_nil_iff] at hanswer
    exact ⟨hnil, hanswer⟩
  · rintro ⟨hnil, hcb⟩
    obtain ⟨o, ho, hdeliver, hempty⟩ := del?_of_ne_nil hnil cb req
    refine ⟨o, ho, hdeliver, ?_⟩
    rw [hempty, answersOnce_nil_iff]
    exact hcb

/-- The handler of finished periods gives each live target one push with the name and the
data, whatever the targets, and `push`, `add` and `multi_add` answer a callback once. `del`
gives each live target one del with the names exactly if there are targets at all, and does
what the others do exactly if there is also no callback to answer. -/
theorem fan_out_iff (h : MakesResponse createResponse) (s : RtDomain H) (cb : Bool) :
    (∀ name ag, ∃ sent, s.agHandler? name ag = some sent ∧
        DeliversOnce s.targets { toAggregatedData := ag, name := name } sent) ∧
      (∀ req, ∃ o, s.push? createResponse cb req = some o ∧ AnswersOnce cb o.answers) ∧
      (∀ req, ∃ o, s.add? createResponse cb req = some o ∧ AnswersOnce cb o.answers) ∧
      (∀ req, ∃ o, s.multiAdd? createResponse cb req = some o ∧ AnswersOnce cb o.answers) ∧
      ∀ req, ((∃ o, s.del? cb req = some o ∧ DeliversOnce s.targets req o.sent) ↔ s.targets ≠ []) ∧
        ((∃ o, s.del? cb req = some o ∧ DeliversOnce s.targets req o.sent ∧ AnswersOnce cb o.answers) ↔
          s.targets ≠ [] ∧ cb = false) := by
  refine ⟨?_, ?_, ?_, ?_, ?_⟩
  · exact fun name ag => ⟨_, s.agHandler?_eq name ag, s.agHandler_deliversOnce name ag⟩
  · exact fun req => ⟨_, s.push?_eq h cb req, answersOnce_ite cb _⟩
  · exact fun req => ⟨_, s.add?_eq h cb req, answersOnce_ite cb _⟩
  · exact fun req => ⟨_, s.multiAdd?_eq h cb req, answersOnce_ite cb _⟩
  · exact fun req => ⟨s.del?_delivers_iff cb req, s.del?_delivers_and_answers_iff cb req⟩

/-- The second of two targets has expired, and nobody waits for an answer. -/
theorem fan_out_expired_target :
    let s : RtDomain (.limited (.reference 1 false) 1) := { targets := [true, false], aggregators := .empty }
    let req : DelRequest := { names := [[97]] }
    ∃ o, s.del? false req = some o ∧ DeliversOnce s.targets req o.sent ∧ AnswersOnce false o.answers := by
  intro s req
  have hmakes : MakesResponse id := ⟨rfl, rfl⟩
  have hdel := (fan_out_iff hmakes s false).2.2.2.2 req
  exact hdel.2.mpr ⟨List.cons_ne_nil true [false], rfl⟩

/-- The only target gets the request, but the callback gets no response; and without targets
the first one is used all the same. -/
theorem del_answers_nobody :
    let s : RtDomain (.limited (.reference 1 false) 1) := { targets := [true], aggregators := .empty }
    let t : RtDomain (.limited (.reference 1 false) 1) := { targets := [], aggregators := .empty }
    let req : DelRequest := { names := [[97]] }
    (s.del? true req).map (fun o => (o.sent, o.answers)) = some ([(0, some req)], []) ∧
      (¬∃ o, s.del? true req = some o ∧ AnswersOnce true o.answers) ∧ t.del? false req = none := by
  intro s t req
  have hdel : s.del? true req = some ⟨[], [(0, some req)], s⟩ := rfl
  refine ⟨rfl, ?_, rfl⟩
  rintro ⟨o, ho, hanswer⟩
  rw [hdel, Option.some.injEq] at ho
  rw [← ho] at hanswer
  exact absurd hanswer (by decide)

end RtDomain

end WfcBtp
