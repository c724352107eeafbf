import WfcBtp.Model.Pipeline
import WfcBtp.Proofs.CountTable
import WfcBtp.Proofs.FanOut
import WfcBtp.Proofs.MultiAdd

/-!
# From clients to the targets

What clients count under a name reaches every target once its period is over, whatever the
order in which the targets handle what they are given.
-/

namespace WfcBtp
open Library

/-! ### Periods -/

section Periods

variable (W : Wrtstat)

/-- The data whose period is over: there are data of a later one. -/
def finished (l : List AggregatedData) : List AggregatedData :=
  l.filter fun d => ∃ d' ∈ l, W.getTs d.ts < W.getTs d'.ts

/-- The data at the start of their period. -/
def periodStart (d : AggregatedData) : AggregatedData := { d with ts := W.getTs d.ts }

/-- The data under a name. -/
def dataOf (name : Name) (l : List PushRequest) : List AggregatedData :=
  (l.filter fun r => r.name = name).map (·.toAggregatedData)

end Periods

variable {W : Wrtstat}

lemma finished_snoc_same {l : List AggregatedData} {d d₀ : AggregatedData} (hle : ∀ e ∈ l, W.getTs e.ts ≤ W.getTs d.ts)
    (h₀ : d₀ ∈ l) (hsame : W.getTs d₀.ts = W.getTs d.ts) : finished W (l ++ [d]) = finished W l := by
  have hlater : ∀ e : AggregatedData, (∃ e' ∈ l ++ [d], W.getTs e.ts < W.getTs e'.ts) ↔ ∃ e' ∈ l, W.getTs e.ts < W.getTs e'.ts := by
    intro e
    constructor
    · rintro ⟨e', he', hlt⟩
      rcases List.mem_append.mp he' with he' | he'
      · exact ⟨e', he', hlt⟩
      · rw [List.mem_singleton.mp he', ← hsame] at hlt
        exact ⟨d₀, h₀, hlt⟩
    · rintro ⟨e', he', hlt⟩
      exact ⟨e', List.mem_append_left _ he', hlt⟩
  have hd : ¬∃ e' ∈ l, W.getTs d.ts < W.getTs e'.ts := fun ⟨e', he', hlt⟩ => (hle e' he').not_gt hlt
  unfold finished
  simp only [hlater]
  rw [List.filter_append, List.filter_cons_of_neg (by simpa using hd), List.filter_nil, List.append_nil]

lemma finished_snoc_later {l : List AggregatedData} {d : AggregatedData} (hlt : ∀ e ∈ l, W.getTs e.ts < W.getTs d.ts) :
    finished W (l ++ [d]) = l := by
  have hold : ∀ e ∈ l, decide (∃ e' ∈ l ++ [d], W.getTs e.ts < W.getTs e'.ts) = true := fun e he =>
    decide_eq_true ⟨d, List.mem_append_right _ List.mem_cons_self, hlt e he⟩
  have hd : ¬∃ e' ∈ l ++ [d], W.getTs d.ts < W.getTs e'.ts := by
    rintro ⟨e', he', h⟩
    rcases List.mem_append.mp he' with he' | he'
    · exact (hlt e' he').not_gt h
    · rw [List.mem_singleton.mp he'] at h
      exact lt_irrefl _ h
  unfold finished
  rw [List.filter_append, List.filter_eq_self.mpr hold, List.filter_cons_of_neg (by simpa using hd), List.filter_nil,
    List.append_nil]

/-- The data of the last period, and those of the periods before it. -/
lemma finished_append_perm {l : List AggregatedData} {t : ℤ} (hle : ∀ e ∈ l, W.getTs e.ts ≤ t)
    (hmem : ∃ e ∈ l, W.getTs e.ts = t) : (finished W l ++ l.filter fun e => W.getTs e.ts = t).Perm l := by
  obtain ⟨e₀, he₀, h₀⟩ := hmem
  have hnot : ∀ e ∈ l, decide (∃ e' ∈ l, W.getTs e.ts < W.getTs e'.ts) = !decide (W.getTs e.ts = t) := by
    intro e he
    rcases (hle e he).eq_or_lt with heq | hlt
    · have hno : ¬∃ e' ∈ l, W.getTs e.ts < W.getTs e'.ts := by
        rintro ⟨e', he', hlt⟩
        rw [heq] at hlt
        exact (hle e' he').not_gt hlt
      rw [decide_eq_false hno, decide_eq_true heq]
      rfl
    · have hyes : ∃ e' ∈ l, W.getTs e.ts < W.getTs e'.ts := ⟨e₀, he₀, by rwa [h₀]⟩
      rw [decide_eq_true hyes, decide_eq_false hlt.ne]
      rfl
  unfold finished
  rw [List.filter_congr hnot]
  exact List.perm_append_comm.trans (List.filter_append_perm _ l)

/-! ### Sums -/

lemma recorded_append (V : Wrtstat) (a b : List AggregatedData) (t : ℤ) :
    recorded V (a ++ b) t = if recorded V b t = none then recorded V a t
      else some ((recorded V a t).getD 0 + (recorded V b t).getD 0) := by
  unfold recorded
  rw [List.filter_append, List.map_append]
  generalize (a.filter fun d => V.getTs d.ts = t).map (·.count) = xs
  generalize (b.filter fun d => V.getTs d.ts = t).map (·.count) = ys
  cases xs <;> cases ys <;> simp [Nat.add_assoc]

lemma recorded_append_getD (V : Wrtstat) (a b : List AggregatedData) (t : ℤ) :
    (recorded V (a ++ b) t).getD 0 = (recorded V a t).getD 0 + (recorded V b t).getD 0 := by
  rw [recorded_append]
  split_ifs with h
  · rw [h]
    rfl
  · rfl

/-- One record of a period counts as the data it sums. -/
lemma recorded_period (V : Wrtstat) {l : List AggregatedData} {t : ℤ} {r : AggregatedData}
    (hr : recorded W l t = some r.count) (hts : r.ts = t) (u : ℤ) :
    recorded V ((l.filter fun e => W.getTs e.ts = t).map (periodStart W)) u = recorded V [r] u := by
  have hstart : ∀ e ∈ l.filter fun e => W.getTs e.ts = t, (periodStart W e).ts = t := fun e he =>
    of_decide_eq_true (List.mem_filter.mp he).2
  have hcounts : ((l.filter fun e => W.getTs e.ts = t).map (periodStart W)).map (·.count) =
      (l.filter fun e => W.getTs e.ts = t).map (·.count) := List.map_map
  have hall : ∀ e ∈ (l.filter fun e => W.getTs e.ts = t).map (periodStart W), e.ts = t := by
    intro e he
    obtain ⟨e', he', rfl⟩ := List.mem_map.mp he
    exact hstart e' he'
  unfold recorded at hr
  dsimp only at hr
  rw [← hcounts] at hr
  unfold recorded
  by_cases hu : V.getTs t = u
  · have hfilter : ((l.filter fun e => W.getTs e.ts = t).map (periodStart W)).filter (fun d => V.getTs d.ts = u) =
        (l.filter fun e => W.getTs e.ts = t).map (periodStart W) :=
      List.filter_eq_self.mpr fun e he => decide_eq_true (by rw [hall e he, hu])
    have hr' : [r].filter (fun d => V.getTs d.ts = u) = [r] :=
      List.filter_cons_of_pos (decide_eq_true (by rw [hts, hu]))
    dsimp only
    rw [hfilter, hr, hr']
    rfl
  · have hfilter : ((l.filter fun e => W.getTs e.ts = t).map (periodStart W)).filter (fun d => V.getTs d.ts = u) = [] :=
      List.filter_eq_nil_iff.mpr fun e he => by rw [hall e he, decide_eq_true_iff]; exact hu
    have hr' : [r].filter (fun d => V.getTs d.ts = u) = [] :=
      List.filter_cons_of_neg (by rw [hts, decide_eq_true_iff]; exact hu)
    dsimp only
    rw [hfilter, hr']

lemma recorded_ne_none_iff {l : List AggregatedData} {t : ℤ} : recorded W l t ≠ none ↔ ∃ d ∈ l, W.getTs d.ts = t := by
  have hempty : ((l.filter fun d => W.getTs d.ts = t).map (·.count)).isEmpty = true ↔ ¬∃ d ∈ l, W.getTs d.ts = t := by
    rw [List.isEmpty_iff, List.map_eq_nil_iff, List.filter_eq_nil_iff]
    simp
  unfold recorded
  dsimp only
  split_ifs with h
  · exact iff_of_false (fun hne => hne rfl) (hempty.mp h)
  · exact iff_of_true (by simp) (not_not.mp (hempty.not.mp h))

/-! ### One name in `rt_domain` -/

/-- The aggregator of a name has the sum of its last period, and those of the others were
handed to the targets. -/
structure Relays (opened : W.Aggregator → Option ℕ) (ag : W.Aggregator) (accepted handed : List AggregatedData) : Prop where
  aligned : W.getTs (W.currentTime ag) = W.currentTime ag
  begun : ∃ d ∈ accepted, W.getTs d.ts = W.currentTime ag
  le : ∀ d ∈ accepted, W.getTs d.ts ≤ W.currentTime ag
  open_sum : opened ag = recorded W accepted (W.currentTime ag)
  times : ∀ h ∈ handed, ∃ d ∈ accepted, h.ts = W.getTs d.ts
  sums : ∀ (V : Wrtstat) t, recorded V handed t = recorded V ((finished W accepted).map (periodStart W)) t

namespace Relays

variable {opened : W.Aggregator → Option ℕ} {ag : W.Aggregator} {accepted handed : List AggregatedData}
  {d : AggregatedData}

lemma create (hA : W.AlignsTime) (hS : W.SumsCounts opened) (d : AggregatedData) :
    (W.push (W.create d.ts) d).1 = [] ∧ Relays opened (W.push (W.create d.ts) d).2 [d] [] := by
  obtain ⟨hnil, htime, hopen⟩ := hS.push_current (W.create d.ts) d (hS.currentTime_create d.ts).symm
  rw [hS.currentTime_create] at htime
  refine ⟨hnil, ?_, ⟨d, List.mem_cons_self, htime.symm⟩, fun e he => ?_, ?_, fun h hh => absurd hh List.not_mem_nil, ?_⟩
  · rw [htime, hA.getTs_idem]
  · rw [List.mem_singleton.mp he, htime]
  · rw [hopen, hS.opened_create, htime]
    simp [recorded]
  · intro V t
    have hnone : finished W [d] = [] := List.filter_eq_nil_iff.mpr (by simp)
    rw [hnone]
    rfl

lemma push (hA : W.AlignsTime) (hS : W.SumsCounts opened) (h : Relays opened ag accepted handed)
    (hle : ∀ e ∈ accepted, W.getTs e.ts ≤ W.getTs d.ts) :
    Relays opened (W.push ag d).2 (accepted ++ [d]) (handed ++ (W.push ag d).1) := by
  obtain ⟨d₀, h₀, htime₀⟩ := h.begun
  have hcurrent : W.currentTime ag ≤ W.getTs d.ts := htime₀ ▸ hle d₀ h₀
  rcases hcurrent.eq_or_lt with heq | hlt
  · -- the period goes on
    obtain ⟨hnil, htime, hopen⟩ := hS.push_current ag d heq.symm
    have hfinished : finished W (accepted ++ [d]) = finished W accepted :=
      finished_snoc_same hle h₀ (htime₀.trans heq)
    rw [hnil, List.append_nil]
    refine ⟨?_, ⟨d, List.mem_append_right _ List.mem_cons_self, ?_⟩, fun e he => ?_, ?_, fun r hr => ?_, fun V t => ?_⟩
    · rw [htime]
      exact h.aligned
    · rw [htime, heq]
    · rw [htime, heq]
      rcases List.mem_append.mp he with he | he
      · exact hle e he
      · rw [List.mem_singleton.mp he]
    · rw [hopen, htime, recorded_snoc, if_pos heq.symm, h.open_sum]
    · obtain ⟨e, he, hts⟩ := h.times r hr
      exact ⟨e, List.mem_append_left _ he, hts⟩
    · rw [hfinished]
      exact h.sums V t
  · -- the first data of a later period: the sum of the one before is handed on
    obtain ⟨⟨rep, hrep, hlist⟩, htime, hopen⟩ := hS.push_later ag d hlt
    have hfinished : finished W (accepted ++ [d]) = accepted :=
      finished_snoc_later fun e he => (h.le e he).trans_lt hlt
    have hsome : recorded W accepted (W.currentTime ag) ≠ none := recorded_ne_none_iff.mpr ⟨d₀, h₀, htime₀⟩
    rw [← h.open_sum] at hsome
    cases rep with
    | none => exact absurd hrep hsome
    | some r =>
      obtain ⟨hcount, hts⟩ := hrep
      rw [hlist, Option.toList_some]
      refine ⟨?_, ⟨d, List.mem_append_right _ List.mem_cons_self, htime.symm⟩, fun e he => ?_, ?_, fun r' hr' => ?_,
        fun V t => ?_⟩
      · rw [htime, hA.getTs_idem]
      · rw [htime]
        rcases List.mem_append.mp he with he | he
        · exact hle e he
        · rw [List.mem_singleton.mp he]
      · have hnew : recorded W accepted (W.getTs d.ts) = none := by
          by_contra hne
          obtain ⟨e, he, heq⟩ := recorded_ne_none_iff.mp hne
          exact absurd (h.le e he) (heq ▸ hlt).not_ge
        rw [hopen, htime, recorded_snoc, if_pos rfl, hnew, Option.getD_none, Nat.zero_add]
      · rcases List.mem_append.mp hr' with hr' | hr'
        · obtain ⟨e, he, hts'⟩ := h.times r' hr'
          exact ⟨e, List.mem_append_left _ he, hts'⟩
        · rw [List.mem_singleton.mp hr', hts, ← htime₀]
          exact ⟨d₀, List.mem_append_left _ h₀, rfl⟩
      · have hsplit := recorded_perm (W := V) ((finished_append_perm h.le ⟨d₀, h₀, htime₀⟩).map (periodStart W)) t
        rw [h.open_sum] at hcount
        rw [hfinished, ← hsplit, List.map_append, recorded_append, recorded_append, h.sums,
          recorded_period V hcount hts]

end Relays

/-! ### All names in `rt_domain` -/

/-- The map keeps one aggregator per name, which `find` looks up. A new name may be refused. -/
structure KeepsAggregators (H : AggregatorHashmap) (W : Wrtstat) (find : H.State → Name → Option W.Aggregator) :
    Prop where
  push_known : ∀ m name ag d, find m name = some ag →
    (H.push m name d).status = true ∧ (H.push m name d).handed = (W.push ag d).1 ∧
      ∀ n, find (H.push m name d).state n = if n = name then some (W.push ag d).2 else find m n
  push_new : ∀ m name d, find m name = none →
    ((H.push m name d).status = true ∧ (H.push m name d).handed = (W.push (W.create d.ts) d).1 ∧
      ∀ n, find (H.push m name d).state n = if n = name then some (W.push (W.create d.ts) d).2 else find m n) ∨
    ((H.push m name d).status = false ∧ (H.push m name d).handed = [] ∧
      ∀ n, find (H.push m name d).state n = find m n)

lemma AggregatorHashmap.limited_keepsAggregators (W : Wrtstat) (limit : ℕ) :
    KeepsAggregators (.limited W limit) W OrderedMap.find? where
  push_known m name ag d h := by
    simp only [limited, h, true_and]
    exact fun n => OrderedMap.find?_set _ _ _ _
  push_new m name d h := by
    simp only [limited, h]
    split_ifs
    · exact .inl ⟨rfl, rfl, fun n => OrderedMap.find?_set _ _ _ _⟩
    · exact .inr ⟨rfl, rfl, fun n => rfl⟩

/-- What a request pushes to the aggregators. -/
def RtCall.pushes : RtCall → List PushRequest
  | .push req => [req]
  | .add req => [⟨req.record, req.name⟩]
  | .multiAdd req => req.data.map fun a => ⟨a.record, a.name⟩

section Pushes

variable (H : AggregatorHashmap)

def afterPush (m : H.State) (r : PushRequest) : H.State := (H.push m r.name r.toAggregatedData).state

/-- What a push makes the aggregators hand on. -/
def handedBy (m : H.State) (r : PushRequest) : List PushRequest :=
  (H.push m r.name r.toAggregatedData).handed.map fun ag => ⟨ag, r.name⟩

def handed : H.State → List PushRequest → List PushRequest
  | _, [] => []
  | m, r :: rest => handedBy H m r ++ handed (afterPush H m r) rest

/-- The pushes that are not refused. -/
def accepted : H.State → List PushRequest → List PushRequest
  | _, [] => []
  | m, r :: rest =>
    (if (H.push m r.name r.toAggregatedData).status then [r] else []) ++ accepted (afterPush H m r) rest

variable {H}

lemma handed_append (m : H.State) (a b : List PushRequest) :
    handed H m (a ++ b) = handed H m a ++ handed H (a.foldl (afterPush H) m) b := by
  induction a generalizing m with
  | nil => rfl
  | cons r rest ih => rw [List.cons_append, handed, handed, ih, List.append_assoc, List.foldl_cons]

lemma accepted_append (m : H.State) (a b : List PushRequest) :
    accepted H m (a ++ b) = accepted H m a ++ accepted H (a.foldl (afterPush H) m) b := by
  induction a generalizing m with
  | nil => rfl
  | cons r rest ih => rw [List.cons_append, accepted, accepted, ih, List.append_assoc, List.foldl_cons]

lemma accepted_sublist (m : H.State) (l : List PushRequest) : (accepted H m l).Sublist l := by
  induction l generalizing m with
  | nil => exact List.Sublist.refl _
  | cons r rest ih =>
    rw [accepted]
    split_ifs
    · exact (ih _).cons_cons r
    · exact (ih _).cons r

end Pushes

lemma dataOf_append (name : Name) (a b : List PushRequest) : dataOf name (a ++ b) = dataOf name a ++ dataOf name b := by
  rw [dataOf, List.filter_append, List.map_append]
  rfl

lemma dataOf_handedBy {H : AggregatorHashmap} (m : H.State) (r : PushRequest) (name : Name) :
    dataOf name (handedBy H m r) = if name = r.name then (H.push m r.name r.toAggregatedData).handed else [] := by
  unfold dataOf handedBy
  split_ifs with h
  · subst h
    simp [List.filter_map, Function.comp_def]
  · simp [List.filter_map, Function.comp_def, Ne.symm h]

lemma mem_dataOf {name : Name} {l : List PushRequest} {d : AggregatedData} (h : d ∈ dataOf name l) :
    ∃ r ∈ l, r.name = name ∧ r.toAggregatedData = d := by
  obtain ⟨r, hr, rfl⟩ := List.mem_map.mp h
  obtain ⟨hmem, hname⟩ := List.mem_filter.mp hr
  exact ⟨r, hmem, of_decide_eq_true hname, rfl⟩

/-- What the aggregators hold of every name after some pushes. -/
structure RelaysAll {H : AggregatorHashmap} (find : H.State → Name → Option W.Aggregator)
    (opened : W.Aggregator → Option ℕ) (m : H.State) (acc out : List PushRequest) : Prop where
  known : ∀ name ag, find m name = some ag → Relays opened ag (dataOf name acc) (dataOf name out)
  unknown : ∀ name, find m name = none → dataOf name acc = [] ∧ dataOf name out = []

/-- Data under a name do not go back to an earlier period. -/
def InOrder (W : Wrtstat) (l : List PushRequest) : Prop :=
  l.Pairwise fun a b => a.name = b.name → W.getTs a.ts ≤ W.getTs b.ts

instance (W : Wrtstat) (l : List PushRequest) : Decidable (InOrder W l) := by
  unfold InOrder
  infer_instance

lemma dataOf_singleton (name : Name) (r : PushRequest) :
    dataOf name [r] = if name = r.name then [r.toAggregatedData] else [] := by
  unfold dataOf
  split_ifs with h
  · simp [h]
  · simp [Ne.symm h]

namespace RelaysAll

variable {opened : W.Aggregator → Option ℕ} {H : AggregatorHashmap} {find : H.State → Name → Option W.Aggregator}
  {m : H.State} {acc out : List PushRequest}

lemma push (hA : W.AlignsTime) (hS : W.SumsCounts opened) (hH : KeepsAggregators H W find)
    (h : RelaysAll find opened m acc out) (r : PushRequest)
    (hle : ∀ e ∈ dataOf r.name acc, W.getTs e.ts ≤ W.getTs r.ts) :
    RelaysAll find opened (afterPush H m r)
      (acc ++ if (H.push m r.name r.toAggregatedData).status then [r] else []) (out ++ handedBy H m r) := by
  -- the aggregator of the name, if the push is not refused
  have hpush : ∀ ag', (H.push m r.name r.toAggregatedData).status = true →
      (∀ n, find (H.push m r.name r.toAggregatedData).state n = if n = r.name then some ag' else find m n) →
      Relays opened ag' (dataOf r.name acc ++ [r.toAggregatedData])
        (dataOf r.name out ++ (H.push m r.name r.toAggregatedData).handed) →
      RelaysAll find opened (afterPush H m r)
        (acc ++ if (H.push m r.name r.toAggregatedData).status then [r] else []) (out ++ handedBy H m r) := by
    intro ag' hstatus hfind hrelays
    rw [if_pos hstatus]
    constructor
    · intro name ag hag
      rw [afterPush, hfind] at hag
      rw [dataOf_append, dataOf_append, dataOf_singleton, dataOf_handedBy]
      split_ifs at hag ⊢ with hname
      · obtain rfl := Option.some.inj hag
        rw [hname]
        exact hrelays
      · rw [List.append_nil, List.append_nil]
        exact h.known name ag hag
    · intro name hnone
      rw [afterPush, hfind] at hnone
      rw [dataOf_append, dataOf_append, dataOf_singleton, dataOf_handedBy]
      split_ifs at hnone ⊢ with hname
      rw [List.append_nil, List.append_nil]
      exact h.unknown name hnone
  cases hk : find m r.name with
  | some ag =>
    obtain ⟨hstatus, hhanded, hfind⟩ := hH.push_known m r.name ag r.toAggregatedData hk
    refine hpush _ hstatus hfind ?_
    rw [hhanded]
    exact (h.known r.name ag hk).push hA hS hle
  | none =>
    obtain ⟨hacc, hout⟩ := h.unknown r.name hk
    rcases hH.push_new m r.name r.toAggregatedData hk with ⟨hstatus, hhanded, hfind⟩ | ⟨hstatus, hhanded, hfind⟩
    · refine hpush _ hstatus hfind ?_
      obtain ⟨hnil, hcreate⟩ := Relays.create hA hS r.toAggregatedData
      rw [hhanded, hnil, hacc, hout]
      exact hcreate
    · have hby : handedBy H m r = [] := by rw [handedBy, hhanded, List.map_nil]
      rw [hby, hstatus, List.append_nil, if_neg Bool.false_ne_true, List.append_nil]
      constructor
      · intro name ag hag
        rw [afterPush, hfind] at hag
        exact h.known name ag hag
      · intro name hnone
        rw [afterPush, hfind] at hnone
        exact h.unknown name hnone

lemma run (hA : W.AlignsTime) (hS : W.SumsCounts opened) (hH : KeepsAggregators H W find)
    (hm : ∀ name, find m name = none) {l : List PushRequest} (hl : InOrder W l) :
    RelaysAll find opened (l.foldl (afterPush H) m) (accepted H m l) (handed H m l) := by
  induction l using List.reverseRecOn with
  | nil =>
    constructor
    · intro name ag hag
      rw [List.foldl_nil, hm] at hag
      cases hag
    · exact fun name _ => ⟨rfl, rfl⟩
  | append_singleton l r ih =>
    obtain ⟨hbefore, -, hlast⟩ := List.pairwise_append.mp hl
    have hle : ∀ e ∈ dataOf r.name (accepted H m l), W.getTs e.ts ≤ W.getTs r.ts := by
      intro e he
      obtain ⟨r', hr', hname, rfl⟩ := mem_dataOf he
      exact hlast r' ((accepted_sublist m l).subset hr') r List.mem_cons_self hname
    have hnext := (ih hbefore).push hA hS hH r hle
    rw [List.foldl_append, accepted_append, handed_append, accepted, accepted, handed, handed, List.append_nil,
      List.append_nil]
    exact hnext

end RelaysAll

/-! ### What `rt_domain` sends -/

lemma mailTo_flatMap {α μ : Type} (i : ℕ) (f : α → List (ℕ × μ)) (l : List α) :
    mailTo i (l.flatMap f) = l.flatMap fun a => mailTo i (f a) := by
  induction l with
  | nil => rfl
  | cons a rest ih => rw [List.flatMap_cons, List.flatMap_cons, mailTo_append, ih]

namespace RtDomain

variable {H : AggregatorHashmap}

/-- What is sent for the pushes that the aggregators hand on. -/
def forwarded (s : RtDomain H) (reqs : List PushRequest) : List Sent :=
  (handed H s.aggregators reqs).flatMap fun r => s.agHandler r.name r.toAggregatedData

def afterPushes (s : RtDomain H) (reqs : List PushRequest) : RtDomain H :=
  { s with aggregators := reqs.foldl (afterPush H) s.aggregators }

lemma push_eq (s : RtDomain H) (req : PushRequest) : (s.push req).2 = (s.forwarded [req], s.afterPushes [req]) := by
  unfold forwarded
  rw [handed, handed, List.append_nil, handedBy, List.flatMap_map]
  rfl

lemma forwarded_cons (s : RtDomain H) (r : PushRequest) (rest : List PushRequest) :
    s.forwarded (r :: rest) = s.forwarded [r] ++ (s.afterPushes [r]).forwarded rest := by
  unfold forwarded
  rw [handed, List.flatMap_append, handed, handed, List.append_nil]
  rfl

lemma adds_eq (s : RtDomain H) (reqs : List AddRequest) :
    (s.adds reqs).2 = (s.forwarded (reqs.map fun a => ⟨a.record, a.name⟩),
      s.afterPushes (reqs.map fun a => ⟨a.record, a.name⟩)) := by
  induction reqs generalizing s with
  | nil => rfl
  | cons a rest ih =>
    have hone : (s.add a).2 = (s.forwarded [⟨a.record, a.name⟩], s.afterPushes [⟨a.record, a.name⟩]) :=
      s.push_eq ⟨a.record, a.name⟩
    rw [adds, List.map_cons, forwarded_cons]
    dsimp only
    rw [hone, ih]
    rfl

lemma call_eq (s : RtDomain H) (c : RtCall) : s.call c = (s.forwarded c.pushes, s.afterPushes c.pushes) := by
  cases c with
  | push req => exact s.push_eq req
  | add req => exact s.push_eq ⟨req.record, req.name⟩
  | multiAdd req =>
    have hloop : (s.multiAdd req).2 = (s.adds req.data).2 := multiAddLoop_eq s req.data (rfl : Reusable {}) []
    rw [call, hloop]
    exact s.adds_eq req.data

/-- A target that is there is given everything that the aggregators hand on. -/
lemma mailTo_forwarded (s : RtDomain H) (reqs : List PushRequest) {i : ℕ} (hi : s.targets[i]? = some true) :
    mailTo i (s.forwarded reqs) = handed H s.aggregators reqs := by
  have hone : ∀ r : PushRequest, mailTo i (s.agHandler r.name r.toAggregatedData) = [r] := by
    intro r
    rw [agHandler_eq, mailTo, List.filter_map, List.map_map]
    change ((liveIndexes s.targets).filter fun j => j = i).map (fun _ => r) = [r]
    rw [List.filter_eq, count_liveIndexes, if_pos hi]
    rfl
  rw [forwarded, mailTo_flatMap]
  simp only [hone]
  exact List.flatMap_singleton' _

lemma mailTo_sentFor (s : RtDomain H) (calls : List RtCall) {i : ℕ} (hi : s.targets[i]? = some true) :
    mailTo i (sentFor call s calls) = handed H s.aggregators (calls.flatMap RtCall.pushes) := by
  induction calls generalizing s with
  | nil => rfl
  | cons c rest ih =>
    rw [sentFor, mailTo_append, call_eq, mailTo_forwarded s _ hi, List.flatMap_cons, handed_append]
    exact congrArg _ (ih (s.afterPushes c.pushes) hi)

end RtDomain

/-! ### The targets -/

/-- The table after a push. -/
def CountTable.push (T : CountTable) (r : PushRequest) : CountTable :=
  Function.update T r.name (some ((T r.name).getD [] ++ [r.toAggregatedData]))

lemma CountTable.getD_foldl_push (l : List PushRequest) (name : Name) :
    ((l.foldl CountTable.push fun _ => none) name).getD [] = dataOf name l := by
  induction l using List.reverseRecOn with
  | nil => rfl
  | append_singleton l r ih =>
    rw [List.foldl_append, List.foldl_cons, List.foldl_nil, dataOf_append, dataOf_singleton, ← ih, CountTable.push]
    split_ifs with h
    · rw [h, Function.update_self]
      rfl
    · rw [Function.update_of_ne h, List.append_nil]

namespace Storage

/-- The count stored for a period under the id of a name. -/
def countOf (s : Storage W) (name : Name) (t : ℤ) : Option ℕ :=
  countAt? (s.dataStorage.point? (s.keyCache.getId name)) t

lemma Tracks.countOf {opened : W.Aggregator → Option ℕ} {opt : StorageOptions} {limits n : ℕ} {s : Storage W}
    {T : CountTable} (h : Tracks opened opt limits n s T) (name : Name) (t : ℤ) :
    s.countOf name t = recorded W ((T name).getD []) t := by
  obtain ⟨A, haccounts, htaken⟩ := h
  unfold Storage.countOf
  cases hk : s.keyCache.keyMap.find? name with
  | none =>
    have hid : s.keyCache.getId name = badKey := by simp [KeyCache.getId, hk]
    rw [htaken.sent, haccounts.unknown name hk, hid, countAt?, haccounts.unused badKey haccounts.keyCounter_lt]
    rfl
  | some ka =>
    obtain ⟨e, he, haccount⟩ := haccounts.known name ka hk
    obtain ⟨hsent, hcounts⟩ := counts haccounts htaken he
    rw [KeyCache.getId_of_some hk, ← haccount.counts, hsent, hcounts]
    rfl

lemma Tracks.pushes {opened : W.Aggregator → Option ℕ} (hA : W.AlignsTime) (hS : W.SumsCounts opened)
    (hC : W.CombinesCounts) {opt : StorageOptions} (hlast : opt.keyCache.aggregateLastPoint = true)
    (hmerge : opt.disableMerge = false) {limits n : ℕ} {l : List (ℤ × PushRequest)} (hts : ∀ m ∈ l, m.2.ts ≠ 0)
    {s : Storage W} {T : CountTable} (h : Tracks opened opt limits (l.length + n) s T) :
    Tracks opened opt limits n (l.foldl (fun s m => (AgDomain.push_ s m.1 allOk m.2).2) s)
      ((l.map Prod.snd).foldl CountTable.push T) := by
  induction l generalizing s T with
  | nil => rwa [List.length_nil, Nat.zero_add] at h
  | cons m rest ih =>
    rw [List.length_cons, Nat.add_right_comm] at h
    have hnext := (h.add hA hS hC hlast hmerge m.1 m.2.name (hts m List.mem_cons_self)).2
    exact ih (fun m' hm' => hts m' (List.mem_cons_of_mem m hm')) hnext

end Storage

/-! ### Runs -/

namespace Pipeline

variable {H : AggregatorHashmap} {V : ℕ → Wrtstat}

def start (targets : List Bool) (m : H.State) (storages : ∀ i, Storage (V i)) : Pipeline H V where
  sender := { targets := targets, aggregators := m }
  mail _ := []
  receiver := storages

/-- What the clients push in a run. -/
def pushes (steps : List Step) : List PushRequest := (steps.filterMap MailStep.input?).flatMap RtCall.pushes

/-- In whatever order the targets handle their pushes: at any time, what a target that is there
has stored under a name, and what is still on its way to it, are the counts of the data that
were accepted and whose period is over, each in its period. Nothing is lost or counted twice. -/
theorem finished_counts_arrive {opened : W.Aggregator → Option ℕ} (hA : W.AlignsTime) (hS : W.SumsCounts opened)
    {find : H.State → Name → Option W.Aggregator} (hH : KeepsAggregators H W find)
    {opened' : ∀ i, (V i).Aggregator → Option ℕ} (hA' : ∀ i, (V i).AlignsTime) (hS' : ∀ i, (V i).SumsCounts (opened' i))
    (hC' : ∀ i, (V i).CombinesCounts) (opt : ℕ → StorageOptions)
    (hlast : ∀ i, (opt i).keyCache.aggregateLastPoint = true) (hmerge : ∀ i, (opt i).disableMerge = false)
    (clock : ℤ) (hashSize resultLimit : ℕ) (targets : List Bool) {m : H.State} (hm : ∀ name, find m name = none)
    (steps : List Step) (hids : steps.length < badKey) (horder : InOrder W (pushes steps))
    (hts : ∀ r ∈ pushes steps, W.getTs r.ts ≠ 0) :
    let p := steps.foldl step (start targets m fun i => Storage.fresh (V i) (opt i) clock hashSize resultLimit)
    ∀ i, targets[i]? = some true → ∀ name t,
      let closed := (finished W (dataOf name (accepted H m (pushes steps)))).map (periodStart W)
      (((p.receiver i).countOf name t).getD 0 + (recorded (V i) (dataOf name (p.mail i)) t).getD 0 =
          (recorded (V i) closed t).getD 0) ∧
        (p.mail i = [] → (p.receiver i).countOf name t = recorded (V i) closed t) := by
  intro p i hi name t closed
  have hrelays : RelaysAll find opened _ _ _ := RelaysAll.run hA hS hH hm horder
  have hhanded : recorded (V i) (dataOf name (handed H m (pushes steps))) t = recorded (V i) closed t := by
    cases hk : find ((pushes steps).foldl (afterPush H) m) name with
    | some ag => exact (hrelays.known name ag hk).sums (V i) t
    | none =>
      obtain ⟨hacc, hout⟩ := hrelays.unknown name hk
      simp only [closed, hacc, hout]
      rfl
  have hnonzero : ∀ r ∈ handed H m (pushes steps), r.ts ≠ 0 := by
    intro r hr
    have hdata : r.toAggregatedData ∈ dataOf r.name (handed H m (pushes steps)) :=
      List.mem_map_of_mem (List.mem_filter.mpr ⟨hr, decide_eq_true rfl⟩)
    cases hk : find ((pushes steps).foldl (afterPush H) m) r.name with
    | some ag =>
      obtain ⟨d, hd, hr⟩ := (hrelays.known r.name ag hk).times _ hdata
      obtain ⟨r', hr', -, rfl⟩ := mem_dataOf hd
      rw [hr]
      exact hts r' ((accepted_sublist m _).subset hr')
    | none =>
      rw [(hrelays.unknown r.name hk).2] at hdata
      exact absurd hdata List.not_mem_nil
  -- what was delivered and what is on its way are what was handed on
  let first : Pipeline H V := start targets m fun i => Storage.fresh (V i) (opt i) clock hashSize resultLimit
  let handle := fun i (s : Storage (V i)) clock req => (AgDomain.push_ s clock allOk req).2
  let delivered := Mailboxes.deliveries RtDomain.call handle i first steps
  have hperm : (delivered.map Prod.snd ++ p.mail i).Perm (handed H m (pushes steps)) := by
    have hmail := Mailboxes.run_mail_perm RtDomain.call handle first steps i
    rw [RtDomain.mailTo_sentFor first.sender _ hi] at hmail
    exact hmail
  have hcount : (p.receiver i).countOf name t = recorded (V i) (dataOf name (delivered.map Prod.snd)) t := by
    have hreceiver : p.receiver i = delivered.foldl (fun s d => handle i s d.1 d.2) (first.receiver i) :=
      Mailboxes.run_receiver RtDomain.call handle first steps i
    have hlength : delivered.length + 0 < badKey := (Mailboxes.deliveries_length_le RtDomain.call handle first steps i).trans_lt hids
    have htracks := (Storage.Tracks.fresh (V i) (opened' i) (opt i) clock hashSize resultLimit hlength).pushes (hA' i)
      (hS' i) (hC' i) (hlast i) (hmerge i) fun d hd =>
        hnonzero d.2 (hperm.subset (List.mem_append_left _ (List.mem_map_of_mem hd)))
    rw [hreceiver]
    exact (htracks.countOf name t).trans (congrArg (recorded (V i) · t) (CountTable.getD_foldl_push _ name))
  have htotal : recorded (V i) (dataOf name (delivered.map Prod.snd) ++ dataOf name (p.mail i)) t =
      recorded (V i) closed t := by
    rw [← hhanded, ← dataOf_append]
    exact recorded_perm ((hperm.filter _).map _) t
  constructor
  · rw [hcount, ← recorded_append_getD, htotal]
  · intro hempty
    rw [hcount, ← htotal, hempty]
    exact congrArg (recorded (V i) · t) (List.append_nil _).symm

/-- Two targets, the second of which has handled one of its two pushes, and that out of order.
The third name is refused, and the last second is not over. -/
theorem finished_counts_arrive_out_of_order :
    let W := Wrtstat.reference 1 false
    let H := AggregatorHashmap.limited W 2
    let V := fun _ : ℕ => Wrtstat.reference 10 false
    let opt := fun _ : ℕ => ({ keyCache := { aggregateLastPoint := true, resolution := 1 } } : StorageOptions)
    let steps : List Step := [.input (.multiAdd { data := [{ ts := 3, count := 1, name := [97] },
        { ts := 7, count := 2, name := [98] }, { ts := 8, count := 4, name := [99] }] }),
      .input (.add { ts := 9, count := 8, name := [97] }), .input (.push { ts := 12, count := 16, name := [97] }),
      .deliver 0 0 20, .deliver 1 1 20, .deliver 0 0 21]
    let p : Pipeline H V := steps.foldl step
      (start [true, true] OrderedMap.empty fun i => Storage.fresh (V i) (opt i) 0 4 10)
    ((p.receiver 0).countOf [97] 0 = some 9 ∧ (p.receiver 1).countOf [97] 0 = some 8 ∧ (p.mail 1).map (·.count) = [1]) ∧
      ∀ i, [true, true][i]? = some true → ∀ name t,
        let closed := (finished W (dataOf name (accepted H OrderedMap.empty (pushes steps)))).map (periodStart W)
        (((p.receiver i).countOf name t).getD 0 + (recorded (V i) (dataOf name (p.mail i)) t).getD 0 =
            (recorded (V i) closed t).getD 0) ∧
          (p.mail i = [] → (p.receiver i).countOf name t = recorded (V i) closed t) := by
  intro W H V opt steps p
  have hvalues : (p.receiver 0).countOf [97] 0 = some 9 ∧ (p.receiver 1).countOf [97] 0 = some 8 ∧
      (p.mail 1).map (·.count) = [1] := by
    decide +kernel
  have horder : InOrder W (pushes steps) := by decide +kernel
  have hts : ∀ r ∈ pushes steps, W.getTs r.ts ≠ 0 := by decide +kernel
  have hids : steps.length < badKey := by decide
  have hA : W.AlignsTime := Wrtstat.reference_alignsTime (by omega) false
  have hA' : ∀ i, (V i).AlignsTime := fun _ => Wrtstat.reference_alignsTime (by omega) false
  obtain ⟨opened, hS⟩ : ∃ opened, W.SumsCounts opened := ⟨_, Wrtstat.reference_sumsCounts 1 false⟩
  obtain ⟨opened', hS'⟩ : ∃ opened : ∀ i, (V i).Aggregator → Option ℕ, ∀ i, (V i).SumsCounts (opened i) :=
    ⟨_, fun _ => Wrtstat.reference_sumsCounts 10 false⟩
  have hC' : ∀ i, (V i).CombinesCounts := fun _ => Wrtstat.reference_combinesCounts 10 false
  refine ⟨hvalues, ?_⟩
  clear_value steps V W
  exact finished_counts_arrive hA hS (AggregatorHashmap.limited_keepsAggregators W 2) hA' hS' hC' opt (fun _ => rfl)
    (fun _ => rfl) 0 4 10 [true, true] (fun _ => rfl) steps hids horder hts

end Pipeline

end WfcBtp
