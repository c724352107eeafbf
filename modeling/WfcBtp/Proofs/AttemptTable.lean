import Mathlib.Algebra.Order.BigOperators.Group.List
import Mathlib.Data.Finset.Card
import WfcBtp.Library.Simulation
import WfcBtp.Proofs.CallsReturn
import WfcBtp.Proofs.Frames
import WfcBtp.Proofs.Ledger

/-!
# Adds that may fail

A client whose add returned false does not know what was stored of it. It may rely on this:
data of adds that returned true stay, no data are counted twice, and no count goes down.
-/

namespace WfcBtp
open Library

variable {W : Wrtstat}

/-! ### Counts that are there or not -/

section OptionOrder

variable {α : Type}

lemma option_le_refl [Preorder α] (a : Option α) : a ≤ a := by
  cases a with
  | none => exact Option.none_le
  | some a => exact Option.some_le_some.mpr le_rfl

lemma option_le_trans [Preorder α] {a b c : Option α} (hab : a ≤ b) (hbc : b ≤ c) : a ≤ c := by
  cases a with
  | none => exact Option.none_le
  | some a =>
    cases b with
    | none => exact absurd hab Option.not_some_le_none
    | some b =>
      cases c with
      | none => exact absurd hbc Option.not_some_le_none
      | some c => exact Option.some_le_some.mpr ((Option.some_le_some.mp hab).trans (Option.some_le_some.mp hbc))

lemma option_le_antisymm [PartialOrder α] {a b : Option α} (hab : a ≤ b) (hba : b ≤ a) : a = b := by
  cases a with
  | none => exact (Option.le_none.mp hba).symm
  | some a =>
    cases b with
    | none => exact absurd hab Option.not_some_le_none
    | some b => exact congrArg some (le_antisymm (Option.some_le_some.mp hab) (Option.some_le_some.mp hba))

end OptionOrder

lemma le_some_getD_add (a : Option ℕ) (n : ℕ) : a ≤ some (a.getD 0 + n) := by
  cases a with
  | none => exact Option.none_le
  | some a => exact Option.some_le_some.mpr (Nat.le_add_right a n)

lemma some_getD_add_le {a b : Option ℕ} (h : a ≤ b) (n : ℕ) : some (a.getD 0 + n) ≤ some (b.getD 0 + n) := by
  apply Option.some_le_some.mpr
  cases a with
  | none => simp
  | some a =>
    cases b with
    | none => exact absurd h Option.not_some_le_none
    | some b => exact Nat.add_le_add_right (Option.some_le_some.mp h) n

lemma recorded_le_of_sublist {l l' : List AggregatedData} (h : l.Sublist l') (t : ℤ) :
    recorded W l t ≤ recorded W l' t := by
  have hcounts : ((l.filter fun d => W.getTs d.ts = t).map (·.count)).Sublist
      ((l'.filter fun d => W.getTs d.ts = t).map (·.count)) := (h.filter _).map _
  unfold recorded
  dsimp only
  split_ifs with hempty hempty' hempty'
  · exact option_le_refl _
  · exact Option.none_le
  · rw [List.isEmpty_iff.mp hempty', List.sublist_nil] at hcounts
    exact absurd (List.isEmpty_iff.mpr hcounts) hempty
  · exact Option.some_le_some.mpr (hcounts.sum_le_sum fun _ _ => Nat.zero_le _)

/-! ### The table -/

/-- What was added to a name, with whether the add returned true, and the counts that are stored. -/
structure AttemptEntry where
  attempts : List (AggregatedData × Bool) := []
  counts : ℤ → Option ℕ := fun _ => none

namespace AttemptEntry

def sent (e : AttemptEntry) : List AggregatedData := e.attempts.map Prod.fst

def taken (e : AttemptEntry) : List AggregatedData := (e.attempts.filter Prod.snd).map Prod.fst

/-- The counts are at least the sums of what was taken, and at most those of what was sent. -/
structure Bounded (W : Wrtstat) (e : AttemptEntry) : Prop where
  taken_le : ∀ t, recorded W e.taken t ≤ e.counts t
  le_sent : ∀ t, e.counts t ≤ recorded W e.sent t

variable {e : AttemptEntry}

lemma taken_sublist (e : AttemptEntry) : e.taken.Sublist e.sent := List.filter_sublist.map _

/-- If every add returned true, the counts are exactly the sums. -/
lemma Bounded.eq_sent (h : e.Bounded W) (htaken : ∀ a ∈ e.attempts, a.2 = true) : e.counts = recorded W e.sent := by
  have hall : e.taken = e.sent := by
    unfold taken sent
    rw [List.filter_eq_self.mpr htaken]
  funext t
  apply option_le_antisymm (h.le_sent t)
  rw [← hall]
  exact h.taken_le t

end AttemptEntry

/-- The table knows names until they are deleted or forgotten. -/
abbrev AttemptTable := Name → Option AttemptEntry

inductive TableAnswer
  | returned (status : Status)
  | counts (result : Except StorageError (List ℕ))
  | forgot (n : ℕ)
  deriving DecidableEq

namespace AttemptTable

/-- A name that is new has no entry yet. -/
def entry (T : AttemptTable) (name : Name) : AttemptEntry := (T name).getD {}

/-- The counts from a time on, in the order of their times. -/
structure Rows (counts : ℤ → Option ℕ) (ts : ℤ) (rows : List (ℤ × ℕ)) : Prop where
  ascending : rows.Pairwise fun a b => a.1 < b.1
  mem_iff : ∀ t n, (t, n) ∈ rows ↔ ts ≤ t ∧ counts t = some n

/-- What the table answers and becomes. -/
inductive Step (W : Wrtstat) (opt : StorageOptions) (resultLimit : ℕ) :
    AttemptTable → ClientCall → TableAnswer → AttemptTable → Prop
  | add {T : AttemptTable} {clock : ℤ} {ok : Outcomes} {name : Name} {data : AggregatedData} {status : Status}
    {e : AttemptEntry} (attempts : e.attempts = (T.entry name).attempts ++ [(data, status.isOk)])
    (grows : ∀ t, (T.entry name).counts t ≤ e.counts t) (bounded : e.Bounded W) :
    Step W opt resultLimit T (.add clock ok name data) (.returned status) (Function.update T name (some e))
  | del {T : AttemptTable} {ok : Outcomes} {name : Name} {status : Status} (known : (T name).isSome) :
    Step W opt resultLimit T (.del ok name) (.returned status) (Function.update T name none)
  | delUnknown {T : AttemptTable} {ok : Outcomes} {name : Name} (unknown : T name = none) :
    Step W opt resultLimit T (.del ok name) (.returned (.error .badKey)) T
  | get {T : AttemptTable} {clock : ℤ} {name : Name} {ts : ℤ} {offset limit : ℕ} {e : AttemptEntry}
    {rows : List (ℤ × ℕ)} (known : T name = some e)
    (rows_of : Rows e.counts (if ts = 0 then (clock - opt.dataTtl) * opt.keyCache.resolution else ts) rows) :
    Step W opt resultLimit T (.get clock name ts offset limit)
      (.counts (.ok (((rows.drop offset).take (DataStorage.window limit resultLimit)).map Prod.snd))) T
  | getUnknown {T : AttemptTable} {clock : ℤ} {name : Name} {ts : ℤ} {offset limit : ℕ} (unknown : T name = none) :
    Step W opt resultLimit T (.get clock name ts offset limit) (.counts (.error .badKey)) T
  | gc {T : AttemptTable} {clock : ℤ} (forgotten : Finset Name) (known : ∀ name ∈ forgotten, (T name).isSome) :
    Step W opt resultLimit T (.gc clock) (.forgot forgotten.card) fun name =>
      if name ∈ forgotten then none else T name

end AttemptTable

/-! ### The points of an add that is on time -/

namespace Ledger

variable {opened : W.Aggregator → Option ℕ} {ka : KeyAggregator W} {counts : ℤ → Option ℕ}
  {l : List AggregatedData} {d : AggregatedData}

/-- With `aggregate_last_point`, the sums themselves are on the ledger. -/
lemma sums (h : Ledger opened ka counts l) (hlast : ka.aggregateLastPoint = true) : Ledger opened ka (recorded W l) l where
  aligned := h.aligned
  open_sum := h.open_sum
  later := h.later
  stored _ _ := rfl
  stored_open := (if_pos hlast).symm

lemma sums_add (hA : W.AlignsTime) (hS : W.SumsCounts opened) (hC : W.CombinesCounts)
    (h : Ledger opened ka (recorded W l) l) (hlast : ka.aggregateLastPoint = true) (hts : d.ts ≠ 0) :
    Ledger opened (ka.add d []).1 (recorded W (l ++ [d])) (l ++ [d]) := by
  have hadd := @Ledger.add _ _ _ _ _ _ hA hS hC h false hts fun _ => rfl
  exact hadd.sums ((KeyAggregator.add_aggregateLastPoint ka d []).trans hlast)

/-- Each of its points has the sum of a period, and one of them that of the period of the data. -/
lemma on_time_points (hA : W.AlignsTime) (hS : W.SumsCounts opened) (h : Ledger opened ka counts l)
    (hlast : ka.aggregateLastPoint = true) (hts : d.ts ≠ 0) (hon : ¬ka.isLate d.ts) :
    (∀ p ∈ (ka.add d []).2.1, recorded W (l ++ [d]) p.ts = some p.count) ∧
      ∃ p ∈ (ka.add d []).2.1, p.ts = W.getTs d.ts := by
  obtain ⟨htime, hopen, -⟩ := h.push hA hS hts hon
  have hfts : (KeyAggregator.fillData d).ts = d.ts :=
    congrArg ReducedInfo.ts (KeyAggregator.fillData_toReducedInfo d)
  have hcurrent := (hS.aggregateCurrent (W.push ka.aggregator (KeyAggregator.fillData d)).2).1
  rw [htime, hopen] at hcurrent
  rw [KeyAggregator.add_of_not_late hon]
  simp only [KeyAggregator.currentPoints, hlast, if_true, List.nil_append, List.mem_append, List.mem_map]
  constructor
  · rintro p ⟨ag, hag | hag, rfl⟩
    · -- the finished period
      rcases (h.current_le hA hts hon).eq_or_lt with hcur | hcur
      · rw [(hS.push_current ka.aggregator _ (by rw [hfts, hcur])).1] at hag
        exact absurd hag List.not_mem_nil
      · obtain ⟨⟨rep, hrep, hlist⟩, -⟩ := hS.push_later ka.aggregator (KeyAggregator.fillData d) (by rwa [hfts])
        rw [hlist, Option.mem_toList] at hag
        rw [hag] at hrep
        obtain ⟨hcount, hagts⟩ := hrep
        change recorded W (l ++ [d]) ag.ts = some ag.count
        rw [hagts, recorded_snoc, if_neg hcur.ne', ← h.open_sum, hcount]
    · rw [Option.mem_toList] at hag
      rw [hag] at hcurrent
      obtain ⟨hcount, hagts⟩ := hcurrent
      change recorded W (l ++ [d]) ag.ts = some ag.count
      rw [hagts, hcount]
  · cases hag : (W.aggregateCurrent (W.push ka.aggregator (KeyAggregator.fillData d)).2).1 with
    | none =>
      rw [hag] at hcurrent
      have hnone : recorded W (l ++ [d]) (W.getTs d.ts) = none := hcurrent
      rw [recorded_snoc, if_pos rfl] at hnone
      cases hnone
    | some ag =>
      rw [hag] at hcurrent
      exact ⟨ag.toPoint, ⟨ag, .inr (Option.mem_toList.mpr rfl), rfl⟩, hcurrent.2⟩

end Ledger

/-! ### What an add writes when writes may fail -/

lemma Status.isOk_iff (status : Status) : status.isOk = true ↔ status = .ok () := by
  cases status with
  | ok u => exact iff_of_true rfl rfl
  | error e => exact iff_of_false Bool.false_ne_true nofun

/-- From the first points of an id to the second: some are set, all of them if the add returned true;
or one is added to, or none if it returned false. -/
structure Written (W : Wrtstat) (isLast : Bool) (upData : List AggregatedInfo) (taken : Bool) (pts pts' : Points) :
    Prop where
  set : isLast = true → ∀ t, pts' t = pts t ∨ ∃ p ∈ upData, p.ts = t ∧ pts' t = some p
  set_taken : isLast = true → taken = true → ∀ p ∈ upData, ∃ q ∈ upData, q.ts = p.ts ∧ pts' p.ts = some q
  inc : isLast = false → ∀ p, upData = [p] → pts' = if taken then incPoint W pts p else pts

namespace Storage

lemma point?_setAll_cases (ok : Outcomes) (id : KeyId) (ds : List AggregatedInfo) (i : ℕ) (s : DataStorage) (t : ℤ) :
    (setAll ok id ds i s).2.point? id t = s.point? id t ∨
      ∃ p ∈ ds, p.ts = t ∧ (setAll ok id ds i s).2.point? id t = some p := by
  induction ds generalizing i s with
  | nil => exact .inl rfl
  | cons d rest ih =>
    rw [setAll]
    cases ok i with
    | false =>
      rw [DataStorage.set_false]
      exact .inl rfl
    | true =>
      rcases ih (i + 1) (s.set true id d).2 with h | ⟨p, hp, hts, h⟩
      · rw [DataStorage.point?_set] at h
        split_ifs at h with ht
        · exact .inr ⟨d, List.mem_cons_self, ht.2.symm, h⟩
        · exact .inl h
      · exact .inr ⟨p, List.mem_cons_of_mem d hp, hts, h⟩

lemma point?_setAll_of_mem {ok : Outcomes} {id : KeyId} {ds : List AggregatedInfo} {i : ℕ} {s : DataStorage}
    (h : (setAll ok id ds i s).1 = .ok ()) {p : AggregatedInfo} (hp : p ∈ ds) :
    ∃ q ∈ ds, q.ts = p.ts ∧ (setAll ok id ds i s).2.point? id p.ts = some q := by
  induction ds generalizing i s with
  | nil => exact absurd hp List.not_mem_nil
  | cons d rest ih =>
    rw [setAll] at h ⊢
    cases hok : ok i with
    | false =>
      rw [hok, DataStorage.set_false] at h
      cases h
    | true =>
      rw [hok] at h
      rcases List.mem_cons.mp hp with rfl | hp
      · -- the first point stays, unless one of its time comes after it
        rcases point?_setAll_cases ok id rest (i + 1) (s.set true id p).2 p.ts with hsame | ⟨q, hq, hts, hset⟩
        · refine ⟨p, List.mem_cons_self, rfl, hsame.trans ?_⟩
          rw [DataStorage.point?_set, if_pos ⟨rfl, rfl⟩]
        · exact ⟨q, List.mem_cons_of_mem p hq, hts, hset⟩
      · obtain ⟨q, hq, hts, hset⟩ := ih h hp
        exact ⟨q, List.mem_cons_of_mem d hq, hts, hset⟩

lemma add_written {s : Storage W} {name : Name} (hid : s.keyId name ≠ badKey) (hmerge : s.disableMerge = false)
    (clock : ℤ) (ok : Outcomes) (data : AggregatedData) :
    Written W (s.addKey name data).2.2 (s.addKey name data).2.1 (s.add clock ok name data).1.isOk
      (s.dataStorage.point? (s.keyId name)) ((s.add clock ok name data).2.dataStorage.point? (s.keyId name)) := by
  unfold add
  rw [add_result]
  simp only [hid, if_false]
  cases hlast : (s.addKey name data).2.2 with
  | false =>
    simp only [hmerge, Bool.false_eq_true, if_false]
    refine ⟨fun h => absurd h Bool.false_ne_true, fun h => absurd h Bool.false_ne_true, fun _ p hp => ?_⟩
    rw [hp, incAll]
    cases ok 0 with
    | false =>
      rw [DataStorage.inc_false]
      rfl
    | true => exact (DataStorage.point?_inc_points _ _ _ _).trans (if_pos rfl)
  | true =>
    rw [if_pos rfl, storeKeyAndData]
    cases ok 0 with
    | false => exact ⟨fun _ t => .inl rfl, fun _ h => absurd h Bool.false_ne_true, fun h => absurd h.symm Bool.false_ne_true⟩
    | true =>
      refine ⟨fun _ => point?_setAll_cases _ _ _ _ _, fun _ htaken p hp => point?_setAll_of_mem ?_ hp,
        fun h => absurd h.symm Bool.false_ne_true⟩
      exact (Status.isOk_iff _).mp htaken

end Storage

/-! ### The account of one key -/

/-- A key and the points of its id know the sums of what was sent, and store counts between the
sums of what was taken and those of what was sent. -/
structure KeyAccount (opened : W.Aggregator → Option ℕ) (ka : KeyAggregator W) (pts : Points) (e : AttemptEntry) :
    Prop where
  last : ka.aggregateLastPoint = true
  ledger : Ledger opened ka (recorded W e.sent) e.sent
  counts : e.counts = countAt? pts
  bounded : e.Bounded W

namespace AttemptEntry

/-- The entry after one more attempt, with these points stored. -/
def attempt (e : AttemptEntry) (data : AggregatedData) (taken : Bool) (pts : Points) : AttemptEntry where
  attempts := e.attempts ++ [(data, taken)]
  counts := countAt? pts

variable {e : AttemptEntry} {d : AggregatedData} {b : Bool} {pts : Points}

@[simp] lemma attempt_sent : (e.attempt d b pts).sent = e.sent ++ [d] := by
  simp [sent, attempt]

lemma attempt_taken : (e.attempt d b pts).taken = if b then e.taken ++ [d] else e.taken := by
  cases b <;> simp [taken, attempt]

/-- It is enough to look at what the data change. -/
lemma Bounded.attempt (h : e.Bounded W) (hgrows : ∀ t, e.counts t ≤ countAt? pts t)
    (hsent : ∀ t, countAt? pts t ≤ recorded W (e.sent ++ [d]) t)
    (htaken : b = true → recorded W (e.taken ++ [d]) (W.getTs d.ts) ≤ countAt? pts (W.getTs d.ts)) :
    (e.attempt d b pts).Bounded W where
  taken_le t := by
    have hbefore := option_le_trans (h.taken_le t) (hgrows t)
    rw [attempt_taken]
    split_ifs with hb
    · by_cases ht : t = W.getTs d.ts
      · rw [ht]
        exact htaken hb
      · rw [recorded_snoc, if_neg (Ne.symm ht)]
        exact hbefore
    · exact hbefore
  le_sent t := by
    rw [attempt_sent]
    exact hsent t

end AttemptEntry

namespace KeyAccount

variable {opened : W.Aggregator → Option ℕ} {ka : KeyAggregator W} {pts pts' : Points} {e : AttemptEntry}
  {d : AggregatedData} {b : Bool}

lemma of_create (hA : W.AlignsTime) (hS : W.SumsCounts opened) (m : ℕ) (id : KeyId) (ts : ℤ)
    {opt : KeyCacheOptions} (hlast : opt.aggregateLastPoint = true) (hpts : ∀ t, pts t = none) :
    KeyAccount opened (KeyAggregator.create m id ts opt) pts {} where
  last := hlast
  ledger := Ledger.of_create hA hS m id ts opt fun _ => rfl
  counts := by
    funext t
    rw [countAt?, hpts]
    rfl
  bounded := ⟨fun _ => Option.none_le, fun _ => Option.none_le⟩

/-- Late data are added to what is stored, or nothing is. -/
lemma add_late (hC : W.CombinesCounts) (h : KeyAccount opened ka pts e) (hlate : ka.isLate d.ts)
    (hw : Written W (ka.add d []).2.2 (ka.add d []).2.1 b pts pts') :
    (∀ t, e.counts t ≤ countAt? pts' t) ∧ (e.attempt d b pts').Bounded W := by
  rw [KeyAggregator.add_of_late hlate] at hw
  have hpts' := hw.inc rfl (KeyAggregator.latePoint W d) rfl
  have hcounts : ∀ t, countAt? pts' t =
      if b = true ∧ t = W.getTs d.ts then some ((e.counts t).getD 0 + d.count) else e.counts t := by
    intro t
    rw [hpts', h.counts]
    cases b with
    | false => simp
    | true =>
      rw [if_pos rfl, countAt?_incPoint hC]
      simp [applyCount, toWrite, KeyAggregator.latePoint_ts hC, KeyAggregator.latePoint_count hC]
  have hgrows : ∀ t, e.counts t ≤ countAt? pts' t := by
    intro t
    rw [hcounts]
    split_ifs
    · exact le_some_getD_add _ _
    · exact option_le_refl _
  refine ⟨hgrows, h.bounded.attempt hgrows (fun t => ?_) fun hb => ?_⟩
  · rw [hcounts]
    split_ifs with ht
    · rw [recorded_snoc, if_pos ht.2.symm]
      exact some_getD_add_le (h.bounded.le_sent t) _
    · exact option_le_trans (h.bounded.le_sent t) (recorded_le_of_sublist (List.sublist_append_left _ _) t)
  · rw [hcounts, if_pos ⟨hb, rfl⟩, recorded_snoc, if_pos rfl]
    exact some_getD_add_le (h.bounded.taken_le _) _

/-- Points of an add on time hold the sums of what was sent. -/
lemma add_on_time (hA : W.AlignsTime) (hS : W.SumsCounts opened) (h : KeyAccount opened ka pts e) (hts : d.ts ≠ 0)
    (hon : ¬ka.isLate d.ts) (hw : Written W (ka.add d []).2.2 (ka.add d []).2.1 b pts pts') :
    (∀ t, e.counts t ≤ countAt? pts' t) ∧ (e.attempt d b pts').Bounded W := by
  have hlast : (ka.add d []).2.2 = true := by rw [KeyAggregator.add_of_not_late hon]
  obtain ⟨hsums, p, hp, hpts⟩ := h.ledger.on_time_points hA hS h.last hts hon
  have hsent : ∀ t, e.counts t ≤ recorded W (e.sent ++ [d]) t := fun t =>
    option_le_trans (h.bounded.le_sent t) (recorded_le_of_sublist (List.sublist_append_left _ _) t)
  have hset : ∀ {t : ℤ} {q : AggregatedInfo}, q ∈ (ka.add d []).2.1 → q.ts = t → pts' t = some q →
      countAt? pts' t = recorded W (e.sent ++ [d]) t := by
    rintro t q hq rfl hpoint
    rw [countAt?, hpoint, hsums q hq]
    rfl
  have hcases : ∀ t, countAt? pts' t = e.counts t ∨ countAt? pts' t = recorded W (e.sent ++ [d]) t := by
    intro t
    rcases hw.set hlast t with hsame | ⟨q, hq, hqts, hpoint⟩
    · left
      rw [h.counts, countAt?, hsame]
      rfl
    · exact .inr (hset hq hqts hpoint)
  have hgrows : ∀ t, e.counts t ≤ countAt? pts' t := by
    intro t
    rcases hcases t with hsame | hsum
    · rw [hsame]
      exact option_le_refl _
    · rw [hsum]
      exact hsent t
  refine ⟨hgrows, h.bounded.attempt hgrows (fun t => ?_) fun hb => ?_⟩
  · rcases hcases t with hsame | hsum
    · rw [hsame]
      exact hsent t
    · rw [hsum]
      exact option_le_refl _
  · -- the point of the current period was set
    obtain ⟨q, hq, hqts, hpoint⟩ := hw.set_taken hlast hb p hp
    rw [hpts] at hqts hpoint
    rw [hset hq hqts hpoint]
    exact recorded_le_of_sublist (e.taken_sublist.append_right [d]) _

lemma add (hA : W.AlignsTime) (hS : W.SumsCounts opened) (hC : W.CombinesCounts) (h : KeyAccount opened ka pts e)
    (hts : d.ts ≠ 0) (hw : Written W (ka.add d []).2.2 (ka.add d []).2.1 b pts pts') :
    (∀ t, e.counts t ≤ countAt? pts' t) ∧ KeyAccount opened (ka.add d []).1 pts' (e.attempt d b pts') := by
  have hbounded : (∀ t, e.counts t ≤ countAt? pts' t) ∧ (e.attempt d b pts').Bounded W := by
    by_cases hlate : ka.isLate d.ts
    · exact h.add_late hC hlate hw
    · exact h.add_on_time hA hS hts hlate hw
  refine ⟨hbounded.1, (KeyAggregator.add_aggregateLastPoint ka d []).trans h.last, ?_, rfl, hbounded.2⟩
  rw [AttemptEntry.attempt_sent]
  exact h.ledger.sums_add hA hS hC h.last hts

end KeyAccount

/-! ### The storage -/

def ClientAnswer.counted : ClientAnswer → TableAnswer
  | .returned status => .returned status
  | .points result => .counts (result.map fun points => points.map (·.count))
  | .evicted n => .forgot n

namespace DataStorage

/-- The counts of the points that a read goes through. -/
def countRows (s : DataStorage) (id : KeyId) (ts : ℤ) : List (ℤ × ℕ) :=
  (s.points id ts).map fun e => (e.1, e.2.count)

lemma countRows_rows (s : DataStorage) (id : KeyId) (ts : ℤ) :
    AttemptTable.Rows (countAt? (s.point? id)) ts (s.countRows id ts) where
  ascending := by
    rw [countRows, List.pairwise_map]
    exact s.points_ascending id ts
  mem_iff t c := by
    rw [countAt?, Option.map_eq_some_iff, countRows, List.mem_map]
    constructor
    · rintro ⟨⟨u, p⟩, hmem, heq⟩
      obtain ⟨rfl, rfl⟩ := Prod.mk.inj heq
      obtain ⟨hle, hp⟩ := (s.mem_points_iff _ _ _ _).mp hmem
      exact ⟨hle, p, hp, rfl⟩
    · rintro ⟨hle, p, hp, rfl⟩
      exact ⟨(t, p), (s.mem_points_iff _ _ _ _).mpr ⟨hle, hp⟩, rfl⟩

lemma get_counts (s : DataStorage) (id : KeyId) (ts : ℤ) (offset limit : ℕ) :
    (s.get id ts offset limit).map (·.count) =
      (((s.countRows id ts).drop offset).take (window limit (s.getDb id).resultLimit)).map Prod.snd := by
  rw [(get_eq s id ts offset limit).1, countRows, ← List.map_drop, ← List.map_take, List.map_map, List.map_map]
  rfl

end DataStorage

namespace Storage

/-- What the storage answers, as far as counts go. -/
def countAnswer (s : Storage W) (c : ClientCall) : TableAnswer × Storage W := ((s.reply c).1.counted, (s.reply c).2)

/-- The cached names are those of the table, and every one has its account. -/
structure Accounts (opened : W.Aggregator → Option ℕ) (opt : StorageOptions) (resultLimit n : ℕ) (s : Storage W)
    (T : AttemptTable) : Prop extends Separate n s where
  options : s.keyCache.options = opt.keyCache
  disableMerge : s.disableMerge = opt.disableMerge
  times : s.ttl = opt.dataTtl ∧ s.resolution = opt.keyCache.resolution
  resultLimit : ∀ id, (s.dataStorage.getDb id).resultLimit = resultLimit
  unknown : ∀ name, s.keyCache.keyMap.find? name = none → T name = none
  known : ∀ name ka, s.keyCache.keyMap.find? name = some ka →
    ∃ e, T name = some e ∧ KeyAccount opened ka (s.dataStorage.point? ka.getId) e

namespace Accounts

variable {opened : W.Aggregator → Option ℕ} {opt : StorageOptions} {limits n : ℕ} {s s₁ : Storage W}
  {T T₁ : AttemptTable}

lemma fresh (W : Wrtstat) (opened : W.Aggregator → Option ℕ) (opt : StorageOptions) (clock : ℤ)
    (hashSize resultLimit : ℕ) {n : ℕ} (hn : n < badKey) :
    Accounts opened opt resultLimit n (Storage.fresh W opt clock hashSize resultLimit) fun _ => none where
  toSeparate := Separate.fresh W opt clock hashSize resultLimit hn
  options := fresh_options _ _ _ _
  disableMerge := rfl
  times := ⟨rfl, rfl⟩
  resultLimit _ := rfl
  unknown _ _ := rfl
  known name ka h := absurd h (by simp)

lemma isSome_iff (h : Accounts opened opt limits n s T) (name : Name) :
    (T name).isSome ↔ (s.keyCache.keyMap.find? name).isSome := by
  cases hk : s.keyCache.keyMap.find? name with
  | none =>
    rw [h.unknown name hk]
    exact Iff.rfl
  | some ka =>
    obtain ⟨e, he, -⟩ := h.known name ka hk
    rw [he]
    exact iff_of_true rfl rfl

/-- The key that an add works on has the account of its name. -/
lemma keyOrNew (hA : W.AlignsTime) (hS : W.SumsCounts opened) (hlast : opt.keyCache.aggregateLastPoint = true)
    (h : Accounts opened opt limits n s T) (name : Name) (ts : ℤ) :
    KeyAccount opened (s.keyCache.keyOrNew name ts) (s.dataStorage.point? (s.keyId name)) (T.entry name) := by
  unfold AttemptTable.entry
  cases hk : s.keyCache.keyMap.find? name with
  | some ka =>
    obtain ⟨e, he, haccount⟩ := h.known name ka hk
    rw [KeyCache.keyOrNew_of_some ts hk, keyId_of_some hk, he]
    exact haccount
  | none =>
    rw [KeyCache.keyOrNew_of_none ts hk, h.unknown name hk]
    exact KeyAccount.of_create hA hS _ _ _ (by rw [h.options]; exact hlast) (h.points_none hk)

/-- After a call on one name, the other names have their accounts. -/
lemma frame (h : Accounts opened opt limits (n + 1) s T) {name : Name} (hf : Frame name s s₁)
    (hothers : ∀ name', name' ≠ name → T₁ name' = T name')
    (hunknown : s₁.keyCache.keyMap.find? name = none → T₁ name = none)
    (hknown : ∀ ka, s₁.keyCache.keyMap.find? name = some ka →
      ∃ e, T₁ name = some e ∧ KeyAccount opened ka (s₁.dataStorage.point? ka.getId) e) :
    Accounts opened opt limits n s₁ T₁ where
  toSeparate := h.toSeparate.frame hf
  options := hf.options.trans h.options
  disableMerge := hf.disableMerge.trans h.disableMerge
  times := ⟨hf.times.1.trans h.times.1, hf.times.2.trans h.times.2⟩
  resultLimit id := by
    obtain ⟨writes, hwrites, -⟩ := hf.data
    rw [hwrites, DataStorage.foldl_write_resultLimit]
    exact h.resultLimit id
  unknown name' hk := by
    by_cases hname : name' = name
    · subst hname
      exact hunknown hk
    · rw [hothers name' hname]
      rw [hf.find name' hname] at hk
      exact h.unknown name' hk
  known name' ka hk := by
    by_cases hname : name' = name
    · subst hname
      exact hknown ka hk
    · rw [hf.find name' hname] at hk
      obtain ⟨e, he, haccount⟩ := h.known name' ka hk
      refine ⟨e, (hothers name' hname).trans he, ?_⟩
      rwa [hf.point? h.toSeparate hk hname]

lemma add (hA : W.AlignsTime) (hS : W.SumsCounts opened) (hC : W.CombinesCounts)
    (hlast : opt.keyCache.aggregateLastPoint = true) (hmerge : opt.disableMerge = false)
    (h : Accounts opened opt limits (n + 1) s T) (clock : ℤ) (ok : Outcomes) (name : Name) {data : AggregatedData}
    (hts : data.ts ≠ 0) :
    ∃ e : AttemptEntry, e.attempts = (T.entry name).attempts ++ [(data, (s.add clock ok name data).1.isOk)] ∧
      (∀ t, (T.entry name).counts t ≤ e.counts t) ∧ e.Bounded W ∧
      Accounts opened opt limits n (s.add clock ok name data).2 (Function.update T name (some e)) := by
  have hwritten := add_written (h.keyId_ne_badKey name) (h.disableMerge.trans hmerge) clock ok data
  obtain ⟨hgrows, haccount⟩ := (h.keyOrNew hA hS hlast name data.ts).add hA hS hC hts hwritten
  have hfind := add_find? s clock ok name data
  refine ⟨_, rfl, hgrows, haccount.bounded, ?_⟩
  apply h.frame (frame_add h.toSeparate clock ok name data)
  · intro name' hname
    rw [Function.update_of_ne hname]
  · intro hnone
    rw [hfind, if_pos rfl] at hnone
    cases hnone
  · intro ka hk
    rw [hfind, if_pos rfl] at hk
    cases hk
    refine ⟨_, Function.update_self _ _ _, ?_⟩
    rw [addKey_getId]
    exact haccount

lemma del (h : Accounts opened opt limits (n + 1) s T) (ok : Outcomes) (name : Name) :
    ∃ T', AttemptTable.Step W opt limits T (.del ok name) (.returned (s.del ok name).1) T' ∧
      Accounts opened opt limits n (s.del ok name).2 T' := by
  have hfind : (s.del ok name).2.keyCache.keyMap.find? name = none := by
    rw [del_keyCache, KeyCache.del_find?, if_pos rfl]
  cases hk : s.keyCache.keyMap.find? name with
  | none =>
    have hdel : s.del ok name = (.error .badKey, s) := by
      rw [del_of_badKey (by rw [KeyCache.del_of_none hk]), KeyCache.del_of_none hk]
    rw [hdel]
    exact ⟨T, .delUnknown (h.unknown name hk), { h with toSeparate := h.toSeparate.fewer }⟩
  | some ka =>
    refine ⟨Function.update T name none, .del ((h.isSome_iff name).mpr (by rw [hk]; rfl)), ?_⟩
    apply h.frame (frame_del h.toSeparate ok name)
    · intro name' hname
      rw [Function.update_of_ne hname]
    · intro _
      exact Function.update_self _ _ _
    · intro ka' hk'
      rw [hfind] at hk'
      cases hk'

lemma gc (h : Accounts opened opt limits n s T) (clock : ℤ) :
    ∃ T', AttemptTable.Step W opt limits T (.gc clock) (.forgot (s.gc clock).1) T' ∧
      Accounts opened opt limits n (s.gc clock).2 T' := by
  obtain ⟨forgotten, hcount, hforgets⟩ := gc_forgets h.indexes clock
  refine ⟨fun name => if name ∈ forgotten then none else T name, ?_, ?_⟩
  · rw [hcount]
    exact .gc forgotten fun name hname => (h.isSome_iff name).mpr ((hforgets name).1 hname)
  · refine
      { toSeparate := h.toSeparate.gc clock
        options := (KeyCache.gc_options _ _).trans h.options
        disableMerge := h.disableMerge
        times := h.times
        resultLimit := h.resultLimit
        unknown := fun name hk => ?_
        known := fun name ka hk => ?_ }
    · rw [(hforgets name).2] at hk
      split_ifs with hname
      · rfl
      · rw [if_neg hname] at hk
        exact h.unknown name hk
    · rw [(hforgets name).2] at hk
      split_ifs at hk with hname
      rw [if_neg hname]
      exact h.known name ka hk

lemma get (h : Accounts opened opt limits n s T) (clock : ℤ) (name : Name) (ts : ℤ) (offset limit : ℕ) :
    AttemptTable.Step W opt limits T (.get clock name ts offset limit)
      (.counts ((s.get clock name ts offset limit).map fun points => points.map (·.count))) T := by
  cases hk : s.keyCache.keyMap.find? name with
  | none =>
    have hid : s.keyCache.getId name = badKey := by simp [KeyCache.getId, hk]
    have hget : s.get clock name ts offset limit = .error .badKey := by
      rw [Storage.get, hid]
      rfl
    rw [hget]
    exact .getUnknown (h.unknown name hk)
  | some ka =>
    obtain ⟨e, he, haccount⟩ := h.known name ka hk
    have hid : s.keyCache.getId name = ka.getId := KeyCache.getId_of_some hk
    have hne : ka.getId ≠ badKey := ((h.id_le name ka hk).trans_lt h.keyCounter_lt).ne
    have hget : s.get clock name ts offset limit =
        .ok (s.dataStorage.get ka.getId (if ts = 0 then (clock - opt.dataTtl) * opt.keyCache.resolution else ts)
          offset limit) := by
      rw [Storage.get, hid, h.times.1, h.times.2]
      exact if_neg hne
    have hrows := s.dataStorage.countRows_rows ka.getId
      (if ts = 0 then (clock - opt.dataTtl) * opt.keyCache.resolution else ts)
    rw [← haccount.counts] at hrows
    rw [hget, Except.map, DataStorage.get_counts, h.resultLimit]
    exact .get he hrows

end Accounts

/-- Whatever names are added to, deleted, read and cleaned up, in whatever order, however late the
data are, and whichever database writes fail: every call returns, and every answer is one the table
gives. -/
theorem failing_adds_bounded {opened : W.Aggregator → Option ℕ} (hA : W.AlignsTime) (hS : W.SumsCounts opened)
    (hC : W.CombinesCounts) (opt : StorageOptions) (hlast : opt.keyCache.aggregateLastPoint = true)
    (hmerge : opt.disableMerge = false) (clock : ℤ) (hashSize resultLimit : ℕ) (calls : List ClientCall)
    (hadds : ∀ clock ok name data, .merge clock ok name data ∉ calls)
    (hts : ∀ clock ok name data, .add clock ok name data ∈ calls → data.ts ≠ 0) (hids : calls.length < badKey)
    {room : ℕ} (hbounded : Bounded room opt resultLimit calls) :
    RunMeets (fun s c => (s.reply c).2) (Answers room) (Storage.fresh W opt clock hashSize resultLimit) calls ∧
      ∃ T, Allowed (AttemptTable.Step W opt resultLimit) (fun _ => none) calls
        (answers countAnswer (Storage.fresh W opt clock hashSize resultLimit) calls) T := by
  refine ⟨hbounded.run_answers W clock hashSize, ?_⟩
  have hstep : ∀ n (s : Storage W) T c, c ∈ calls → Accounts opened opt resultLimit (n + 1) s T →
      ∃ T', AttemptTable.Step W opt resultLimit T c (s.countAnswer c).1 T' ∧
        Accounts opened opt resultLimit n (s.countAnswer c).2 T' := by
    intro n s T c hc h
    cases c with
    | add clock ok name data =>
      obtain ⟨e, hattempts, hgrows, hbounded, hnext⟩ :=
        h.add hA hS hC hlast hmerge clock ok name (hts clock ok name data hc)
      exact ⟨_, .add hattempts hgrows hbounded, hnext⟩
    | merge clock ok name data => exact absurd hc (hadds clock ok name data)
    | del ok name => exact h.del ok name
    | get clock name ts offset limit => exact ⟨T, h.get clock name ts offset limit, { h with toSeparate := h.fewer }⟩
    | gc clock => exact Accounts.gc { h with toSeparate := h.fewer } clock
  obtain ⟨T, hT, -⟩ := allowed_of_simulation hstep (fun c hc => hc)
    (Accounts.fresh W opened opt clock hashSize resultLimit hids)
  exact ⟨T, hT⟩

/-- The second add returns false before and the third after it has written the first period, with
the count of the second. The late one then adds to it. -/
theorem failing_adds_bounded_of_two_failures :
    let W := Wrtstat.reference 5 false
    let opt : StorageOptions := { keyCache := { aggregateLastPoint := true, resolution := 1 } }
    let calls : List ClientCall := [.add 0 allOk [97] { ts := 7, count := 1 },
      .add 0 (fun _ => false) [97] { ts := 8, count := 2 }, .get 0 [97] 1 0 0,
      .add 0 (fun i => decide (i < 2)) [97] { ts := 12, count := 4 }, .get 0 [97] 1 0 0,
      .add 0 allOk [97] { ts := 6, count := 8 }, .get 0 [97] 1 0 0]
    answers countAnswer (Storage.fresh W opt 0 4 10) calls =
        [.returned (.ok ()), .returned (.error (.keyPut [97])), .counts (.ok [1]),
          .returned (.error (.dataPut 1 10)), .counts (.ok [3]), .returned (.ok ()), .counts (.ok [11])] ∧
      RunMeets (fun s c => (s.reply c).2) (Answers 10) (Storage.fresh W opt 0 4 10) calls ∧
        ∃ T, Allowed (AttemptTable.Step W opt 10) (fun _ => none) calls
          (answers countAnswer (Storage.fresh W opt 0 4 10) calls) T := by
  intro W opt calls
  constructor
  · decide +kernel
  · apply failing_adds_bounded (Wrtstat.reference_alignsTime (by omega) false) (Wrtstat.reference_sumsCounts 5 false)
      (Wrtstat.reference_combinesCounts 5 false) opt rfl rfl 0 4 10 calls
    · intro clock ok name data hmem
      simp [calls] at hmem
    · intro clock ok name data hmem
      simp only [calls, List.mem_cons, List.not_mem_nil, ClientCall.add.injEq, reduceCtorEq, or_false, false_or] at hmem
      rcases hmem with ⟨-, -, -, rfl⟩ | ⟨-, -, -, rfl⟩ | ⟨-, -, -, rfl⟩ | ⟨-, -, -, rfl⟩ <;> decide
    · decide
    · exact ⟨by decide, le_rfl, fun clock name offset limit hmem => by simp [calls] at hmem⟩

end Storage

end WfcBtp
