import WfcBtp.Proofs.Accounting
import WfcBtp.Model.WrtstatReference

/-!
# Discarding aggregators

An aggregator is discarded when its key is evicted and when the storage is closed. What
of its data is stored by then depends on `aggregate_last_point`.
-/

namespace WfcBtp
open Library

variable {W : Wrtstat}

namespace Book

/-- What the points of an id keep of the data added under it: every period that a later
one follows, and the last one only with `aggregate_last_point`. -/
def Keeps (W : Wrtstat) (aggregateLastPoint : Bool) (pts : Points) (l : List AggregatedData) : Prop :=
  ∀ t, ((aggregateLastPoint = true ∨ ∃ u, t < u ∧ recorded W l u ≠ none) →
      countAt? pts t = recorded W l t) ∧
    (aggregateLastPoint = false → (∀ u, t < u → recorded W l u = none) → countAt? pts t = none)

lemma keeps_of_ledger {opened : W.Aggregator → Option ℕ} {ka : KeyAggregator W} {pts : Points}
    {l : List AggregatedData} (h : Ledger opened ka (countAt? pts) l)
    (hb : Begun ka l) : Keeps W ka.aggregateLastPoint pts l := by
  intro t
  constructor
  · rintro (hon | ⟨u, hu, hrec⟩)
    · by_cases ht : t = W.currentTime ka.aggregator
      · rw [ht, h.stored_open, hon, if_pos rfl]
      · exact h.stored t ht
    · -- the data of `u` show that the open period is not before it
      have hle : u ≤ W.currentTime ka.aggregator := not_lt.mp fun hlt => hrec (h.later u hlt)
      exact h.stored t (hu.trans_le hle).ne
  · intro hoff hlast
    by_cases ht : t = W.currentTime ka.aggregator
    · rw [ht, h.stored_open, hoff]
      rfl
    · rw [h.stored t ht]
      rcases lt_or_gt_of_ne ht with hlt | hgt
      · by_contra hrec
        have hl : l ≠ [] := by
          rintro rfl
          exact hrec rfl
        exact hb hl (hlast _ hlt)
      · exact h.later t hgt

/-- An add whose time is not zero and not late. -/
structure OnTime (s : Storage W) (c : AddCall) : Prop where
  ts_ne : c.data.ts ≠ 0
  status : (s.add c.clock allOk c.name c.data).1 = .ok ()
  on_time : ¬(s.keyCache.keyOrNew c.name c.data.ts).isLate c.data.ts

def CallOnTime (b : Book W) : Call → Prop
  | .add c => OnTime b.storage c
  | .gc _ => True

lemma accounted_of_run {opened : W.Aggregator → Option ℕ} (hA : W.AlignsTime) (hS : W.SumsCounts opened)
    (hC : W.CombinesCounts) {b : Book W} (h : Accounted opened b) {calls : List Call}
    (hcalls : RunMeets step CallOnTime b calls) : Accounted opened (calls.foldl step b) := by
  refine RunMeets.invariant (fun _ b => Accounted opened b) h ?_ hcalls
  intro _ b call hb hc
  cases call with
  | add c => exact hb.add hA hS hC ⟨hc.ts_ne, hc.status, fun hl => absurd hl hc.on_time⟩
  | gc clock => exact hb.gc clock

lemma step_aggregateLastPoint (b : Book W) (call : Call) :
    (b.step call).storage.keyCache.options = b.storage.keyCache.options := by
  cases call with
  | add c => exact Storage.add_options _ _ _ _ _
  | gc clock => exact KeyCache.gc_options _ _

/-- When keys are evicted or the storage is closed, nothing that was added is lost but,
without `aggregate_last_point`, the period that was still open. -/
theorem periods_kept_when_discarded {opened : W.Aggregator → Option ℕ} (hA : W.AlignsTime)
    (hS : W.SumsCounts opened) (hC : W.CombinesCounts) (opt : StorageOptions)
    (clock : ℤ) (hashSize resultLimit : ℕ) (calls : List Call)
    (hcalls : RunMeets step CallOnTime ⟨Storage.fresh W opt clock hashSize resultLimit, fun _ => []⟩ calls) :
    let b := calls.foldl step ⟨Storage.fresh W opt clock hashSize resultLimit, fun _ => []⟩
    (∀ clock' id, Keeps W opt.keyCache.aggregateLastPoint
      ((b.storage.gc clock').2.dataStorage.point? id) (b.added id)) ∧
    (b.storage.close allOk).1 = .ok () ∧
    ∀ id, Keeps W opt.keyCache.aggregateLastPoint
      ((b.storage.close allOk).2.dataStorage.point? id) (b.added id) := by
  intro b
  have h : Accounted opened b :=
    accounted_of_run hA hS hC (accounted_fresh hA hS opt clock hashSize resultLimit) hcalls
  have hopt : b.storage.keyCache.options = opt.keyCache := by
    have hkeep : ∀ (calls : List Call) (b : Book W),
        (calls.foldl step b).storage.keyCache.options = b.storage.keyCache.options := by
      intro calls
      induction calls with
      | nil => exact fun _ => rfl
      | cons call rest ih => exact fun b => (ih _).trans (step_aggregateLastPoint b call)
    exact (hkeep calls _).trans (Storage.openOn_options _ _ _ _)
  refine ⟨fun clock' id => ?_, Storage.close_status _, fun id => ?_⟩
  · obtain ⟨ka, hka, hledger, hbegun, _⟩ := h.ledger id
    rw [← hopt, ← hka]
    exact keeps_of_ledger hledger hbegun
  · obtain ⟨ka, hka, hledger, hbegun, _⟩ := h.ledger id
    intro t
    rw [h.countAt?_close hS id, ← hopt, ← hka]
    exact keeps_of_ledger hledger hbegun t

theorem period_kept_when_evicted :
    let b : Book (Wrtstat.reference 5 false) := [Call.add ⟨0, [97], { ts := 7, count := 1 }⟩,
      Call.add ⟨0, [97], { ts := 12, count := 2 }⟩].foldl step
      ⟨Storage.fresh _ { keyCache := { aggregateLastPoint := true, gcInterval := 1, resolution := 1 } } 0 4 10, fun _ => []⟩
    Keeps (Wrtstat.reference 5 false) true ((b.storage.gc 100).2.dataStorage.point? 1) (b.added 1) :=
  (periods_kept_when_discarded (Wrtstat.reference_alignsTime (by omega) false)
    (Wrtstat.reference_sumsCounts 5 false) (Wrtstat.reference_combinesCounts 5 false)
    { keyCache := { aggregateLastPoint := true, gcInterval := 1, resolution := 1 } } 0 4 10
    [Call.add ⟨0, [97], { ts := 7, count := 1 }⟩, Call.add ⟨0, [97], { ts := 12, count := 2 }⟩]
    ⟨⟨by decide, rfl, by decide⟩, ⟨by decide, rfl, by decide⟩, trivial⟩).1 100 1

/-- Without `aggregate_last_point` the only data of a key are gone after closing, and
after the key was evicted. -/
theorem open_period_lost :
    let b : Book (Wrtstat.reference 5 false) := [Call.add ⟨0, [97], { ts := 7, count := 1 }⟩].foldl step
      ⟨Storage.fresh _ { keyCache := { gcInterval := 1, resolution := 1 } } 0 4 10, fun _ => []⟩
    RunMeets step CallOnTime
        ⟨Storage.fresh (Wrtstat.reference 5 false) { keyCache := { gcInterval := 1, resolution := 1 } } 0 4 10, fun _ => []⟩
        [Call.add ⟨0, [97], { ts := 7, count := 1 }⟩] ∧
      ¬(∀ t, countAt? ((b.storage.close allOk).2.dataStorage.point? 1) t =
        recorded (Wrtstat.reference 5 false) (b.added 1) t) ∧
      (b.storage.gc 100).2.keyCache.getId [97] = badKey ∧
      ¬(∀ t, countAt? ((b.storage.gc 100).2.dataStorage.point? 1) t =
        recorded (Wrtstat.reference 5 false) (b.added 1) t) := by
  refine ⟨⟨⟨by decide, rfl, by decide⟩, trivial⟩, fun h => ?_, by decide, fun h => ?_⟩
  · exact absurd (h 5) (by decide)
  · exact absurd (h 5) (by decide)

end Book

end WfcBtp
