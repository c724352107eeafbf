import WfcBtp.Library.Runs
import WfcBtp.Model.AgDomain

/-!
# Loading in parallel

The second counter and the number of pending instances start equal, and only a `start_`
that returns early moves them apart.
-/

namespace WfcBtp.AgDomain
open Library

/-- `start_` gets to its end. -/
def StartResults.Succeeds (r : StartResults) : Prop :=
  (r.hasGlobal → r.keyDirectory ∧ r.dataDirectory) ∧ r.storageOpen

instance (r : StartResults) : Decidable r.Succeeds := by
  unfold StartResults.Succeeds
  infer_instance

lemma start_instanceCounter2 (r : StartResults) (c : InstanceCounters) :
    (start_ r c).instanceCounter2 = c.instanceCounter2 - if r.Succeeds then 1 else 0 := by
  unfold start_ StartResults.Succeeds
  rcases r with ⟨_ | _, _ | _, _ | _, _ | _⟩ <;> simp

/-- What replacing one element does to a count. -/
lemma countP_set_add {α : Type} {l : List α} {i : ℕ} {a : α} (h : l[i]? = some a) (p : α → Bool) (b : α) :
    (l.set i b).countP p + (if p a then 1 else 0) = l.countP p + if p b then 1 else 0 := by
  induction l generalizing i with
  | nil => simp at h
  | cons x rest ih =>
    cases i with
    | zero =>
      rw [List.getElem?_cons_zero, Option.some.injEq] at h
      subst h
      rw [List.set_cons_zero, List.countP_cons, List.countP_cons]
      omega
    | succ i =>
      rw [List.getElem?_cons_succ] at h
      have hrest := ih h
      rw [List.set_cons_succ, List.countP_cons, List.countP_cons]
      omega

namespace Loading

/-- A step in which no `start_` returns early. -/
def NoFailure (s : Loading) : LoadStep → Prop
  | .start _ => True
  | .startReturns i r => s.instances[i]? = some .loading → r.Succeeds
  | .wake => True

instance (s : Loading) : ∀ e, Decidable (NoFailure s e)
  | .start _ => inferInstanceAs (Decidable True)
  | .startReturns i r => inferInstanceAs (Decidable (s.instances[i]? = some .loading → r.Succeeds))
  | .wake => inferInstanceAs (Decidable True)

/-- How far the second counter is ahead of the number of pending instances. -/
def gap (s : Loading) : ℤ := s.counters.instanceCounter2 - s.pending

lemma pending_set {s : Loading} {i : ℕ} {a b : InstanceState} (h : s.instances[i]? = some a) :
    ((s.instances.set i b).countP (· ≠ .returned) : ℤ) =
      s.pending + (if b = .returned then 0 else 1) - if a = .returned then 0 else 1 := by
  have hset := countP_set_add h (· ≠ .returned) b
  unfold pending
  cases a <;> cases b <;> simp at hset ⊢ <;> omega

lemma gap_initialized (n : ℕ) : gap (initialized n) = 0 := by
  have hcounter : ∀ n, (initializeInstance^[n] {}).instanceCounter2 = n := by
    intro n
    induction n with
    | zero => rfl
    | succ n ih =>
      rw [Function.iterate_succ_apply', initializeInstance, ih]
      exact (Nat.cast_succ n).symm
  have hpending : (initialized n).pending = n := by simp [initialized, pending, List.countP_replicate]
  rw [gap, hpending, initialized, hcounter, sub_self]

/-- One step leaves the gap as it is, or a `start_` returned early. -/
lemma gap_step (s : Loading) (e : LoadStep) :
    gap (s.step e) = gap s ∧ NoFailure s e ∨ gap (s.step e) = gap s + 1 ∧ ¬NoFailure s e := by
  cases e with
  | wake => exact .inl ⟨rfl, trivial⟩
  | start i =>
    refine .inl ⟨?_, trivial⟩
    by_cases hi : s.instances[i]? = some .initialized
    · rw [step, if_pos hi]
      change s.counters.instanceCounter2 - ((s.instances.set i .loading).countP (· ≠ .returned) : ℤ) = _
      rw [pending_set hi, gap]
      simp
    · rw [step, if_neg hi]
  | startReturns i r =>
    by_cases hi : s.instances[i]? = some .loading
    · have hgap : gap (s.step (.startReturns i r)) = gap s + 1 - if r.Succeeds then 1 else 0 := by
        rw [step, if_pos hi]
        change (start_ r s.counters).instanceCounter2 -
          ((s.instances.set i .returned).countP (· ≠ .returned) : ℤ) = _
        rw [pending_set hi, start_instanceCounter2, gap]
        simp only [if_true, reduceCtorEq, if_false]
        omega
      by_cases hr : r.Succeeds
      · rw [if_pos hr] at hgap
        exact .inl ⟨by omega, fun _ => hr⟩
      · rw [if_neg hr] at hgap
        exact .inr ⟨by omega, fun h => hr (h hi)⟩
    · rw [step, if_neg hi]
      exact .inl ⟨rfl, fun h => absurd h hi⟩

/-- The gap never closes, and stays exactly in the runs without failures. -/
lemma gap_foldl (steps : List LoadStep) (s : Loading) :
    gap s ≤ gap (steps.foldl step s) ∧ (gap (steps.foldl step s) = gap s ↔ RunMeets step NoFailure s steps) := by
  induction steps generalizing s with
  | nil => exact ⟨le_rfl, iff_of_true rfl trivial⟩
  | cons e rest ih =>
    obtain ⟨hle, hiff⟩ := ih (s.step e)
    rw [List.foldl_cons, RunMeets, ← hiff]
    rcases gap_step s e with ⟨hgap, hok⟩ | ⟨hgap, hfail⟩
    · exact ⟨by omega, by rw [hgap, and_iff_right hok]⟩
    · refine ⟨by omega, iff_of_false (by omega) fun h => hfail h.1⟩

/-- The second counter counts the instances whose `start_` has not returned, and so the
waiting loop ends after the last one, exactly as long as no `start_` returns early. -/
theorem waiting_ends_iff (n : ℕ) (steps : List LoadStep) :
    let s := steps.foldl step (initialized n)
    (s.counters.instanceCounter2 = s.pending ∧ (s.pending = 0 → (s.step .wake).waiting = false)) ↔
      RunMeets step NoFailure (initialized n) steps := by
  intro s
  rw [← (gap_foldl steps (initialized n)).2, gap_initialized]
  change _ ↔ s.counters.instanceCounter2 - (s.pending : ℤ) = 0
  constructor
  · rintro ⟨hcounter, _⟩
    omega
  · intro hgap
    refine ⟨by omega, fun hpending => ?_⟩
    have hzero : s.counters.instanceCounter2 = 0 := by omega
    simp [step, hzero]

/-- One of two instances cannot open its storage: both have returned, and the waiting loop
still counts one. -/
theorem waiting_never_ends :
    let s := [LoadStep.start 0, .start 1, .startReturns 0 { storageOpen := false },
      .startReturns 1 {}].foldl step (initialized 2)
    s.pending = 0 ∧ s.waiting = true ∧ s.counters.instanceCounter2 = 1 ∧ (s.step .wake).waiting = true ∧
      ¬(s.counters.instanceCounter2 = s.pending ∧ (s.pending = 0 → (s.step .wake).waiting = false)) := by
  decide

end Loading

end WfcBtp.AgDomain
