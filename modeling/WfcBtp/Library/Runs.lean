import Mathlib.Logic.Basic
import Mathlib.Data.List.Basic

/-!
# Runs

Runs of a deterministic step function on a list of inputs, with a condition that every
step has to meet in the state before it.
-/

namespace WfcBtp.Library

variable {σ α : Type}

/-- Every step of the run from `s` meets `ok` in the state before it. -/
def RunMeets (step : σ → α → σ) (ok : σ → α → Prop) : σ → List α → Prop
  | _, [] => True
  | s, a :: rest => ok s a ∧ RunMeets step ok (step s a) rest

namespace RunMeets

variable {step : σ → α → σ} {ok : σ → α → Prop}

instance decidable [∀ s a, Decidable (ok s a)] : ∀ s l, Decidable (RunMeets step ok s l)
  | _, [] => inferInstanceAs (Decidable True)
  | s, a :: rest =>
    have := decidable (step s a) rest
    inferInstanceAs (Decidable (ok s a ∧ RunMeets step ok (step s a) rest))

/-- What holds of the empty history and is kept by every step that meets the condition
holds of the whole history. -/
theorem invariant (Inv : List α → σ → Prop) {s : σ} (hinit : Inv [] s)
    (hstep : ∀ hist s a, Inv hist s → ok s a → Inv (hist ++ [a]) (step s a)) {l : List α}
    (hl : RunMeets step ok s l) : Inv l (l.foldl step s) := by
  have hgen : ∀ (l : List α) (hist : List α) (s : σ), Inv hist s → RunMeets step ok s l →
      Inv (hist ++ l) (l.foldl step s) := by
    intro l
    induction l with
    | nil =>
      intro hist s hs _
      rwa [List.append_nil]
    | cons a rest ih =>
      intro hist s hs hl
      have h := ih (hist ++ [a]) (step s a) (hstep hist s a hs hl.1) hl.2
      rwa [List.append_assoc] at h
  exact hgen l [] s hinit hl

/-- Conditions that agree wherever an invariant holds are met by the same runs, if the
steps that meet them keep the invariant. -/
theorem congr {ok' : σ → α → Prop} (Inv : σ → Prop) {s : σ} (hinit : Inv s)
    (hok : ∀ s a, Inv s → (ok s a ↔ ok' s a)) (hstep : ∀ s a, Inv s → ok s a → Inv (step s a)) (l : List α) :
    RunMeets step ok s l ↔ RunMeets step ok' s l := by
  induction l generalizing s with
  | nil => exact Iff.rfl
  | cons a rest ih =>
    rw [RunMeets, RunMeets, ← hok s a hinit]
    exact and_congr_right fun ha => ih (hstep s a hinit ha)

/-- A condition that no step changes is met by a run exactly when it holds at its start,
unless the run is empty. -/
theorem const_iff {P : σ → Prop} (hstep : ∀ s a, P (step s a) ↔ P s) (s : σ) (l : List α) :
    RunMeets step (fun s _ => P s) s l ↔ l = [] ∨ P s := by
  induction l generalizing s with
  | nil => exact iff_of_true trivial (Or.inl rfl)
  | cons a rest ih =>
    rw [RunMeets, ih, hstep]
    constructor
    · intro h
      exact Or.inr h.1
    · intro h
      have hs : P s := h.resolve_left (List.cons_ne_nil a rest)
      exact ⟨hs, Or.inr hs⟩

end RunMeets

end WfcBtp.Library
