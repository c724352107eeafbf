import Mathlib.Data.List.Basic
import WfcBtp.Library.Simulation

/-!
# Unwinding

An observer sees some of the inputs of a system, and something of the answers to them. It
cannot tell a run from the one with only the inputs it sees, if there is a relation of states
that inputs it does not see keep on one side, and that inputs it sees keep on both sides with
answers that look the same to it.
-/

namespace WfcBtp.Library

variable {σ ι ο ο' : Type}

/-- What the observer sees of the answers. -/
def seenAnswers (step : σ → ι → ο × σ) (sees : ι → Bool) (obs : ι → ο → ο') : σ → List ι → List ο'
  | _, [] => []
  | s, i :: rest =>
    if sees i then obs i (step s i).1 :: seenAnswers step sees obs (step s i).2 rest
    else seenAnswers step sees obs (step s i).2 rest

/-- `Inv n` holds of a state from which `n` more inputs can come, and `ok` of the inputs. -/
structure Unwinds (step : σ → ι → ο × σ) (ok : ι → Prop) (sees : ι → Bool) (obs : ι → ο → ο') (Inv : ℕ → σ → Prop)
    (R : σ → σ → Prop) : Prop where
  next : ∀ n s i, Inv (n + 1) s → Inv n (step s i).2
  fewer : ∀ n s, Inv (n + 1) s → Inv n s
  seen : ∀ n s t i, ok i → Inv (n + 1) s → Inv (n + 1) t → R s t → sees i = true →
    obs i (step s i).1 = obs i (step t i).1 ∧ R (step s i).2 (step t i).2
  unseen : ∀ n s t i, Inv (n + 1) s → Inv (n + 1) t → R s t → sees i = false → R (step s i).2 t

theorem Unwinds.seenAnswers_filter {step : σ → ι → ο × σ} {ok : ι → Prop} {sees : ι → Bool} {obs : ι → ο → ο'}
    {Inv : ℕ → σ → Prop} {R : σ → σ → Prop} (h : Unwinds step ok sees obs Inv R) {inputs : List ι}
    (hok : ∀ i ∈ inputs, ok i) {s t : σ} (hs : Inv inputs.length s) (ht : Inv inputs.length t) (hr : R s t) :
    seenAnswers step sees obs s inputs = seenAnswers step sees obs t (inputs.filter sees) := by
  induction inputs generalizing s t with
  | nil => rfl
  | cons i rest ih =>
    have hrest : ∀ j ∈ rest, ok j := fun j hj => hok j (List.mem_cons_of_mem i hj)
    rw [seenAnswers]
    cases hi : sees i with
    | true =>
      obtain ⟨hobs, hnext⟩ := h.seen _ s t i (hok i List.mem_cons_self) hs ht hr hi
      rw [List.filter_cons_of_pos hi, seenAnswers, if_pos rfl, if_pos hi, hobs,
        ih hrest (h.next _ s i hs) (h.next _ t i ht) hnext]
    | false =>
      rw [List.filter_cons_of_neg (by simp [hi]), if_neg (by simp),
        ih hrest (h.next _ s i hs) (h.fewer _ t ht) (h.unseen _ s t i hs ht hr hi)]

end WfcBtp.Library
