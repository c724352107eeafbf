import Mathlib.Data.List.Basic

/-!
# Simulation

A system that answers one input after another, and a specification that says which answers
it allows and what it is then in. The states are related with the number of inputs that may
still come.
-/

namespace WfcBtp.Library

variable {σ τ ι ο : Type}

/-- The answers to the inputs, one after another. -/
def answers (step : σ → ι → ο × σ) : σ → List ι → List ο
  | _, [] => []
  | s, i :: rest => (step s i).1 :: answers step (step s i).2 rest

/-- The state after the inputs. -/
def afterInputs (step : σ → ι → ο × σ) : σ → List ι → σ := List.foldl fun s i => (step s i).2

/-- The specification allows the answers, and then is in the last state. -/
inductive Allowed (spec : τ → ι → ο → τ → Prop) : τ → List ι → List ο → τ → Prop
  | nil (t : τ) : Allowed spec t [] [] t
  | cons {t t₁ t' : τ} {i : ι} {o : ο} {inputs : List ι} {outputs : List ο} :
    spec t i o t₁ → Allowed spec t₁ inputs outputs t' → Allowed spec t (i :: inputs) (o :: outputs) t'

/-- Steps that the specification follows give runs that it allows. -/
theorem allowed_of_simulation {step : σ → ι → ο × σ} {spec : τ → ι → ο → τ → Prop} {R : ℕ → σ → τ → Prop}
    {ok : ι → Prop}
    (hstep : ∀ n s t i, ok i → R (n + 1) s t → ∃ t', spec t i (step s i).1 t' ∧ R n (step s i).2 t')
    {inputs : List ι} (hok : ∀ i ∈ inputs, ok i) {s : σ} {t : τ} (h : R inputs.length s t) :
    ∃ t', Allowed spec t inputs (answers step s inputs) t' ∧ R 0 (afterInputs step s inputs) t' := by
  induction inputs generalizing s t with
  | nil => exact ⟨t, .nil t, h⟩
  | cons i rest ih =>
    obtain ⟨t₁, hspec, hnext⟩ := hstep rest.length s t i (hok i List.mem_cons_self) h
    obtain ⟨t', hrest, hlast⟩ := ih (fun j hj => hok j (List.mem_cons_of_mem i hj)) hnext
    exact ⟨t', .cons hspec hrest, hlast⟩

end WfcBtp.Library
