import WfcBtp.Library.Runs

/-!
# Guarded computations

Computations that may go wrong, told by a condition under which they do not and by the
value they have then.
-/

namespace WfcBtp.Library

variable {α β σ : Type}

/-- The computation is `a` where `ok` holds, and goes wrong where it does not. -/
structure Guarded (m : Option α) (ok : Prop) (a : α) : Prop where
  eq_some : ok → m = some a
  eq_none : ¬ok → m = none

namespace Guarded

variable {m : Option α} {ok ok' : Prop} {a : α} {b : β}

lemma isSome_iff (h : Guarded m ok a) : m.isSome ↔ ok := by
  by_cases hok : ok
  · rw [h.eq_some hok]
    exact iff_of_true rfl hok
  · rw [h.eq_none hok]
    exact iff_of_false Bool.false_ne_true hok

lemma eq_of_eq_some {a' : α} (h : Guarded m ok a) (ha' : m = some a') : a' = a := by
  have hok : ok := by
    rw [← h.isSome_iff, ha']
    rfl
  rw [h.eq_some hok] at ha'
  exact (Option.some.inj ha').symm

lemma of_some (a : α) : Guarded (some a) True a :=
  ⟨fun _ => rfl, fun h => absurd trivial h⟩

lemma congr (h : Guarded m ok a) (hok : ok ↔ ok') : Guarded m ok' a :=
  ⟨fun h' => h.eq_some (hok.mpr h'), fun h' => h.eq_none fun hok' => h' (hok.mp hok')⟩

lemma bind (h : Guarded m ok a) {f : α → Option β} (hf : Guarded (f a) ok' b) :
    Guarded (m >>= f) (ok ∧ ok') b := by
  constructor
  · rintro ⟨hok, hok'⟩
    rw [h.eq_some hok]
    exact hf.eq_some hok'
  · intro hnot
    by_cases hok : ok
    · rw [h.eq_some hok]
      exact hf.eq_none fun hok' => hnot ⟨hok, hok'⟩
    · rw [h.eq_none hok]
      rfl

/-- What comes after does not go wrong. -/
lemma bind_of_eq_some (h : Guarded m ok a) {f : α → Option β} (hf : f a = some b) : Guarded (m >>= f) ok b := by
  constructor
  · intro hok
    rw [h.eq_some hok]
    exact hf
  · intro hnot
    rw [h.eq_none hnot]
    rfl

lemma map (h : Guarded m ok a) (f : α → β) : Guarded (m.map f) ok (f a) := by
  rw [Option.map_eq_bind]
  exact h.bind_of_eq_some rfl

/-- A run of guarded steps does not go wrong exactly when every step is made in a state
that its condition allows. -/
lemma foldlM {step? : σ → α → Option σ} {step : σ → α → σ} {ok : σ → α → Prop}
    (h : ∀ s a, Guarded (step? s a) (ok s a) (step s a)) (s : σ) (l : List α) :
    Guarded (l.foldlM step? s) (RunMeets step ok s l) (l.foldl step s) := by
  induction l generalizing s with
  | nil => exact of_some s
  | cons a rest ih =>
    rw [List.foldlM_cons, List.foldl_cons]
    exact (h s a).bind (ih (step s a))

end Guarded

end WfcBtp.Library
