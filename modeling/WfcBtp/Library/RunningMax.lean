import Mathlib.Data.List.Basic
import Mathlib.Order.Bounds.Basic
import Mathlib.Order.MinMax

/-!
# Running maxima

The maximum of a list, counted from a start value, and what lies below and above it; and
the largest of a list of labelled values, with the label it came with first.
-/

namespace WfcBtp.Library

variable {α : Type} [LinearOrder α] {l l' : List α} {a b : α}

lemma foldl_max_le_iff : l.foldl max a ≤ b ↔ a ≤ b ∧ ∀ x ∈ l, x ≤ b := by
  induction l generalizing a with
  | nil => simp
  | cons x rest ih =>
    rw [List.foldl_cons, ih, max_le_iff, List.forall_mem_cons, and_assoc]

lemma le_foldl_max_iff : b ≤ l.foldl max a ↔ b ≤ a ∨ ∃ x ∈ l, b ≤ x := by
  induction l generalizing a with
  | nil => simp
  | cons x rest ih =>
    rw [List.foldl_cons, ih, le_max_iff, List.exists_mem_cons_iff, or_assoc]

/-- One running maximum is at most another from the same start when each value that it
rises to is covered. -/
lemma foldl_max_le_foldl_max_iff : l.foldl max a ≤ l'.foldl max a ↔ ∀ x ∈ l, a < x → ∃ y ∈ l', x ≤ y := by
  rw [foldl_max_le_iff, and_iff_right (le_foldl_max_iff.mpr (.inl le_rfl))]
  refine forall₂_congr fun x _ => ?_
  rw [le_foldl_max_iff, or_iff_not_imp_left, not_le]

lemma isGreatest_foldl_max (a : α) (l : List α) : IsGreatest {x | x = a ∨ x ∈ l} (l.foldl max a) := by
  constructor
  · rcases le_foldl_max_iff.mp (le_refl (l.foldl max a)) with h | ⟨x, hx, h⟩
    · exact .inl (h.antisymm (le_foldl_max_iff.mpr (.inl le_rfl)))
    · have hle : x ≤ l.foldl max a := le_foldl_max_iff.mpr (.inr ⟨x, hx, le_rfl⟩)
      exact .inr (h.antisymm hle ▸ hx)
  · rintro x (rfl | hx)
    · exact le_foldl_max_iff.mpr (.inl le_rfl)
    · exact le_foldl_max_iff.mpr (.inr ⟨x, hx, le_rfl⟩)

/-- The start value does not count where the list reaches it. -/
lemma isGreatest_foldl_max_of_le (hx : ∃ x ∈ l, a ≤ x) : IsGreatest {x | x ∈ l} (l.foldl max a) := by
  obtain ⟨x, hx, hax⟩ := hx
  obtain ⟨hmem, hupper⟩ := isGreatest_foldl_max a l
  constructor
  · rcases hmem with h | h
    · have hle : x ≤ l.foldl max a := hupper (.inr hx)
      have heq : x = l.foldl max a := hle.antisymm (h.trans_le hax)
      exact heq ▸ hx
    · exact h
  · exact fun y hy => hupper (.inr hy)

lemma foldl_max_perm (h : l.Perm l') (a : α) : l.foldl max a = l'.foldl max a := by
  have hset : {x | x = a ∨ x ∈ l} = {x | x = a ∨ x ∈ l'} := by
    ext x
    exact or_congr_right h.mem_iff
  have hmax := isGreatest_foldl_max a l
  rw [hset] at hmax
  exact hmax.unique (isGreatest_foldl_max a l')

section Labelled

variable {τ : Type}

/-- The larger value with its label; of equal values the one there is. -/
def keepLarger (b e : α × τ) : α × τ := if b.1 < e.1 then e else b

lemma keepLarger_fst (b e : α × τ) : (keepLarger b e).1 = max b.1 e.1 := by
  unfold keepLarger
  split_ifs with h
  · exact (max_eq_right h.le).symm
  · exact (max_eq_left (not_lt.mp h)).symm

lemma foldl_keepLarger_fst (b : α × τ) (l : List (α × τ)) :
    (l.foldl keepLarger b).1 = (l.map Prod.fst).foldl max b.1 := by
  induction l generalizing b with
  | nil => rfl
  | cons e rest ih => rw [List.foldl_cons, ih, keepLarger_fst, List.map_cons, List.foldl_cons]

/-- What is kept is the first one of the largest value. -/
lemma find?_foldl_keepLarger (b : α × τ) (l : List (α × τ)) :
    (b :: l).find? (fun e => e.1 = (l.foldl keepLarger b).1) = some (l.foldl keepLarger b) := by
  induction l generalizing b with
  | nil => simp
  | cons e rest ih =>
    rw [List.foldl_cons]
    have hle : (keepLarger b e).1 ≤ (rest.foldl keepLarger (keepLarger b e)).1 := by
      rw [foldl_keepLarger_fst]
      exact le_foldl_max_iff.mpr (.inl le_rfl)
    have hfirst := ih (keepLarger b e)
    by_cases h : b.1 < e.1
    · have hstep : keepLarger b e = e := if_pos h
      rw [hstep] at hle hfirst ⊢
      rw [List.find?_cons_of_neg]
      · exact hfirst
      · simpa using (h.trans_le hle).ne
    · have hstep : keepLarger b e = b := if_neg h
      rw [hstep] at hle hfirst ⊢
      by_cases hb : b.1 = (rest.foldl keepLarger b).1
      · rw [List.find?_cons_of_pos (by simpa using hb)] at hfirst ⊢
        exact hfirst
      · have hlt : e.1 < (rest.foldl keepLarger b).1 := (not_lt.mp h).trans_lt (lt_of_le_of_ne hle hb)
        rw [List.find?_cons_of_neg (by simpa using hb)] at hfirst ⊢
        rw [List.find?_cons_of_neg (by simpa using hlt.ne)]
        exact hfirst

end Labelled

end WfcBtp.Library
