import Mathlib.Data.List.Basic

/-!
# Batches

A list cut into pieces of one length, of which the last may be shorter.
-/

namespace WfcBtp.Library

variable {α : Type}

/-- The list is cut into the batches, from its start on. -/
inductive Batches (n : ℕ) : List α → List (List α) → Prop
  | nil : Batches n [] []
  | last {l : List α} (hne : l ≠ []) (hle : l.length ≤ n) : Batches n l [l]
  | full {b l : List α} {batches : List (List α)} (hne : b ≠ []) (hlen : b.length = n)
      (hrest : Batches n l batches) : Batches n (b ++ l) (b :: batches)

namespace Batches

variable {n : ℕ} {l : List α} {batches : List (List α)}

lemma flatten_eq (h : Batches n l batches) : batches.flatten = l := by
  induction h with
  | nil => rfl
  | last => exact List.flatten_singleton
  | full _ _ _ ih => rw [List.flatten_cons, ih]

lemma ne_nil (h : Batches n l batches) : ∀ b ∈ batches, b ≠ [] := by
  induction h with
  | nil => exact List.forall_mem_nil _
  | last hne => exact List.forall_mem_singleton.mpr hne
  | full hne _ _ ih => exact List.forall_mem_cons.mpr ⟨hne, ih⟩

lemma length_le (h : Batches n l batches) : ∀ b ∈ batches, b.length ≤ n := by
  induction h with
  | nil => exact List.forall_mem_nil _
  | last _ hle => exact List.forall_mem_singleton.mpr hle
  | full _ hlen _ ih => exact List.forall_mem_cons.mpr ⟨Nat.le_of_eq hlen, ih⟩

/-- Only the last batch can be a short one. -/
lemma length_eq_of_mem_dropLast (h : Batches n l batches) : ∀ b ∈ batches.dropLast, b.length = n := by
  induction h with
  | nil => exact List.forall_mem_nil _
  | last => exact List.forall_mem_nil _
  | @full b l batches _ hlen _ ih =>
    by_cases hnil : batches = []
    · rw [hnil, List.dropLast_singleton]
      exact List.forall_mem_nil _
    · rw [List.dropLast_cons_of_ne_nil hnil]
      exact List.forall_mem_cons.mpr ⟨hlen, ih⟩

end Batches

end WfcBtp.Library
