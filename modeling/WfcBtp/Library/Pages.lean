import Mathlib.Data.List.Basic

/-!
# Pages

A page of a list: what is left of it behind an offset, cut to a limit unless that is zero.
-/

namespace WfcBtp.Library

variable {α β : Type}

/-- The entries of a list from `offset` on, and no more than `limit` of them. -/
def page (offset limit : ℕ) (l : List α) : List α :=
  if limit = 0 then l.drop offset else (l.drop offset).take limit

variable {offset limit : ℕ} {a : α} {l : List α}

@[simp] lemma page_nil : page offset limit ([] : List α) = [] := by
  unfold page
  split_ifs <;> simp

@[simp] lemma page_zero_zero : page 0 0 l = l := rfl

@[simp] lemma page_succ_cons : page (offset + 1) limit (a :: l) = page offset limit l := rfl

@[simp] lemma page_zero_one_cons : page 0 1 (a :: l) = [a] := rfl

lemma page_zero_cons (h : limit ≠ 1) : page 0 limit (a :: l) = a :: page 0 (limit - 1) l := by
  cases limit with
  | zero => rfl
  | succ limit =>
    have hne : limit ≠ 0 := by omega
    simp [page, hne]

lemma page_map (f : α → β) : page offset limit (l.map f) = (page offset limit l).map f := by
  unfold page
  split_ifs
  · rw [List.map_drop]
  · rw [List.map_take, List.map_drop]

lemma page_of_length_le (h : l.length ≤ offset) : page offset limit l = [] := by
  unfold page
  rw [List.drop_of_length_le h, List.take_nil, ite_self]

/-- A page that reaches the end is not cut. -/
lemma page_eq_drop (h : limit = 0 ∨ l.length ≤ offset + limit) : page offset limit l = l.drop offset := by
  unfold page
  split_ifs with hl
  · rfl
  · exact List.take_of_length_le (by rw [List.length_drop]; omega)

lemma page_eq_take_drop (h : limit ≠ 0) : page offset limit l = (l.drop offset).take limit := if_neg h

/-- One page after another gives the list, up to the end of the last one. -/
lemma flatMap_page (h : limit ≠ 0) (k : ℕ) :
    (List.range k).flatMap (fun i => page (i * limit) limit l) = l.take (k * limit) := by
  induction k with
  | zero => simp
  | succ k ih =>
    rw [List.range_succ, List.flatMap_append, ih, List.flatMap_singleton, page_eq_take_drop h, ← List.take_add,
      Nat.succ_mul]

end WfcBtp.Library
