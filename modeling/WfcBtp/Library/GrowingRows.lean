import Mathlib.Data.List.Basic
import WfcBtp.Library.Rows

/-!
# Rows that grow at their end

A row of bindings in the order of their keys, of which only those from a key on may change, and
none disappears. What was read of it before that key is read again, at the same place.
-/

namespace WfcBtp.Library

variable {α τ ν : Type}

/-- The last entry apart, a page of a list is the beginning of the page of any list that has the
same entries up to there. -/
lemma page_kept (offset limit : ℕ) (l : List α) {b b' : List α} (hb : b.length ≤ 1) :
    (((l ++ b).drop offset).take limit).dropLast <+: ((l ++ b').drop offset).take limit := by
  rw [List.prefix_iff_getElem?]
  intro i hi
  rw [List.length_dropLast, List.length_take, List.length_drop, List.length_append] at hi
  have hbefore : offset + i < l.length := by omega
  have hlimit : i < limit := by omega
  rw [List.getElem?_take_of_lt hlimit, List.getElem?_drop, List.getElem?_append_left hbefore, List.getElem_dropLast,
    List.getElem_take, List.getElem_drop, List.getElem_append_left hbefore, List.getElem?_eq_getElem hbefore]

section

variable [LinearOrder τ]

/-- The bindings before a key come before the others. -/
lemma eq_filter_append {l : List (τ × ν)} (hl : l.Pairwise fun a b => a.1 < b.1) (cut : τ) :
    l = l.filter (fun e => e.1 < cut) ++ l.filter fun e => ¬e.1 < cut := by
  induction l with
  | nil => rfl
  | cons e rest ih =>
    obtain ⟨hfirst, hrest⟩ := List.pairwise_cons.mp hl
    by_cases he : e.1 < cut
    · rw [List.filter_cons_of_pos (by simpa using he), List.filter_cons_of_neg (by simpa using he), List.cons_append,
        ← ih hrest]
    · have hnone : rest.filter (fun e => e.1 < cut) = [] := by
        apply List.filter_eq_nil_iff.mpr
        intro e' he'
        have hlt := hfirst e' he'
        simpa using (not_lt.mp he).trans hlt.le
      rw [List.filter_cons_of_neg (by simpa using he), List.filter_cons_of_pos (by simpa using he), hnone,
        List.nil_append]
      conv_lhs => rw [ih hrest, hnone, List.nil_append]

/-- The row of `f'` is that of `f`, but for what is at `cut` and after it, where it has no less. -/
structure GrowsFrom (cut : τ) (f f' : τ → Option ν) : Prop where
  same : ∀ t < cut, f' t = f t
  keeps : ∀ t, (f t).isSome → (f' t).isSome

namespace GrowsFrom

variable {cut cut' : τ} {f f' f'' : τ → Option ν}

lemma refl (cut : τ) (f : τ → Option ν) : GrowsFrom cut f f := ⟨fun _ _ => rfl, fun _ h => h⟩

lemma trans (h : GrowsFrom cut f f') (h' : GrowsFrom cut' f' f'') (hle : cut ≤ cut') : GrowsFrom cut f f'' where
  same t ht := (h'.same t (ht.trans_le hle)).trans (h.same t ht)
  keeps t ht := h'.keeps t (h.keeps t ht)

/-- If nothing was bound after `cut`, a page of the row is read again later, but for its last entry,
and no fewer entries are read. -/
theorem page_again (h : GrowsFrom cut f f') (hcut : ∀ t, (f t).isSome → t ≤ cut) {l l' : List (τ × ν)} {start : τ}
    (hl : l.Pairwise fun a b => a.1 < b.1) (hl' : l'.Pairwise fun a b => a.1 < b.1)
    (hmem : ∀ t v, (t, v) ∈ l ↔ start ≤ t ∧ f t = some v) (hmem' : ∀ t v, (t, v) ∈ l' ↔ start ≤ t ∧ f' t = some v)
    (offset limit : ℕ) :
    ((l.drop offset).take limit).dropLast <+: (l'.drop offset).take limit ∧
      ((l.drop offset).take limit).length ≤ ((l'.drop offset).take limit).length := by
  have hbefore : l.filter (fun e => e.1 < cut) = l'.filter fun e => e.1 < cut := by
    apply eq_of_ascending (hl.filter _) (hl'.filter _)
    intro t v
    simp only [List.mem_filter, hmem, hmem', decide_eq_true_eq]
    apply and_congr_left
    intro ht
    rw [h.same t ht]
  have hafter : ∀ e ∈ l.filter (fun e => ¬e.1 < cut), e.1 = cut := by
    intro e he
    obtain ⟨hel, hcute⟩ := List.mem_filter.mp he
    have hbound := ((hmem e.1 e.2).mp hel).2
    exact le_antisymm (hcut e.1 (by rw [hbound]; rfl)) (not_lt.mp (of_decide_eq_true hcute))
  have hone : (l.filter fun e => ¬e.1 < cut).length ≤ 1 := by
    have hsorted := hl.filter fun e => ¬e.1 < cut
    cases hb : l.filter fun e => ¬e.1 < cut with
    | nil => exact Nat.zero_le 1
    | cons e rest =>
      cases rest with
      | nil => exact le_rfl
      | cons e' rest =>
        rw [hb] at hsorted hafter
        have hlt := (List.pairwise_cons.mp hsorted).1 e' List.mem_cons_self
        rw [hafter e List.mem_cons_self, hafter e' (List.mem_cons_of_mem e List.mem_cons_self)] at hlt
        exact absurd hlt (lt_irrefl cut)
  have hmore : (l.filter fun e => ¬e.1 < cut).length ≤ (l'.filter fun e => ¬e.1 < cut).length := by
    cases hb : l.filter fun e => ¬e.1 < cut with
    | nil => exact Nat.zero_le _
    | cons e rest =>
      rw [hb] at hone
      have he : e ∈ l.filter fun e => ¬e.1 < cut := by
        rw [hb]
        exact List.mem_cons_self
      obtain ⟨hstart, hbound⟩ := (hmem e.1 e.2).mp (List.mem_filter.mp he).1
      obtain ⟨v, hv⟩ := Option.isSome_iff_exists.mp (h.keeps e.1 (by rw [hbound]; rfl))
      have he' : (e.1, v) ∈ l'.filter fun e => ¬e.1 < cut := by
        refine List.mem_filter.mpr ⟨(hmem' e.1 v).mpr ⟨hstart, hv⟩, ?_⟩
        simpa using (hafter e he).ge
      exact hone.trans (List.length_pos_of_mem he')
  rw [eq_filter_append hl cut, eq_filter_append hl' cut, ← hbefore]
  refine ⟨page_kept offset limit _ hone, ?_⟩
  simp only [List.length_take, List.length_drop, List.length_append]
  omega

end GrowsFrom

end

end WfcBtp.Library
