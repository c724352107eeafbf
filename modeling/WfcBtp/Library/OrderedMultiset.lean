import Mathlib.Data.List.Sort
import Mathlib.Data.Multiset.Count

/-!
# Ordered multisets

A finite multiset kept as the increasing list of its elements, the list an iterator of
an ordered multiset walks over. Erasing by value removes every equal element.
-/

namespace WfcBtp.Library

/-- A finite multiset with its elements in increasing order. -/
structure OrderedMultiset (α : Type) [LinearOrder α] where
  elems : List α
  sorted : elems.Pairwise (· ≤ ·)

namespace OrderedMultiset

variable {α : Type} [LinearOrder α]

def empty : OrderedMultiset α := ⟨[], List.Pairwise.nil⟩

instance : Inhabited (OrderedMultiset α) := ⟨empty⟩

def size (s : OrderedMultiset α) : ℕ := s.elems.length

/-- How many times `a` occurs. -/
def count (s : OrderedMultiset α) (a : α) : ℕ := s.elems.count a

/-- One more occurrence of `a`. -/
def insert (s : OrderedMultiset α) (a : α) : OrderedMultiset α :=
  ⟨s.elems.orderedInsert (· ≤ ·) a, s.sorted.orderedInsert a _⟩

/-- Removes every occurrence of `a`. -/
def erase (s : OrderedMultiset α) (a : α) : OrderedMultiset α :=
  ⟨s.elems.filter (· ≠ a), s.sorted.filter _⟩

/-- Removes the element an iterator at the beginning points to. -/
def eraseFirst (s : OrderedMultiset α) : OrderedMultiset α :=
  ⟨s.elems.tail, s.sorted.tail⟩

/-- What lies before the first element not below `a`. -/
def below (s : OrderedMultiset α) (a : α) : List α := s.elems.takeWhile (· < a)

lemma count_insert (s : OrderedMultiset α) (a b : α) [Decidable (b = a)] :
    (s.insert a).count b = s.count b + if b = a then 1 else 0 := by
  have hperm := List.perm_orderedInsert (· ≤ ·) a s.elems
  by_cases h : b = a
  · subst h
    simp [count, insert, hperm.count_eq]
  · simp [count, insert, hperm.count_eq, h, List.count_cons_of_ne (Ne.symm h)]

lemma count_erase (s : OrderedMultiset α) (a b : α) [Decidable (b = a)] :
    (s.erase a).count b = if b = a then 0 else s.count b := by
  by_cases h : b = a
  · subst h
    simp only [count, erase, if_true]
    exact List.count_eq_zero_of_not_mem (by simp)
  · simp only [count, erase, h, ite_false]
    exact List.count_filter (by simpa using h)

lemma count_eraseFirst {s : OrderedMultiset α} {a : α} {rest : List α} (h : s.elems = a :: rest) (b : α)
    [Decidable (b = a)] : s.count b = s.eraseFirst.count b + if b = a then 1 else 0 := by
  by_cases hb : b = a
  · subst hb
    simp [count, eraseFirst, h]
  · simp [count, eraseFirst, h, hb, List.count_cons_of_ne (Ne.symm hb)]

/-- Two multisets with the same counts have the same increasing list. -/
lemma ext {s s' : OrderedMultiset α} (h : ∀ a, s.count a = s'.count a) : s = s' := by
  obtain ⟨l, hl⟩ := s
  obtain ⟨l', hl'⟩ := s'
  have hperm : l.Perm l' := List.perm_iff_count.mpr h
  have heq : l = l' := hperm.eq_of_pairwise (fun a b _ _ hab hba => le_antisymm hab hba) hl hl'
  subst heq
  rfl

/-- A multiset that has every element of a duplicate-free list once, and nothing else. -/
lemma perm_of_count {s : OrderedMultiset α} {l : List α} (hl : l.Nodup) (hmem : ∀ a ∈ l, s.count a = 1)
    (hnot : ∀ a ∉ l, s.count a = 0) : s.elems.Perm l := by
  rw [List.perm_iff_count]
  intro a
  by_cases ha : a ∈ l
  · rw [List.count_eq_one_of_mem hl ha]
    exact hmem a ha
  · rw [List.count_eq_zero_of_not_mem ha]
    exact hnot a ha

/-- The elements before the lower bound of `a` are the front of the list. -/
lemma below_append (s : OrderedMultiset α) (a : α) :
    s.below a ++ s.elems.dropWhile (· < a) = s.elems :=
  List.takeWhile_append_dropWhile

lemma mem_below_iff (s : OrderedMultiset α) (a b : α) : b ∈ s.below a ↔ b ∈ s.elems ∧ b < a := by
  have hlist : ∀ l : List α, l.Pairwise (· ≤ ·) → (b ∈ l.takeWhile (· < a) ↔ b ∈ l ∧ b < a) := by
    intro l
    induction l with
    | nil => simp
    | cons x rest ih =>
      intro hs
      obtain ⟨hhd, hrest⟩ := List.pairwise_cons.mp hs
      by_cases hx : x < a
      · rw [List.takeWhile_cons_of_pos (by simpa using hx), List.mem_cons, ih hrest, List.mem_cons]
        constructor
        · rintro (rfl | h)
          · exact ⟨.inl rfl, hx⟩
          · exact ⟨.inr h.1, h.2⟩
        · rintro ⟨rfl | hb, hlt⟩
          · exact .inl rfl
          · exact .inr ⟨hb, hlt⟩
      · -- nothing behind the first element that is not below `a` is
        rw [List.takeWhile_cons_of_neg (by simpa using hx)]
        refine iff_of_false List.not_mem_nil fun h => ?_
        rcases List.mem_cons.mp h.1 with rfl | hb
        · exact hx h.2
        · exact hx ((hhd b hb).trans_lt h.2)
  exact hlist s.elems s.sorted

end OrderedMultiset

end WfcBtp.Library
