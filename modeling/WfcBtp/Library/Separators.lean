import Mathlib.Data.List.Infix
import Mathlib.Data.List.Lex
import Mathlib.Data.Nat.Find
import WfcBtp.Library.OrderedMap

/-!
# Separators

Occurrences of a separator in a list, counted left to right without overlaps, and the
lists that start with a given one, which lie next to each other in the lexicographic
order.
-/

namespace WfcBtp.Library

variable {α : Type}

section Occurrences

variable [DecidableEq α]

/-- The positions of the occurrences of `sep`, counted from `pos` on. The first `skip`
elements belong to the occurrence before. -/
def occurrencesFrom (sep : List α) : List α → ℕ → ℕ → List ℕ
  | [], _, _ => []
  | _ :: rest, skip + 1, pos => occurrencesFrom sep rest skip (pos + 1)
  | c :: rest, 0, pos =>
    if sep <+: c :: rest then pos :: occurrencesFrom sep rest (sep.length - 1) (pos + 1)
    else occurrencesFrom sep rest 0 (pos + 1)

def occurrences (sep l : List α) : List ℕ := occurrencesFrom sep l 0 0

variable {sep l : List α}

lemma le_of_mem_occurrencesFrom {skip pos q : ℕ} (h : q ∈ occurrencesFrom sep l skip pos) : pos + skip ≤ q := by
  induction l generalizing skip pos with
  | nil => exact absurd h List.not_mem_nil
  | cons c rest ih =>
    cases skip with
    | succ skip =>
      have hle := ih h
      omega
    | zero =>
      rw [occurrencesFrom] at h
      split_ifs at h
      · rcases List.mem_cons.mp h with rfl | h
        · exact le_rfl
        · have hle := ih h
          omega
      · have hle := ih h
        omega

/-- The first occurrence is the first position the separator stands at. -/
lemma head?_occurrencesFrom (hsep : sep ≠ []) {pos p : ℕ} :
    (occurrencesFrom sep l 0 pos).head? = some p ↔
      ∃ i, p = pos + i ∧ sep <+: l.drop i ∧ ∀ j < i, ¬sep <+: l.drop j := by
  induction l generalizing pos with
  | nil =>
    simp only [occurrencesFrom, List.head?_nil, reduceCtorEq, List.drop_nil, List.prefix_nil, hsep, false_iff,
      not_exists]
    tauto
  | cons c rest ih =>
    rw [occurrencesFrom]
    split_ifs with h
    · rw [List.head?_cons, Option.some.injEq]
      constructor
      · rintro rfl
        exact ⟨0, rfl, h, fun j hj => absurd hj (Nat.not_lt_zero j)⟩
      · rintro ⟨i, rfl, -, hbefore⟩
        cases i with
        | zero => rfl
        | succ i => exact absurd h (hbefore 0 (Nat.succ_pos i))
    · rw [ih]
      constructor
      · rintro ⟨i, rfl, hi, hbefore⟩
        refine ⟨i + 1, by omega, hi, fun j hj => ?_⟩
        cases j with
        | zero => exact h
        | succ j => exact hbefore j (Nat.lt_of_succ_lt_succ hj)
      · rintro ⟨i, rfl, hi, hbefore⟩
        cases i with
        | zero => exact absurd hi h
        | succ i => exact ⟨i, by omega, hi, fun j hj => hbefore (j + 1) (Nat.succ_lt_succ hj)⟩

/-- Later occurrences do not overlap the first one. -/
lemma add_length_le_of_mem_tail (hsep : sep ≠ []) {pos p : ℕ} {rest : List ℕ}
    (h : occurrencesFrom sep l 0 pos = p :: rest) : ∀ q ∈ rest, p + sep.length ≤ q := by
  have hpos := List.length_pos_of_ne_nil hsep
  induction l generalizing pos with
  | nil => exact absurd h (by simp [occurrencesFrom])
  | cons c tail ih =>
    rw [occurrencesFrom] at h
    split_ifs at h
    · obtain ⟨rfl, rfl⟩ := List.cons.inj h
      intro q hq
      have hle := le_of_mem_occurrencesFrom hq
      omega
    · exact ih h

omit [DecidableEq α] in
lemma infix_iff_exists_drop : sep <:+: l ↔ ∃ i, sep <+: l.drop i := by
  constructor
  · rintro ⟨s, t, rfl⟩
    refine ⟨s.length, t, ?_⟩
    rw [List.append_assoc, List.drop_left]
  · rintro ⟨i, hi⟩
    exact hi.isInfix.trans (List.drop_suffix i l).isInfix

/-- There is no occurrence in a list that does not contain the separator. -/
lemma occurrences_eq_nil_iff (hsep : sep ≠ []) : occurrences sep l = [] ↔ ¬sep <:+: l := by
  rw [infix_iff_exists_drop]
  constructor
  · rintro hnil ⟨i, hi⟩
    have hex : ∃ i, sep <+: l.drop i := ⟨i, hi⟩
    have hhead : (occurrences sep l).head? = some (0 + Nat.find hex) :=
      (head?_occurrencesFrom hsep).mpr ⟨_, rfl, Nat.find_spec hex, fun j hj => Nat.find_min hex hj⟩
    rw [hnil] at hhead
    exact absurd hhead (by simp)
  · intro h
    cases hocc : occurrences sep l with
    | nil => rfl
    | cons p rest =>
      have hhead : (occurrences sep l).head? = some p := by rw [hocc, List.head?_cons]
      obtain ⟨i, -, hi, -⟩ := (head?_occurrencesFrom hsep).mp hhead
      exact absurd ⟨i, hi⟩ h

/-- The first occurrence, if there is one. -/
def firstAt (sep l : List α) : Option ℕ := (occurrences sep l).head?

lemma firstAt_eq_some_iff (hsep : sep ≠ []) {p : ℕ} :
    firstAt sep l = some p ↔ sep <+: l.drop p ∧ ∀ j < p, ¬sep <+: l.drop j := by
  unfold firstAt occurrences
  rw [head?_occurrencesFrom hsep]
  constructor
  · rintro ⟨i, rfl, h⟩
    rwa [Nat.zero_add]
  · intro h
    exact ⟨p, (Nat.zero_add p).symm, h⟩

lemma firstAt_eq_none_iff (hsep : sep ≠ []) : firstAt sep l = none ↔ ¬sep <:+: l := by
  rw [firstAt, List.head?_eq_none_iff, occurrences_eq_nil_iff hsep]

/-- A list is cut at its first separator into what stands before and behind it. -/
lemma take_append_of_firstAt (hsep : sep ≠ []) {p : ℕ} (h : firstAt sep l = some p) :
    ∃ rest, l = l.take p ++ (sep ++ rest) := by
  obtain ⟨rest, hrest⟩ := ((firstAt_eq_some_iff hsep).mp h).1
  exact ⟨rest, by rw [hrest, List.take_append_drop]⟩

lemma length_take_of_firstAt (hsep : sep ≠ []) {p : ℕ} (h : firstAt sep l = some p) : (l.take p).length = p := by
  obtain ⟨hpre, -⟩ := (firstAt_eq_some_iff hsep).mp h
  have hpos := List.length_pos_of_ne_nil hsep
  have hle := hpre.length_le
  rw [List.length_drop] at hle
  rw [List.length_take]
  omega

/-- Whether the first separator stands right behind `b` does not depend on what follows. -/
lemma firstAt_append (hsep : sep ≠ []) {b rest rest' : List α}
    (h : firstAt sep (b ++ (sep ++ rest)) = some b.length) : firstAt sep (b ++ (sep ++ rest')) = some b.length := by
  rw [firstAt_eq_some_iff hsep] at h ⊢
  constructor
  · rw [List.drop_left]
    exact List.prefix_append sep rest'
  · intro j hj hpre
    have hshort : ∀ tail, (b ++ (sep ++ tail)).drop j = (b ++ sep).drop j ++ tail := by
      intro tail
      rw [← List.append_assoc, List.drop_append_of_le_length (by rw [List.length_append]; omega)]
    have hlen : sep.length ≤ ((b ++ sep).drop j).length := by
      rw [List.length_drop, List.length_append]
      omega
    have hin : sep <+: (b ++ sep).drop j := by
      rw [hshort] at hpre
      exact List.prefix_of_prefix_length_le hpre (List.prefix_append _ _) hlen
    refine h.2 j hj ?_
    rw [hshort]
    exact hin.trans (List.prefix_append _ _)

/-- What stands before the first separator does not contain it. -/
lemma not_infix_take_of_firstAt (hsep : sep ≠ []) {p : ℕ} (h : firstAt sep l = some p) : ¬sep <:+: l.take p := by
  rw [infix_iff_exists_drop]
  rintro ⟨i, hi⟩
  have hpos := List.length_pos_of_ne_nil hsep
  have hle := hi.length_le
  rw [List.length_drop, length_take_of_firstAt hsep h] at hle
  refine ((firstAt_eq_some_iff hsep).mp h).2 i (by omega) (hi.trans ?_)
  rw [List.drop_take]
  exact List.take_prefix _ _

/-- What stands before a later separator contains the first one. -/
lemma infix_take_of_lt (hsep : sep ≠ []) {k q : ℕ} (hk : 0 < k) (h : (occurrences sep l)[k]? = some q) :
    sep <:+: l.take q := by
  cases hocc : occurrences sep l with
  | nil => simp [hocc] at h
  | cons p rest =>
    have hfirst : firstAt sep l = some p := by rw [firstAt, hocc, List.head?_cons]
    obtain ⟨hpre, -⟩ := (firstAt_eq_some_iff hsep).mp hfirst
    have hmem : q ∈ rest := by
      rw [hocc, show k = k - 1 + 1 by omega, List.getElem?_cons_succ] at h
      exact List.mem_of_getElem? h
    have hle := add_length_le_of_mem_tail hsep hocc q hmem
    rw [infix_iff_exists_drop]
    refine ⟨p, ?_⟩
    rw [List.drop_take, List.prefix_take_iff]
    exact ⟨hpre, by omega⟩

end Occurrences

/-! ### Lists that start with a given one -/

section Order

variable [LinearOrder α]

lemma cons_le_cons_iff {a b : α} {l l' : List α} : a :: l ≤ b :: l' ↔ a < b ∨ a = b ∧ l ≤ l' := by
  have hlt : a :: l < b :: l' ↔ a < b ∨ a = b ∧ l < l' := List.cons_lt_cons_iff
  rw [le_iff_lt_or_eq, hlt, List.cons.injEq, le_iff_lt_or_eq (a := l)]
  tauto

lemma le_of_startsWith {head a : List α} (h : head <+: a) : head ≤ a := by
  obtain ⟨tail, rfl⟩ := h
  induction head with
  | nil => exact not_lt.mp (List.not_lt_nil _)
  | cons c rest ih => exact List.cons_le_cons c ih

/-- Between a list and one that starts with it, all lists start with it. -/
lemma prefix_of_le_of_le {head a b : List α} (hle : head ≤ a) (hab : a ≤ b) (h : head <+: b) : head <+: a := by
  induction head generalizing a b with
  | nil => exact List.nil_prefix
  | cons c rest ih =>
    obtain ⟨tail, rfl⟩ := h
    cases a with
    | nil => exact absurd hle (by simp)
    | cons x a =>
      rw [List.cons_append] at hab
      have hx : c = x := by
        rcases cons_le_cons_iff.mp hle with hlt | ⟨rfl, -⟩
        · rcases cons_le_cons_iff.mp hab with hlt' | ⟨rfl, -⟩
          · exact absurd hlt' hlt.asymm
          · rfl
        · rfl
      subst hx
      have hrest : rest ≤ a := by
        rcases cons_le_cons_iff.mp hle with hlt | ⟨-, hle⟩
        · exact absurd hlt (lt_irrefl c)
        · exact hle
      have htail : a ≤ rest ++ tail := by
        rcases cons_le_cons_iff.mp hab with hlt | ⟨-, hle⟩
        · exact absurd hlt (lt_irrefl c)
        · exact hle
      exact List.cons_prefix_cons.mpr ⟨rfl, ih hrest htail (List.prefix_append rest tail)⟩

/-- A scan from `head` on that stops at the first other key finds all keys that start with it. -/
lemma OrderedMap.takeWhile_lowerBound {ν : Type} (m : OrderedMap (List α) ν) (head : List α) :
    (m.lowerBound head).takeWhile (fun e => head <+: e.1) = m.entries.filter (fun e => head <+: e.1) := by
  have hscan : ∀ l : List (List α × ν), l.Pairwise (fun a b => a.1 < b.1) → (∀ e ∈ l, head ≤ e.1) →
      l.takeWhile (fun e => head <+: e.1) = l.filter (fun e => head <+: e.1) := by
    intro l
    induction l with
    | nil => exact fun _ _ => rfl
    | cons e rest ih =>
      intro hs hle
      obtain ⟨hhd, hrest⟩ := List.pairwise_cons.mp hs
      by_cases he : head <+: e.1
      · rw [List.takeWhile_cons_of_pos (by simpa using he), List.filter_cons_of_pos (by simpa using he),
          ih hrest fun e' h' => hle e' (List.mem_cons_of_mem _ h')]
      · -- behind the first key without the prefix there is none with it
        rw [List.takeWhile_cons_of_neg (by simpa using he), List.filter_cons_of_neg (by simpa using he), eq_comm,
          List.filter_eq_nil_iff]
        intro e' h' hpre
        exact he (prefix_of_le_of_le (hle e List.mem_cons_self) (hhd e' h').le (by simpa using hpre))
  rw [hscan _ (m.sorted_lowerBound head) fun e he => ((m.mem_lowerBound_iff head e.1 e.2).mp he).1]
  obtain ⟨before, hsplit, hlt⟩ := m.exists_append_lowerBound head
  have hnone : before.filter (fun e => head <+: e.1) = [] := by
    rw [List.filter_eq_nil_iff]
    intro e he hpre
    exact absurd (le_of_startsWith (by simpa using hpre)) (hlt e he).not_ge
  rw [hsplit, List.filter_append, hnone, List.nil_append]

end Order

end WfcBtp.Library
