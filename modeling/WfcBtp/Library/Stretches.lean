import Mathlib.Algebra.BigOperators.Group.List.Basic
import Mathlib.Algebra.Order.Ring.Nat
import Mathlib.Data.List.DropRight
import Mathlib.Data.List.SplitBy

/-!
# Stretches of one key

A list falls into maximal stretches of neighbours that have one key. Combining each element
with the last one collected, when the two have one key, collects one element per stretch.
-/

namespace WfcBtp.Library

variable {α κ : Type} {key : α → κ} {plus : α → α → α}

/-- The elements of a stretch put together, from the left. -/
def combined [Inhabited α] (plus : α → α → α) : List α → α
  | [] => default
  | a :: rest => rest.foldl plus a

section Decidable

variable [DecidableEq κ]

/-- The maximal stretches of neighbours with one key. -/
def stretches (key : α → κ) (l : List α) : List (List α) := l.splitBy fun a b => key a = key b

/-- Appends an element, or combines it with the last one. -/
def collect (key : α → κ) (plus : α → α → α) (acc : List α) (a : α) : List α :=
  match acc.getLast? with
  | none => acc ++ [a]
  | some b => if key b = key a then acc.dropLast ++ [plus b a] else acc ++ [a]

/-! ### Stretches -/

lemma mem_of_mem_stretches {l s : List α} (hs : s ∈ stretches key l) {a : α} (ha : a ∈ s) : a ∈ l := by
  rw [← List.flatten_splitBy (fun a b => decide (key a = key b)) l]
  exact List.mem_flatten_of_mem hs ha

lemma ne_nil_of_mem_stretches {l s : List α} (hs : s ∈ stretches key l) : s ≠ [] :=
  List.ne_nil_of_mem_splitBy hs

lemma one_key_of_mem_stretches {l s : List α} (hs : s ∈ stretches key l) : ∃ k, ∀ a ∈ s, key a = k := by
  have hchain : s.IsChain fun a b => key a = key b :=
    (List.isChain_of_mem_splitBy hs).imp fun a b h => by simpa using h
  have hall : s.Pairwise fun a b => key a = key b := by
    have htrans : IsTrans α fun a b => key a = key b := ⟨fun _ _ _ h h' => h.trans h'⟩
    exact List.isChain_iff_pairwise.mp hchain
  cases s with
  | nil => exact absurd rfl (ne_nil_of_mem_stretches hs)
  | cons a rest =>
    refine ⟨key a, fun b hb => ?_⟩
    rcases List.mem_cons.mp hb with rfl | hb
    · rfl
    · exact ((List.pairwise_cons.mp hall).1 b hb).symm

lemma stretches_of_one_key {s : List α} {k : κ} (hne : s ≠ []) (hs : ∀ a ∈ s, key a = k) :
    stretches key s = [s] := by
  refine List.splitBy_of_isChain hne ?_
  have hall : s.Pairwise fun a b => decide (key a = key b) = true := by
    rw [List.pairwise_iff_forall_sublist]
    intro a b hab
    have ha := hs a (hab.subset List.mem_cons_self)
    have hb := hs b (hab.subset (List.mem_cons_of_mem _ List.mem_cons_self))
    simp [ha, hb]
  exact hall.isChain

lemma stretches_append {l m : List α} (h : ∀ a ∈ l.getLast?, ∀ b ∈ m.head?, key a ≠ key b) :
    stretches key (l ++ m) = stretches key l ++ stretches key m :=
  List.splitBy_append fun a ha b hb => by simpa using h a ha b hb

end Decidable

/-! ### Combining -/

section Combined

variable [Inhabited α]

@[simp] lemma combined_singleton (a : α) : combined plus [a] = a := rfl

lemma combined_append_singleton {s : List α} (hne : s ≠ []) (a : α) :
    combined plus (s ++ [a]) = plus (combined plus s) a := by
  cases s with
  | nil => exact absurd rfl hne
  | cons b rest => simp [combined]

/-- What all elements of a stretch have and combining keeps, the combination has. -/
lemma combined_of_forall {P : α → Prop} (hplus : ∀ a b, P a → P b → P (plus a b)) {s : List α}
    (hne : s ≠ []) (hs : ∀ a ∈ s, P a) : P (combined plus s) := by
  induction s using List.reverseRecOn with
  | nil => exact absurd rfl hne
  | append_singleton s a ih =>
    have ha := hs a (by simp)
    by_cases hnil : s = []
    · subst hnil
      exact ha
    · rw [combined_append_singleton hnil]
      exact hplus _ _ (ih hnil fun b hb => hs b (by simp [hb])) ha

lemma key_combined (hplus : ∀ a b, key a = key b → key (plus a b) = key a) {s : List α} {k : κ}
    (hne : s ≠ []) (hs : ∀ a ∈ s, key a = k) : key (combined plus s) = k := by
  refine combined_of_forall (P := fun a => key a = k) ?_ hne hs
  intro a b ha hb
  rw [hplus a b (ha.trans hb.symm), ha]

/-- A quantity that combining adds up. -/
lemma combined_sum (count : α → ℕ) (hplus : ∀ a b, count (plus a b) = count a + count b) {s : List α}
    (hne : s ≠ []) : count (combined plus s) = (s.map count).sum := by
  induction s using List.reverseRecOn with
  | nil => exact absurd rfl hne
  | append_singleton s a ih =>
    by_cases hnil : s = []
    · subst hnil
      simp [combined]
    · rw [combined_append_singleton hnil, hplus, ih hnil]
      simp

variable [DecidableEq κ]

/-- Collecting on top of a stretch that has been combined already. -/
lemma foldl_collect_append (hplus : ∀ a b, key a = key b → key (plus a b) = key a) (l acc : List α)
    {s : List α} {k : κ} (hne : s ≠ []) (hs : ∀ a ∈ s, key a = k) :
    l.foldl (collect key plus) (acc ++ [combined plus s]) =
      acc ++ (stretches key (s ++ l)).map (combined plus) := by
  induction l generalizing acc s k with
  | nil => rw [List.foldl_nil, List.append_nil, stretches_of_one_key hne hs, List.map_singleton]
  | cons a rest ih =>
    have hkey := key_combined hplus hne hs
    rw [List.foldl_cons]
    by_cases ha : key a = k
    · have hstep : collect key plus (acc ++ [combined plus s]) a = acc ++ [combined plus (s ++ [a])] := by
        simp [collect, hkey, ha, combined_append_singleton hne]
      rw [hstep, ih acc (s := s ++ [a]) (k := k) (by simp), List.append_assoc, List.singleton_append]
      intro b hb
      rcases List.mem_append.mp hb with hb | hb
      · exact hs b hb
      · rw [List.mem_singleton.mp hb, ha]
    · have hstep : collect key plus (acc ++ [combined plus s]) a =
          acc ++ [combined plus s] ++ [combined plus [a]] := by
        simp [collect, hkey, Ne.symm ha]
      have hsplit : stretches key (s ++ a :: rest) = s :: stretches key (a :: rest) := by
        rw [stretches_append, stretches_of_one_key hne hs, List.singleton_append]
        intro b hb c hc
        obtain rfl : a = c := by simpa using hc
        rw [hs b (List.mem_of_mem_getLast? hb)]
        exact Ne.symm ha
      rw [hstep, ih (acc ++ [combined plus s]) (s := [a]) (k := key a) (by simp) (by simp), hsplit]
      simp

/-- One element is collected per stretch; the first may go on from the last one there. -/
theorem foldl_collect (hplus : ∀ a b, key a = key b → key (plus a b) = key a) (l acc : List α) :
    l.foldl (collect key plus) acc =
      acc.dropLast ++ (stretches key (acc.getLast?.toList ++ l)).map (combined plus) := by
  cases hacc : acc.getLast? with
  | none =>
    obtain rfl : acc = [] := List.getLast?_eq_none_iff.mp hacc
    cases l with
    | nil => rfl
    | cons a rest => exact foldl_collect_append hplus rest [] (s := [a]) (k := key a) (by simp) (by simp)
  | some b =>
    obtain ⟨init, rfl⟩ := List.getLast?_eq_some_iff.mp hacc
    have hfold := foldl_collect_append hplus l init (s := [b]) (k := key b) (by simp) (by simp)
    simpa using hfold

end Combined

/-! ### The last stretch -/

section LastStretch

variable {p : α → Prop}

/-- Where an element with `p` occurs there is a last stretch of them. -/
lemma exists_last_stretch [DecidablePred p] {l : List α} (h : ∃ a ∈ l, p a) :
    ∃ A B C, l = A ++ (B ++ C) ∧ (∀ a ∈ A.getLast?, ¬p a) ∧ B ≠ [] ∧ (∀ b ∈ B, p b) ∧ ∀ c ∈ C, ¬p c := by
  obtain ⟨a, ha, hpa⟩ := h
  -- cut off what stands behind the last element with `p`, then its stretch
  let D := l.rdropWhile fun x => !decide (p x)
  have hD : D ≠ [] := by
    intro hnil
    have hall := List.rdropWhile_eq_nil_iff.mp hnil a ha
    simp [hpa] at hall
  have hlast : p (D.getLast hD) := by simpa using List.rdropWhile_last_not (fun x => !decide (p x)) l hD
  refine ⟨D.rdropWhile (p ·), D.rtakeWhile (p ·), l.rtakeWhile fun x => !decide (p x), ?_, ?_, ?_, ?_, ?_⟩
  · rw [← List.append_assoc, List.rdropWhile_append_rtakeWhile]
    exact List.rdropWhile_append_rtakeWhile.symm
  · intro b hb
    have hne : D.rdropWhile (p ·) ≠ [] := List.ne_nil_of_mem (List.mem_of_mem_getLast? hb)
    have hnot := List.rdropWhile_last_not (fun x => decide (p x)) D hne
    rw [List.getLast?_eq_some_getLast hne, Option.mem_some_iff] at hb
    rw [← hb]
    simpa using hnot
  · intro hnil
    exact absurd hlast (by simpa using List.rtakeWhile_eq_nil_iff.mp hnil hD)
  · intro b hb
    simpa using List.mem_rtakeWhile_imp hb
  · intro c hc
    simpa using List.mem_rtakeWhile_imp hc

/-- What stands before the last stretch are the elements with `p` that come again behind
one without it. -/
lemma forall_before_last_stretch_iff {Q : α → Prop} {A B C : List α} (hA : ∀ a ∈ A.getLast?, ¬p a)
    (hne : B ≠ []) (hB : ∀ b ∈ B, p b) (hC : ∀ c ∈ C, ¬p c) :
    (∀ a ∈ A, p a → Q a) ↔
      ∀ d e d', [d, e, d'].Sublist (A ++ (B ++ C)) → p d → ¬p e → p d' → Q d := by
  constructor
  · intro h d e d' hsub hd he hd'
    obtain ⟨l₁, l₂, heq, h₁, h₂⟩ := List.sublist_append_iff.mp hsub
    cases l₁ with
    | cons a rest =>
      obtain ⟨rfl, -⟩ := List.cons_eq_cons.mp heq
      exact h d (h₁.subset List.mem_cons_self) hd
    | nil =>
      -- behind the stretch nothing has `p`, and inside it everything has
      rw [← heq.trans (List.nil_append _)] at h₂
      obtain ⟨m₁, m₂, heq', h₁', h₂'⟩ := List.sublist_append_iff.mp h₂
      match m₁, heq' with
      | [], heq' =>
        rw [← heq'.trans (List.nil_append _)] at h₂'
        exact absurd hd (hC d (h₂'.subset List.mem_cons_self))
      | [_], heq' =>
        obtain ⟨rfl, rfl⟩ := List.cons_eq_cons.mp heq'
        exact absurd hd' (hC d' (h₂'.subset (by simp)))
      | _ :: x :: rest, heq' =>
        obtain ⟨rfl, heq''⟩ := List.cons_eq_cons.mp heq'
        obtain ⟨rfl, -⟩ := List.cons_eq_cons.mp heq''
        exact absurd (hB e (h₁'.subset (by simp))) he
  · intro h a ha hpa
    obtain ⟨b, hb⟩ := List.exists_mem_of_ne_nil B hne
    have hlast : A.getLast (List.ne_nil_of_mem ha) ∈ A.getLast? := List.getLast?_eq_some_getLast _
    refine h a (A.getLast (List.ne_nil_of_mem ha)) b ?_ hpa (hA _ hlast) (hB b hb)
    have hinit : a ∈ A.dropLast := by
      have hA' := List.dropLast_append_getLast (List.ne_nil_of_mem ha)
      rw [← hA'] at ha
      rcases List.mem_append.mp ha with ha | ha
      · exact ha
      · rw [List.mem_singleton.mp ha] at hpa
        exact absurd hpa (hA _ hlast)
    have hpair : [a, A.getLast (List.ne_nil_of_mem ha)].Sublist A := by
      have hsub := (List.singleton_sublist.mpr hinit).append (List.Sublist.refl [A.getLast (List.ne_nil_of_mem ha)])
      rwa [List.dropLast_append_getLast] at hsub
    exact hpair.append (List.singleton_sublist.mpr (List.mem_append_left C hb))

end LastStretch

end WfcBtp.Library
