import Mathlib.Data.Prod.Lex
import Mathlib.Data.Set.Finite.Lattice
import WfcBtp.Library.OrderedMap

/-!
# Rows

An ordered map whose keys are pairs, ordered by the first component first. A scan from a
pair on that stops at the next first component finds the rest of a row.
-/

namespace WfcBtp.Library

variable {κ τ ν : Type} [LinearOrder κ] [LinearOrder τ]

/-- The bindings of `k` that a scan from `(k, t)` on comes by. -/
def scannedRow (m : OrderedMap (κ ×ₗ τ) ν) (k : κ) (t : τ) : List ((κ ×ₗ τ) × ν) :=
  (m.lowerBound (toLex (k, t))).takeWhile fun e => (ofLex e.1).1 = k

/-- They are the bindings of `k` from `t` on, with their second components. -/
def row (m : OrderedMap (κ ×ₗ τ) ν) (k : κ) (t : τ) : List (τ × ν) :=
  (scannedRow m k t).map fun e => ((ofLex e.1).2, e.2)

lemma mem_takeWhile_row {l : List ((κ ×ₗ τ) × ν)} {k : κ} (hs : l.Pairwise (fun a b => a.1 < b.1))
    (hk : ∀ e ∈ l, k ≤ (ofLex e.1).1) (e : (κ ×ₗ τ) × ν) :
    (e ∈ l.takeWhile fun e => (ofLex e.1).1 = k) ↔ e ∈ l ∧ (ofLex e.1).1 = k := by
  induction l with
  | nil => simp
  | cons x rest ih =>
    obtain ⟨hhd, hrest⟩ := List.pairwise_cons.mp hs
    by_cases hx : (ofLex x.1).1 = k
    · rw [List.takeWhile_cons_of_pos (by simpa using hx), List.mem_cons,
        ih hrest fun e' h' => hk e' (List.mem_cons_of_mem _ h'), List.mem_cons]
      constructor
      · rintro (rfl | h)
        · exact ⟨.inl rfl, hx⟩
        · exact ⟨.inr h.1, h.2⟩
      · rintro ⟨rfl | h, he⟩
        · exact .inl rfl
        · exact .inr ⟨h, he⟩
    · -- first components only grow along the list, so none behind `x` is `k` again
      rw [List.takeWhile_cons_of_neg (by simpa using hx)]
      refine iff_of_false List.not_mem_nil fun h => ?_
      have hlt : k < (ofLex x.1).1 := lt_of_le_of_ne (hk x List.mem_cons_self) (Ne.symm hx)
      rcases List.mem_cons.mp h.1 with rfl | hmem
      · exact hx h.2
      · have hle : (ofLex x.1).1 ≤ (ofLex e.1).1 := by
          rcases Prod.Lex.lt_iff.mp (hhd e hmem) with hfst | hfst
          · exact hfst.le
          · exact hfst.1.le
        exact absurd h.2 (hlt.trans_le hle).ne'

lemma mem_scannedRow_iff (m : OrderedMap (κ ×ₗ τ) ν) (k : κ) (t : τ) (q : κ ×ₗ τ) (v : ν) :
    (q, v) ∈ scannedRow m k t ↔ (ofLex q).1 = k ∧ t ≤ (ofLex q).2 ∧ m.find? q = some v := by
  have hfrom : ∀ e ∈ m.lowerBound (toLex (k, t)), k ≤ (ofLex e.1).1 := by
    intro e he
    rcases Prod.Lex.le_iff.mp ((m.mem_lowerBound_iff _ e.1 e.2).mp he).1 with hlt | hle
    · exact hlt.le
    · exact hle.1.le
  rw [scannedRow, mem_takeWhile_row (m.sorted_lowerBound _) hfrom, m.mem_lowerBound_iff, Prod.Lex.le_iff]
  constructor
  · rintro ⟨⟨hlt | hle, hfind⟩, hk⟩
    · exact absurd hk hlt.ne'
    · exact ⟨hk, hle.2, hfind⟩
  · rintro ⟨hk, ht, hfind⟩
    exact ⟨⟨.inr ⟨hk.symm, ht⟩, hfind⟩, hk⟩

lemma mem_row_iff (m : OrderedMap (κ ×ₗ τ) ν) (k : κ) (t u : τ) (v : ν) :
    (u, v) ∈ row m k t ↔ t ≤ u ∧ m.find? (toLex (k, u)) = some v := by
  rw [row, List.mem_map]
  constructor
  · rintro ⟨⟨q, w⟩, hmem, heq⟩
    obtain ⟨rfl, rfl⟩ := Prod.mk.inj heq
    obtain ⟨rfl, ht, hfind⟩ := (mem_scannedRow_iff m k t q w).mp hmem
    exact ⟨ht, hfind⟩
  · rintro ⟨ht, hfind⟩
    exact ⟨(toLex (k, u), v), (mem_scannedRow_iff m k t _ v).mpr ⟨rfl, ht, hfind⟩, rfl⟩

lemma row_sorted (m : OrderedMap (κ ×ₗ τ) ν) (k : κ) (t : τ) : (row m k t).Pairwise (fun a b => a.1 < b.1) := by
  have hscan : (scannedRow m k t).Pairwise (fun a b => a.1 < b.1) :=
    (m.sorted_lowerBound (toLex (k, t))).sublist (List.takeWhile_sublist _)
  rw [row, List.pairwise_map]
  refine hscan.imp_of_mem fun {a b} ha hb hab => ?_
  have hak := ((mem_scannedRow_iff m k t a.1 a.2).mp ha).1
  have hbk := ((mem_scannedRow_iff m k t b.1 b.2).mp hb).1
  rcases Prod.Lex.lt_iff.mp hab with hlt | hlt
  · rw [hak, hbk] at hlt
    exact absurd hlt (lt_irrefl k)
  · exact hlt.2

/-- A row starts somewhere. -/
lemma exists_row_start [Nonempty τ] (m : OrderedMap (κ ×ₗ τ) ν) (k : κ) :
    ∃ t₀, ∀ t v, m.find? (toLex (k, t)) = some v → t₀ ≤ t := by
  have hfinite := (m.keys.map fun q => (ofLex q).2).finite_toSet
  obtain ⟨t₀, ht₀⟩ := hfinite.bddBelow
  refine ⟨t₀, fun t v hv => ht₀ (List.mem_map.mpr ⟨toLex (k, t), ?_, rfl⟩)⟩
  rw [OrderedMap.mem_keys_iff, hv, Option.isSome_some]

/-- An ascending list is told by its entries. -/
lemma eq_of_ascending {l l' : List (τ × ν)} (h : l.Pairwise (fun a b => a.1 < b.1))
    (h' : l'.Pairwise (fun a b => a.1 < b.1)) (hmem : ∀ t v, (t, v) ∈ l ↔ (t, v) ∈ l') : l = l' := by
  have hnodup : ∀ {l : List (τ × ν)}, l.Pairwise (fun a b => a.1 < b.1) → l.Nodup := fun hs =>
    hs.imp fun hab => ne_of_apply_ne Prod.fst hab.ne
  have hperm : l.Perm l' := by
    rw [List.perm_ext_iff_of_nodup (hnodup h) (hnodup h')]
    exact fun e => hmem e.1 e.2
  exact hperm.eq_of_pairwise (fun a b _ _ hab hba => absurd hab hba.asymm) h h'

/-- Maps with the same bindings of `k` have the same row. -/
lemma row_congr {m m' : OrderedMap (κ ×ₗ τ) ν} {k : κ}
    (h : ∀ u, m.find? (toLex (k, u)) = m'.find? (toLex (k, u))) (t : τ) : row m k t = row m' k t := by
  apply eq_of_ascending (row_sorted m k t) (row_sorted m' k t)
  intro u v
  rw [mem_row_iff, mem_row_iff, h]

end WfcBtp.Library
