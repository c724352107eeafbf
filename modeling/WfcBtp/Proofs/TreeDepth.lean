import WfcBtp.Model.WrtstatReference
import WfcBtp.Proofs.TreeNodes

/-!
# The depth of a tree query

A name is cut at the separator that the depth counts to. The loop of `tree` finds the
first separator again and again, so that it cuts every name there.
-/

namespace WfcBtp.KeyCache
open Library

variable {W : Wrtstat}

/-- Fewer than `depth` separators in what stands behind the head. -/
def IsLeaf (sep : Name) (depth : ℕ) (rest : Name) : Prop := (occurrences sep rest).length < depth

instance (sep : Name) (depth : ℕ) (rest : Name) : Decidable (IsLeaf sep depth rest) := by
  unfold IsLeaf
  infer_instance

/-- What stands before the separator that `depth` counts to. -/
def cutAt (sep : Name) (depth : ℕ) (rest : Name) : Name := rest.take ((occurrences sep rest).getD (depth - 1) 0)

/-- Both kinds of nodes are those of the depth. -/
structure CutsAtDepth (sort : SortFunction) (c : KeyCache W) (start sep : Name) (depth : ℕ) (by' : SortBy)
    (power : Bool) : Prop where
  branches : ∃ res, c.tree sort start sep depth 0 0 .branch by' power = some res ∧
    (res.map Prod.fst).Pairwise (· < ·) ∧
    ∀ b, b ∈ res.map Prod.fst ↔ ∃ name ∈ c.keyMap.keys, head start sep <+: name ∧
      ¬IsLeaf sep depth (name.drop (head start sep).length) ∧
      cutAt sep depth (name.drop (head start sep).length) = b
  leaves : ∃ lst, c.select sort (head start sep) [] 0 0 by' power = some lst ∧
    c.tree sort start sep depth 0 0 .leaf by' power = some (lst.filterMap fun item =>
      if IsLeaf sep depth (item.1.drop (head start sep).length)
      then some (item.1.drop (head start sep).length, item.2) else none)

lemma not_isLeaf_one_iff {sep rest b : Name} :
    ¬IsLeaf sep 1 rest ∧ cutAt sep 1 rest = b ↔ ∃ p, firstAt sep rest = some p ∧ rest.take p = b := by
  unfold IsLeaf cutAt firstAt
  cases occurrences sep rest with
  | nil => simp
  | cons p tail => simp

/-- With one depth or without separators, a leaf is a name without any. -/
lemma isLeaf_iff {sep : Name} (hsep : sep ≠ []) {depth : ℕ} (hdepth : 1 ≤ depth) {rest : Name}
    (h : depth = 1 ∨ ¬sep <:+: rest) : IsLeaf sep depth rest ↔ firstAt sep rest = none := by
  unfold IsLeaf firstAt
  rcases h with rfl | h
  · rw [List.head?_eq_none_iff, Nat.lt_one_iff, List.length_eq_zero_iff]
  · have hnil := (occurrences_eq_nil_iff hsep).mpr h
    rw [hnil]
    exact iff_of_true hdepth rfl

namespace CutsAtDepth

variable {sort : SortFunction} {c : KeyCache W} {start sep : Name} {d : ℕ} {by' : SortBy} {power : Bool}

/-- A leaf with a separator would be missing among the leaves. -/
lemma not_infix_of_isLeaf (hsort : Sorts sort) (hsep : sep ≠ [])
    (h : CutsAtDepth sort c start sep (d + 1) by' power) {name : Name} (hname : name ∈ c.keyMap.keys)
    (hpre : head start sep <+: name) (hleaf : IsLeaf sep (d + 1) (name.drop (head start sep).length)) :
    ¬sep <:+: name.drop (head start sep).length := by
  obtain ⟨lst, hlst, htree⟩ := h.leaves
  rw [select_eq, Option.some.injEq] at hlst
  rw [tree_leaf hsep hsort, Option.some.injEq, ← hlst] at htree
  obtain ⟨item, hitem, rfl⟩ := List.mem_map.mp ((mem_selected_names hsort c _ by' power _).mpr ⟨hname, hpre⟩)
  have hin : (item.1.drop (head start sep).length, item.2) ∈
      (c.selected sort (head start sep) by' power).filterMap (leafOf (head start sep) sep) := by
    rw [htree]
    exact List.mem_filterMap.mpr ⟨item, hitem, if_pos hleaf⟩
  obtain ⟨item', -, hleaf'⟩ := List.mem_filterMap.mp hin
  unfold leafOf at hleaf'
  split_ifs at hleaf' with hfirst
  have hrest := congrArg Prod.fst (Option.some.inj hleaf')
  dsimp only at hrest
  rw [hrest] at hfirst
  exact (firstAt_eq_none_iff hsep).mp hfirst

/-- A branch that is cut behind the first separator contains it. -/
lemma isLeaf (hsort : Sorts sort) (hsep : sep ≠ []) (h : CutsAtDepth sort c start sep (d + 1) by' power)
    (hd : d ≠ 0) {name : Name} (hname : name ∈ c.keyMap.keys) (hpre : head start sep <+: name) :
    IsLeaf sep (d + 1) (name.drop (head start sep).length) := by
  by_contra hleaf
  obtain ⟨res, hres, -, hcut⟩ := h.branches
  obtain ⟨res', hres', -, hfirst⟩ := tree_branch hsep hsort c start d by' power
  rw [hres, Option.some.injEq] at hres'
  subst hres'
  have hin := (hcut _).mpr ⟨name, hname, hpre, hleaf, rfl⟩
  obtain ⟨name', -, -, p, hp, htake⟩ := (hfirst _).mp hin
  have hlen : d < (occurrences sep (name.drop (head start sep).length)).length := by
    unfold IsLeaf at hleaf
    omega
  have hcontains : sep <:+: cutAt sep (d + 1) (name.drop (head start sep).length) := by
    rw [cutAt, List.getD_eq_getElem?_getD, Nat.add_sub_cancel, List.getElem?_eq_getElem hlen, Option.getD_some]
    exact infix_take_of_lt hsep (by omega) (List.getElem?_eq_getElem hlen)
  rw [← htake] at hcontains
  exact not_infix_take_of_firstAt hsep hp hcontains

end CutsAtDepth

/-- Both results are those of the depth exactly if it is one, or no name goes on with a
separator behind the head. -/
theorem tree_cuts_at_depth_iff {sort : SortFunction} (hsort : Sorts sort) (c : KeyCache W) (start : Name)
    {sep : Name} (hsep : sep ≠ []) {depth : ℕ} (hdepth : 1 ≤ depth) (by' : SortBy) (power : Bool) :
    CutsAtDepth sort c start sep depth by' power ↔
      depth = 1 ∨ ∀ name ∈ c.keyMap.keys, head start sep <+: name →
        ¬sep <:+: name.drop (head start sep).length := by
  obtain ⟨d, rfl⟩ : ∃ d, depth = d + 1 := ⟨depth - 1, by omega⟩
  constructor
  · intro h
    rw [or_iff_not_imp_left]
    intro hd name hname hpre
    have hleaf := h.isLeaf hsort hsep (by omega) hname hpre
    exact h.not_infix_of_isLeaf hsort hsep hname hpre hleaf
  · intro h
    have hcond : ∀ {name : Name}, name ∈ c.keyMap.keys → head start sep <+: name →
        d + 1 = 1 ∨ ¬sep <:+: name.drop (head start sep).length :=
      fun hname hpre => h.imp id fun hall => hall _ hname hpre
    obtain ⟨res, hres, hlt, hbranches⟩ := tree_branch hsep hsort c start d by' power
    refine ⟨⟨res, hres, hlt, fun b => ?_⟩, ⟨_, select_eq _ _ _ _ _, ?_⟩⟩
    · rw [hbranches]
      refine exists_congr fun name => and_congr_right fun hname => and_congr_right fun hpre => ?_
      rcases hcond hname hpre with hd | hno
      · rw [hd, not_isLeaf_one_iff]
      · have hnone := (firstAt_eq_none_iff hsep).mpr hno
        have hleaf := (isLeaf_iff hsep hdepth (.inr hno)).mpr hnone
        simp [hnone, hleaf]
    · rw [tree_leaf hsep hsort, Option.some.injEq]
      apply List.filterMap_congr
      intro item hitem
      obtain ⟨hname, hpre⟩ := (mem_selected_names hsort c _ by' power _).mp (List.mem_map_of_mem hitem)
      simp only [leafOf, isLeaf_iff hsep hdepth (hcond hname hpre)]

/-- A cache with the given names. -/
def ofNames (W : Wrtstat) (names : List Name) : KeyCache W :=
  names.foldl (fun c name => (c.create 0 name 0).2) (KeyCache.new { resolution := 1 })

theorem tree_cuts_at_depth_one :
    CutsAtDepth insertionSort (ofNames (Wrtstat.reference 1 false) [[97, 126, 98, 126, 99], [97]]) [97] [126] 1
      .avg true :=
  (tree_cuts_at_depth_iff sorts_insertionSort _ [97] (by decide) (by decide) .avg true).mpr (.inl rfl)

/-- Two separators deep, `a~b~c` belongs to the branch `a~b`, and `tree` returns `a`. -/
theorem tree_cuts_at_first_separator :
    let c := ofNames (Wrtstat.reference 1 false) [[97, 126, 98, 126, 99]]
    c.tree insertionSort [] [126] 2 0 0 .branch .avg true = some [([97], 0)] ∧
      cutAt [126] 2 [97, 126, 98, 126, 99] = [97, 126, 98] ∧
      ¬CutsAtDepth insertionSort c [] [126] 2 .avg true := by
  have htree : (ofNames (Wrtstat.reference 1 false) [[97, 126, 98, 126, 99]]).tree insertionSort [] [126] 2 0 0
      .branch .avg true = some [([97], 0)] := by decide +kernel
  refine ⟨htree, by decide, fun h => ?_⟩
  obtain ⟨res, hres, -, hmem⟩ := h.branches
  rw [htree, Option.some.injEq] at hres
  subst hres
  have hin := (hmem [97, 126, 98]).mpr ⟨[97, 126, 98, 126, 99], by decide +kernel, by decide, by decide, by decide⟩
  exact absurd hin (by decide)

end WfcBtp.KeyCache
