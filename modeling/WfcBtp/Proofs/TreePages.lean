import Mathlib.Data.List.Dedup
import WfcBtp.Model.WrtstatReference
import WfcBtp.Proofs.SelectPages
import WfcBtp.Proofs.TreeDepth

/-!
# The node modes of a tree query and its pages

Every name under the head is a leaf or a branch, whatever the separator is, and the modes
list the texts of one kind or of both. What is listed is then cut to a page, with an end
that is computed in 64 bits.
-/

namespace WfcBtp
open Library

variable {W : Wrtstat}

namespace KeyCache

/-! ### The whole answer -/

/-- What the loop of `tree` lists. -/
def nodes (sort : SortFunction) (c : KeyCache W) (start sep : Name) (node : TreeNode) (by' : SortBy) (power : Bool) :
    List NameValue :=
  ((c.selected sort (head start sep) (if node = .leaf then by' else .nosort) power).filter fun item =>
    lists node (isBranch (head start sep) sep item.1)).map fun item => (nodeText (head start sep) sep item.1, item.2)

/-- The answer of `tree` before it is cut to a page. -/
def answer (sort : SortFunction) (c : KeyCache W) (start sep : Name) (node : TreeNode) (by' : SortBy) (power : Bool) :
    List NameValue :=
  if node ≠ .leaf then
    uniqueNames (sort _ (fun a b => decide (a.1 < b.1)) (c.nodes sort start sep node by' power))
  else c.nodes sort start sep node by' power

/-- The end of `tree`, which cuts its result to a page. -/
def treePage (res : List NameValue) (offset limit : ℕ) : Option (List NameValue) :=
  if offset = 0 then
    if limit ≠ 0 ∧ res.length > limit then some (res.take limit) else some res
  else if res.length < offset then some []
  else
    let end' := if res.length < (offset + limit) % 2 ^ 64 then res.length else offset + limit
    range res offset end'

section Answer

variable {sort : SortFunction} (hsort : Sorts sort) (c : KeyCache W) (start sep : Name) (node : TreeNode)
  (by' : SortBy) (power : Bool)

include hsort

lemma sort_names_nil : sort _ (fun a b : NameValue => decide (a.1 < b.1)) [] = [] := by
  have hnil := hsort.perm _ _ [] strictWeakOrder_names
  rwa [List.perm_nil] at hnil

lemma tree_eq (depth offset limit : ℕ) :
    c.tree sort start sep (depth + 1) offset limit node by' power =
      treePage (c.answer sort start sep node by' power) offset limit := by
  have hpre : ∀ item ∈ c.selected sort (head start sep) (if node = .leaf then by' else .nosort) power,
      head start sep <+: item.1 := by
    intro item hitem
    exact ((mem_selected_names hsort c _ _ power _).mp (List.mem_map_of_mem hitem)).2
  have hloop := treeLoop_eq (head start sep) sep depth node _ [] hpre
  rw [List.nil_append] at hloop
  unfold tree
  rw [if_neg (Nat.succ_ne_zero depth)]
  dsimp only
  rw [ite_head, select_eq]
  cases hsel : c.selected sort (head start sep) (if node = .leaf then by' else .nosort) power with
  | nil =>
    have hnodes : c.nodes sort start sep node by' power = [] := by
      rw [nodes, hsel]
      rfl
    have hanswer : c.answer sort start sep node by' power = [] := by
      rw [answer, hnodes, sort_names_nil hsort]
      exact ite_self _
    rw [hanswer, treePage]
    cases offset with
    | zero => simp
    | succ offset => simp
  | cons item rest =>
    rw [hsel] at hloop
    have hnodes : c.nodes sort start sep node by' power =
        treeLoop (head start sep) sep (depth + 1) node (item :: rest) [] := by
      rw [hloop, nodes, hsel]
    rw [treePage, answer, hnodes]

/-- The whole answer is what the page without an offset and without a limit shows. -/
lemma tree_eq_answer (depth : ℕ) :
    c.tree sort start sep (depth + 1) 0 0 node by' power = some (c.answer sort start sep node by' power) := by
  rw [tree_eq hsort, treePage]
  simp

end Answer

/-- The texts of the cached names under the head that a mode is about. -/
def nodeTexts (c : KeyCache W) (start sep : Name) (node : TreeNode) : List Name :=
  (c.keyMap.keys.filter fun name =>
    head start sep <+: name ∧ lists node (isBranch (head start sep) sep name)).map (nodeText (head start sep) sep)

lemma mem_nodeTexts (c : KeyCache W) (start sep b : Name) (node : TreeNode) :
    b ∈ c.nodeTexts start sep node ↔ ∃ name ∈ c.keyMap.keys, head start sep <+: name ∧
      lists node (isBranch (head start sep) sep name) = true ∧ nodeText (head start sep) sep name = b := by
  simp only [nodeTexts, List.mem_map, List.mem_filter, decide_eq_true_eq, and_assoc]

/-- The text of a leaf is the rest of its name. -/
lemma append_nodeText_of_leaf {head sep name : Name} (hpre : head <+: name) (hleaf : isBranch head sep name = false) :
    head ++ nodeText head sep name = name := by
  obtain ⟨tail, rfl⟩ := hpre
  rw [isBranch, List.drop_left, Option.isSome_eq_false_iff, Option.isNone_iff_eq_none] at hleaf
  rw [nodeText, List.drop_left, hleaf]

section Names

variable {sort : SortFunction} (hsort : Sorts sort) (c : KeyCache W) (start sep : Name) (node : TreeNode)
  (by' : SortBy) (power : Bool)

include hsort

lemma mem_nodes_names (b : Name) :
    b ∈ (c.nodes sort start sep node by' power).map Prod.fst ↔ b ∈ c.nodeTexts start sep node := by
  have hmem := mem_selected_names hsort c (head start sep) (if node = .leaf then by' else .nosort) power
  rw [mem_nodeTexts, nodes, List.map_map, List.mem_map]
  constructor
  · rintro ⟨item, hitem, rfl⟩
    obtain ⟨hitem, hlists⟩ := List.mem_filter.mp hitem
    obtain ⟨hkey, hpre⟩ := (hmem item.1).mp (List.mem_map_of_mem hitem)
    exact ⟨item.1, hkey, hpre, hlists, rfl⟩
  · rintro ⟨name, hkey, hpre, hlists, rfl⟩
    obtain ⟨item, hitem, rfl⟩ := List.mem_map.mp ((hmem name).mpr ⟨hkey, hpre⟩)
    exact ⟨item, List.mem_filter.mpr ⟨hitem, hlists⟩, rfl⟩

/-- No two leaves have the same text. -/
lemma leaves_names_nodup : ((c.nodes sort start sep .leaf by' power).map Prod.fst).Nodup := by
  have hmem := mem_selected_names hsort c (head start sep) by' power
  have hsel : ((c.selected sort (head start sep) by' power).map Prod.fst).Nodup :=
    (selected_names_perm hsort c _ by' power).nodup_iff.mpr (c.under_names_nodup _)
  have hleaves : (((c.selected sort (head start sep) by' power).map Prod.fst).filter fun name =>
      lists .leaf (isBranch (head start sep) sep name)).Nodup := hsel.filter _
  have hnames : (c.nodes sort start sep .leaf by' power).map Prod.fst =
      (((c.selected sort (head start sep) by' power).map Prod.fst).filter fun name =>
        lists .leaf (isBranch (head start sep) sep name)).map (nodeText (head start sep) sep) := by
    rw [nodes, List.filter_map, List.map_map, List.map_map]
    rfl
  rw [hnames]
  apply hleaves.map_on
  intro name hname name' hname' heq
  obtain ⟨hin, hleaf⟩ := List.mem_filter.mp hname
  obtain ⟨hin', hleaf'⟩ := List.mem_filter.mp hname'
  have hfalse : isBranch (head start sep) sep name = false := by simpa [lists] using hleaf
  have hfalse' : isBranch (head start sep) sep name' = false := by simpa [lists] using hleaf'
  rw [← append_nodeText_of_leaf ((hmem name).mp hin).2 hfalse, heq,
    append_nodeText_of_leaf ((hmem name').mp hin').2 hfalse']

/-- The answer lists each text once, and in ascending order unless it is about leaves only. -/
lemma answer_names :
    ((c.answer sort start sep node by' power).map Prod.fst).Nodup ∧
      (node ≠ .leaf → ((c.answer sort start sep node by' power).map Prod.fst).Pairwise (· < ·)) ∧
      ∀ b, b ∈ (c.answer sort start sep node by' power).map Prod.fst ↔ b ∈ c.nodeTexts start sep node := by
  have hnodes := mem_nodes_names hsort c start sep node by' power
  by_cases hleaf : node = .leaf
  · subst hleaf
    have hanswer : c.answer sort start sep .leaf by' power = c.nodes sort start sep .leaf by' power :=
      if_neg (not_not.mpr rfl)
    rw [hanswer]
    exact ⟨leaves_names_nodup hsort c start sep by' power, fun h => absurd rfl h, hnodes⟩
  · have hperm := hsort.perm _ _ (c.nodes sort start sep node by' power) strictWeakOrder_names
    have hsorted : ((sort _ (fun a b => decide (a.1 < b.1)) (c.nodes sort start sep node by' power)).map
        Prod.fst).Pairwise (· ≤ ·) := by
      rw [List.pairwise_map]
      exact (hsort.sorted _ _ _ strictWeakOrder_names).imp fun hab => by simpa using hab
    obtain ⟨hlt, hmem⟩ := uniqueNames_sorted hsorted
    rw [answer, if_pos hleaf]
    refine ⟨hlt.imp ne_of_lt, fun _ => hlt, fun b => ?_⟩
    rw [hmem, (hperm.map Prod.fst).mem_iff, hnodes]

end Names

/-! ### The modes -/

/-- What one cached name contributes to an answer. -/
def contribution (start sep : Name) (depth : ℕ) (node : TreeNode) (name : Name) : List Name :=
  (treeLoop (head start sep) sep depth node [(name, 0)] []).map Prod.fst

lemma contribution_eq {start sep name : Name} (hpre : head start sep <+: name) (depth : ℕ) (node : TreeNode) :
    contribution start sep (depth + 1) node name =
      if lists node (isBranch (head start sep) sep name) then [nodeText (head start sep) sep name] else [] := by
  have hloop := treeLoop_eq (head start sep) sep depth node [(name, 0)] [] (by simpa using hpre)
  rw [contribution, hloop]
  cases hlists : lists node (isBranch (head start sep) sep name) <;> simp [hlists]

lemma mem_contribution_iff {start sep name b : Name} (hpre : head start sep <+: name) (depth : ℕ)
    (node : TreeNode) :
    b ∈ contribution start sep (depth + 1) node name ↔
      lists node (isBranch (head start sep) sep name) = true ∧ nodeText (head start sep) sep name = b := by
  rw [contribution_eq hpre]
  cases lists node (isBranch (head start sep) sep name) <;> simp [eq_comm]

/-- Leaves and branches share out the names under the head, and the third mode lists the
texts of both. -/
theorem tree_modes_agree {sort : SortFunction} (hsort : Sorts sort) (c : KeyCache W) (start sep : Name) {depth : ℕ}
    (hdepth : 1 ≤ depth) (by' : SortBy) (power : Bool) :
    ∃ leaves branches all,
      c.tree sort start sep depth 0 0 .leaf by' power = some leaves ∧
      c.tree sort start sep depth 0 0 .branch by' power = some branches ∧
      c.tree sort start sep depth 0 0 .any by' power = some all ∧
      (∀ name ∈ c.keyMap.keys, head start sep <+: name →
        (contribution start sep depth .leaf name).length + (contribution start sep depth .branch name).length = 1) ∧
      (∀ b, b ∈ leaves.map Prod.fst ↔ ∃ name ∈ c.keyMap.keys, head start sep <+: name ∧
        b ∈ contribution start sep depth .leaf name) ∧
      (∀ b, b ∈ branches.map Prod.fst ↔ ∃ name ∈ c.keyMap.keys, head start sep <+: name ∧
        b ∈ contribution start sep depth .branch name) ∧
      (∀ b, b ∈ all.map Prod.fst ↔ b ∈ leaves.map Prod.fst ∨ b ∈ branches.map Prod.fst) ∧
      (all.map Prod.fst).Pairwise (· < ·) ∧ (leaves.map Prod.fst).Nodup := by
  obtain ⟨d, rfl⟩ : ∃ d, depth = d + 1 := ⟨depth - 1, by omega⟩
  have hnames := fun node => answer_names hsort c start sep node by' power
  have hcontributed : ∀ (node : TreeNode) (b : Name),
      b ∈ (c.answer sort start sep node by' power).map Prod.fst ↔
        ∃ name ∈ c.keyMap.keys, head start sep <+: name ∧ b ∈ contribution start sep (d + 1) node name := by
    intro node b
    rw [(hnames node).2.2, mem_nodeTexts]
    refine exists_congr fun name => and_congr_right fun _ => and_congr_right fun hpre => ?_
    exact (mem_contribution_iff hpre d node).symm
  refine ⟨_, _, _, tree_eq_answer hsort c start sep .leaf by' power d, tree_eq_answer hsort c start sep .branch by' power d,
    tree_eq_answer hsort c start sep .any by' power d, ?_, hcontributed .leaf, hcontributed .branch, ?_,
    (hnames .any).2.1 (by decide), (hnames .leaf).1⟩
  · intro name _ hpre
    rw [contribution_eq hpre, contribution_eq hpre]
    cases isBranch (head start sep) sep name <;> rfl
  · intro b
    rw [(hnames .any).2.2, (hnames .leaf).2.2, (hnames .branch).2.2, mem_nodeTexts, mem_nodeTexts, mem_nodeTexts]
    constructor
    · rintro ⟨name, hkey, hpre, -, htext⟩
      cases hbranch : isBranch (head start sep) sep name with
      | false => exact .inl ⟨name, hkey, hpre, by rw [hbranch]; rfl, htext⟩
      | true => exact .inr ⟨name, hkey, hpre, by rw [hbranch]; rfl, htext⟩
    · rintro (⟨name, hkey, hpre, -, htext⟩ | ⟨name, hkey, hpre, -, htext⟩)
      · exact ⟨name, hkey, hpre, rfl, htext⟩
      · exact ⟨name, hkey, hpre, rfl, htext⟩

theorem tree_modes_agree_without_separator :
    let c := ofNames (Wrtstat.reference 1 false) [[97], [97, 98]]
    ∃ leaves branches all, c.tree insertionSort [] [] 2 0 0 .leaf .avg true = some leaves ∧
      c.tree insertionSort [] [] 2 0 0 .branch .avg true = some branches ∧
      c.tree insertionSort [] [] 2 0 0 .any .avg true = some all ∧
      ∀ b, b ∈ all.map Prod.fst ↔ b ∈ leaves.map Prod.fst ∨ b ∈ branches.map Prod.fst := by
  intro c
  obtain ⟨leaves, branches, all, hleaf, hbranch, hany, -, -, -, hunion, -⟩ :=
    tree_modes_agree sorts_insertionSort c [] [] (show 1 ≤ 2 by decide) .avg true
  exact ⟨leaves, branches, all, hleaf, hbranch, hany, hunion⟩

/-! ### The pages -/

/-- How many texts there are for a mode. -/
def nodeCount (c : KeyCache W) (start sep : Name) (depth : ℕ) (node : TreeNode) : ℕ :=
  if depth = 0 then 0 else (c.nodeTexts start sep node).dedup.length

/-- The page has no offset, or begins behind the list or where it ends with no limit, or
has a limit and an end that is computed without an overflow. -/
def PageFits (n offset limit : ℕ) : Prop :=
  offset = 0 ∨ n < offset ∨ limit = 0 ∧ n = offset ∨ limit ≠ 0 ∧ (offset + limit < 2 ^ 64 ∨ offset + limit ≤ n)

lemma treePage_eq_page_iff {res : List NameValue} {offset limit : ℕ} (ho : offset < 2 ^ 64) (hl : limit < 2 ^ 64) :
    treePage res offset limit = some (page offset limit res) ↔ PageFits res.length offset limit := by
  unfold treePage PageFits
  by_cases hzero : offset = 0
  · rw [if_pos hzero]
    refine iff_of_true ?_ (.inl hzero)
    subst hzero
    split_ifs with hcut
    · rw [page_eq_take_drop hcut.1, List.drop_zero]
    · rw [page_eq_drop (by omega), List.drop_zero]
  · rw [if_neg hzero]
    by_cases hbehind : res.length < offset
    · rw [if_pos hbehind, page_of_length_le hbehind.le]
      exact iff_of_true rfl (.inr (.inl hbehind))
    · rw [if_neg hbehind]
      dsimp only
      by_cases hlimit : limit = 0
      · -- the end is the beginning, whatever is left
        subst hlimit
        have hmod : offset % 2 ^ 64 = offset := Nat.mod_eq_of_lt ho
        rw [Nat.add_zero, hmod, if_neg hbehind, range, if_pos ⟨le_rfl, not_lt.mp hbehind⟩, Nat.sub_self, List.take_zero,
          page_eq_drop (.inl rfl), Option.some.injEq, eq_comm, List.drop_eq_nil_iff]
        omega
      · by_cases hwrap : offset + limit < 2 ^ 64
        · have hmod : (offset + limit) % 2 ^ 64 = offset + limit := Nat.mod_eq_of_lt hwrap
          refine iff_of_true (range_eq_page (not_lt.mp hbehind) hlimit ?_) (by omega)
          rw [hmod]
          split_ifs <;> omega
        · -- the sum has wrapped to less than the offset
          have hend : ¬res.length < (offset + limit) % 2 ^ 64 := by omega
          rw [if_neg hend]
          by_cases hle : offset + limit ≤ res.length
          · exact iff_of_true (range_eq_page (not_lt.mp hbehind) hlimit (by omega)) (by omega)
          · rw [range_beyond (not_le.mp hle)]
            exact iff_of_false (by simp) (by omega)

/-- A tree query is the page of its own full answer exactly if the page fits. -/
theorem tree_pages_answer_iff {sort : SortFunction} (hsort : Sorts sort) (c : KeyCache W) (start sep : Name)
    (depth : ℕ) (node : TreeNode) (by' : SortBy) (power : Bool) :
    ∃ res, c.tree sort start sep depth 0 0 node by' power = some res ∧
      ∀ offset < 2 ^ 64, ∀ limit < 2 ^ 64,
        (c.tree sort start sep depth offset limit node by' power = some (page offset limit res) ↔
          PageFits (c.nodeCount start sep depth node) offset limit) := by
  cases depth with
  | zero =>
    refine ⟨[], rfl, fun offset _ limit _ => iff_of_true ?_ ?_⟩
    · rw [page_nil]
      rfl
    · have hcount : c.nodeCount start sep 0 node = 0 := rfl
      rw [hcount]
      unfold PageFits
      omega
  | succ depth =>
    refine ⟨_, tree_eq_answer hsort c start sep node by' power depth, fun offset ho limit hl => ?_⟩
    obtain ⟨hnodup, -, hmem⟩ := answer_names hsort c start sep node by' power
    have hperm : ((c.answer sort start sep node by' power).map Prod.fst).Perm (c.nodeTexts start sep node).dedup := by
      rw [List.perm_ext_iff_of_nodup hnodup (List.nodup_dedup _)]
      intro b
      rw [hmem, List.mem_dedup]
    have hcount : c.nodeCount start sep (depth + 1) node = (c.answer sort start sep node by' power).length := by
      rw [nodeCount, if_neg (Nat.succ_ne_zero depth), ← hperm.length_eq, List.length_map]
    rw [tree_eq hsort, hcount]
    exact treePage_eq_page_iff ho hl

theorem tree_pages_answer_of_three :
    let c := ofNames (Wrtstat.reference 1 false) [[97], [98], [99]]
    ∃ res, c.tree insertionSort [] [126] 1 0 0 .any .avg true = some res ∧
      c.tree insertionSort [] [126] 1 1 1 .any .avg true = some (page 1 1 res) := by
  intro c
  obtain ⟨res, hres, hpages⟩ := tree_pages_answer_iff sorts_insertionSort c [] [126] 1 .any .avg true
  exact ⟨res, hres, (hpages 1 (by decide) 1 (by decide)).mpr (.inr (.inr (.inr ⟨by decide, .inl (by decide)⟩)))⟩

/-- Behind the first of two nodes, no limit shows nothing and the largest one ends beyond
the list. -/
theorem tree_page_without_limit :
    let c := ofNames (Wrtstat.reference 1 false) [[97], [98]]
    c.tree insertionSort [] [126] 1 0 0 .any .avg true = some [([97], 0), ([98], 0)] ∧
      c.tree insertionSort [] [126] 1 1 0 .any .avg true = some [] ∧
      page 1 0 [(([97] : Name), (0 : ℤ)), ([98], 0)] = [([98], 0)] ∧
      c.tree insertionSort [] [126] 1 1 (2 ^ 64 - 1) .any .avg true = none := by
  decide +kernel

end KeyCache

end WfcBtp
