import WfcBtp.Library.Pages
import WfcBtp.Library.Separators
import WfcBtp.Model.KeyCacheSelect

/-!
# What the queries find

The scans of `select` and `tree` in closed form: the cached names that start with a head,
and what the first separator behind the head makes of each.
-/

namespace WfcBtp
open Library

variable {W : Wrtstat}

/-! ### Sorting -/

/-- What `std::sort` asks of a comparator. -/
structure StrictWeakOrder {α : Type} (lt : α → α → Bool) : Prop where
  asymm : ∀ a b, lt a b = true → lt b a = false
  negTrans : ∀ a b c, lt a b = false → lt b c = false → lt a c = false

/-- What `std::sort` guarantees for such a comparator. -/
structure Sorts (sort : SortFunction) : Prop where
  perm : ∀ (α : Type) (lt : α → α → Bool) (l : List α), StrictWeakOrder lt → (sort α lt l).Perm l
  sorted : ∀ (α : Type) (lt : α → α → Bool) (l : List α), StrictWeakOrder lt →
    (sort α lt l).Pairwise fun a b => lt b a = false

/-- Comparing by a value. -/
lemma strictWeakOrder_of_key {α κ : Type} [LinearOrder κ] (key : α → κ) :
    StrictWeakOrder fun a b => decide (key a < key b) where
  asymm a b h := by
    have hlt : key a < key b := by simpa using h
    simpa using hlt.le
  negTrans a b c hab hbc := by
    have hba : key b ≤ key a := by simpa using hab
    have hcb : key c ≤ key b := by simpa using hbc
    simpa using hcb.trans hba

lemma StrictWeakOrder.swap {α : Type} {lt : α → α → Bool} (h : StrictWeakOrder lt) :
    StrictWeakOrder fun a b => lt b a where
  asymm a b hab := h.asymm b a hab
  negTrans a b c hab hbc := h.negTrans c b a hbc hab

lemma strictWeakOrder_createCompare (by' : SortBy) : StrictWeakOrder (createCompare by') := by
  cases by' with
  | nosort => exact ⟨fun _ _ h => absurd h (by simp [createCompare]), fun _ _ _ _ _ => rfl⟩
  | count => exact (strictWeakOrder_of_key fun agn : Name × AggregatedInfo => agn.2.count).swap
  | lossy => exact (strictWeakOrder_of_key fun agn : Name × AggregatedInfo => agn.2.lossy).swap
  | avg => exact (strictWeakOrder_of_key fun agn : Name × AggregatedInfo => agn.2.avg).swap
  | perc50 => exact (strictWeakOrder_of_key fun agn : Name × AggregatedInfo => agn.2.perc50).swap
  | perc80 => exact (strictWeakOrder_of_key fun agn : Name × AggregatedInfo => agn.2.perc80).swap
  | perc95 => exact (strictWeakOrder_of_key fun agn : Name × AggregatedInfo => agn.2.perc95).swap
  | perc99 => exact (strictWeakOrder_of_key fun agn : Name × AggregatedInfo => agn.2.perc99).swap
  | perc100 => exact (strictWeakOrder_of_key fun agn : Name × AggregatedInfo => agn.2.perc100).swap
  | min => exact (strictWeakOrder_of_key fun agn : Name × AggregatedInfo => agn.2.min).swap
  | max => exact (strictWeakOrder_of_key fun agn : Name × AggregatedInfo => agn.2.max).swap

/-- Sorting by insertion. -/
def insertionSort : SortFunction := fun _ lt l => l.insertionSort fun a b => lt b a = false

lemma sorts_insertionSort : Sorts insertionSort where
  perm _ _ _ _ := List.perm_insertionSort _ _
  sorted α lt l h := by
    have : Std.Total fun a b => lt b a = false := ⟨fun a b => by
      cases hab : lt a b with
      | false => exact .inr rfl
      | true => exact .inl (h.asymm a b hab)⟩
    have : IsTrans α fun a b => lt b a = false := ⟨fun a b c hab hbc => h.negTrans c b a hbc hab⟩
    exact List.pairwise_insertionSort _ l

/-! ### Searching for the separator -/

lemma checkPrefix_eq (value start : Name) : checkPrefix value start = decide (start <+: value) := by
  unfold checkPrefix
  cases start with
  | nil => simp
  | cons c rest =>
    simp only [List.isEmpty_cons, Bool.not_false, if_true]
    split_ifs with hlen
    · have hnot : ¬c :: rest <+: value := fun hpre => absurd hpre.length_le (by omega)
      exact (decide_eq_false hnot).symm
    · rw [Bool.eq_iff_iff, beq_iff_eq, decide_eq_true_eq, List.prefix_iff_eq_take]
      exact eq_comm

lemma checkSuffix_eq (value ending : Name) : checkSuffix value ending = decide (ending <:+ value) := by
  unfold checkSuffix
  cases ending with
  | nil => simp
  | cons c rest =>
    simp only [List.isEmpty_cons, Bool.not_false, if_true]
    split_ifs with hlen
    · have hnot : ¬c :: rest <:+ value := fun hsuf => absurd hsuf.length_le (by omega)
      exact (decide_eq_false hnot).symm
    · rw [Bool.eq_iff_iff, beq_iff_eq, decide_eq_true_eq, List.suffix_iff_eq_drop]
      exact eq_comm

lemma findLoop_eq {sep : Name} (hsep : sep ≠ []) (l : Name) (i : ℕ) :
    findLoop sep l i = (firstAt sep l).map (i + ·) := by
  have hhead : findLoop sep l i = (occurrencesFrom sep l 0 i).head? := by
    induction l generalizing i with
    | nil =>
      cases sep with
      | nil => exact absurd rfl hsep
      | cons c rest => rfl
    | cons c rest ih =>
      rw [findLoop, occurrencesFrom, ih]
      simp only [List.isPrefixOf_iff_prefix]
      split_ifs <;> rfl
  ext p
  rw [hhead, head?_occurrencesFrom hsep, Option.map_eq_some_iff]
  constructor
  · rintro ⟨q, rfl, hq⟩
    exact ⟨q, (firstAt_eq_some_iff hsep).mpr hq, rfl⟩
  · rintro ⟨q, hq, rfl⟩
    exact ⟨q, rfl, (firstAt_eq_some_iff hsep).mp hq⟩

/-- From zero on, a search for a separator finds the first one. -/
lemma strFind_zero {sep : Name} (hsep : sep ≠ []) (l : Name) : strFind l sep 0 = firstAt sep l := by
  rw [strFind, if_neg (Nat.not_lt_zero _), List.drop_zero, findLoop_eq hsep]
  simp

lemma findLoop_add (sep l : Name) (i k : ℕ) : findLoop sep l (k + i) = (findLoop sep l i).map (k + ·) := by
  induction l generalizing i with
  | nil =>
    rw [findLoop, findLoop]
    split_ifs <;> rfl
  | cons c rest ih =>
    rw [findLoop, findLoop, Nat.add_assoc, ih]
    split_ifs <;> rfl

/-- A search from the end of the head on is one in what stands behind it. -/
lemma strFind_append (sep head rest : Name) :
    strFind (head ++ rest) sep head.length = (strFind rest sep 0).map (head.length + ·) := by
  rw [strFind, strFind, if_neg (by rw [List.length_append]; omega), if_neg (Nat.not_lt_zero _), List.drop_left,
    List.drop_zero]
  exact findLoop_add sep rest 0 head.length

lemma findLoop_found {sep l : Name} {i p : ℕ} (h : findLoop sep l i = some p) :
    ∃ j ≤ l.length, p = i + j ∧ sep.isPrefixOf (l.drop j) = true := by
  induction l generalizing i with
  | nil =>
    rw [findLoop] at h
    split_ifs at h with hpre
    exact ⟨0, le_rfl, (Option.some.inj h).symm, hpre⟩
  | cons c rest ih =>
    rw [findLoop] at h
    split_ifs at h with hpre
    · exact ⟨0, Nat.zero_le _, (Option.some.inj h).symm, hpre⟩
    · obtain ⟨j, hj, rfl, hfound⟩ := ih h
      exact ⟨j + 1, Nat.succ_le_succ hj, by omega, hfound⟩

/-- A search from where the separator was found finds it there again. -/
lemma strFind_found {sep head rest : Name} {p : ℕ} (h : strFind rest sep 0 = some p) :
    strFind (head ++ rest) sep (head.length + p) = some (head.length + p) := by
  rw [strFind, if_neg (Nat.not_lt_zero _), List.drop_zero] at h
  obtain ⟨j, hj, rfl, hfound⟩ := findLoop_found h
  rw [Nat.zero_add, strFind, if_neg (by rw [List.length_append]; omega), ← List.drop_drop, List.drop_left]
  cases hrest : rest.drop j with
  | nil =>
    rw [hrest] at hfound
    rw [findLoop, if_pos hfound]
  | cons c tail =>
    rw [hrest] at hfound
    rw [findLoop, if_pos hfound]

end WfcBtp

namespace WfcBtp.KeyCache
open Library

variable {W : Wrtstat} {ν : Type}

/-! ### Selecting -/

/-- The cached keys whose names start with `head`. -/
def under (c : KeyCache W) (head : Name) : List (Name × KeyAggregator W) :=
  c.keyMap.entries.filter fun e => head <+: e.1

lemma mem_under_names (c : KeyCache W) (head name : Name) :
    name ∈ (c.under head).map Prod.fst ↔ name ∈ c.keyMap.keys ∧ head <+: name := by
  simp only [under, OrderedMap.keys, List.mem_map, List.mem_filter, decide_eq_true_eq]
  constructor
  · rintro ⟨e, ⟨he, hpre⟩, rfl⟩
    exact ⟨⟨e, he, rfl⟩, hpre⟩
  · rintro ⟨⟨e, he, rfl⟩, hpre⟩
    exact ⟨e, ⟨he, hpre⟩, rfl⟩

lemma under_names_nodup (c : KeyCache W) (head : Name) : ((c.under head).map Prod.fst).Nodup :=
  c.keyMap.keys_nodup.sublist (List.filter_sublist.map Prod.fst)

/-- The keys among those that a scan from `start` on goes through whose names end right. -/
def matching (start ending : Name) (l : List (Name × ν)) : List (Name × ν) :=
  (l.takeWhile fun e => start <+: e.1).filter fun e => ending <:+ e.1

lemma matching_cons_of_not {start ending : Name} {e : Name × ν} (h : ¬start <+: e.1) (l : List (Name × ν)) :
    matching start ending (e :: l) = [] := by
  simp [matching, h]

lemma matching_cons_of_match {start ending : Name} {e : Name × ν} (h : start <+: e.1) (h' : ending <:+ e.1)
    (l : List (Name × ν)) : matching start ending (e :: l) = e :: matching start ending l := by
  simp [matching, h, h']

lemma matching_cons_of_other {start ending : Name} {e : Name × ν} (h : start <+: e.1) (h' : ¬ending <:+ e.1)
    (l : List (Name × ν)) : matching start ending (e :: l) = matching start ending l := by
  simp [matching, h, h']

/-- The loop counts the offset down and the result up to the limit over the matching names only. -/
lemma selectLoop_eq (start ending : Name) (l : List (Name × ν)) (offset limit : ℕ) (result : List NameValue)
    (h : limit = 0 ∨ result.length < limit) :
    selectLoop start ending l offset limit result =
      result ++ page offset (limit - result.length) ((matching start ending l).map fun e => (e.1, 0)) := by
  induction l generalizing offset result with
  | nil => simp [selectLoop, matching]
  | cons e rest ih =>
    rw [selectLoop, checkPrefix_eq, checkSuffix_eq]
    by_cases hpre : start <+: e.1
    · by_cases hsuf : ending <:+ e.1
      · rw [matching_cons_of_match hpre hsuf, List.map_cons]
        simp only [hpre, hsuf, decide_true, Bool.not_true, Bool.false_eq_true, if_false]
        cases offset with
        | succ offset =>
          rw [if_pos (Nat.succ_ne_zero offset), Nat.add_sub_cancel, ih offset result h, page_succ_cons]
        | zero =>
          simp only [ne_eq, not_true_eq_false, if_false]
          have hlen : (result ++ [(e.1, (0 : ℤ))]).length = result.length + 1 := by simp
          by_cases hlast : limit ≠ 0 ∧ (result ++ [(e.1, (0 : ℤ))]).length = limit
          · have hone : limit - result.length = 1 := by omega
            rw [if_pos hlast, hone, page_zero_one_cons]
          · have hne : limit - result.length ≠ 1 := by omega
            rw [if_neg hlast, ih 0 _ (by omega), page_zero_cons hne, hlen, List.append_assoc,
              Nat.sub_add_eq, List.singleton_append]
      · rw [matching_cons_of_other hpre hsuf]
        simp only [hpre, hsuf, decide_true, decide_false, Bool.not_true, Bool.not_false, Bool.false_eq_true,
          if_false, if_true]
        exact ih offset result h
    · rw [matching_cons_of_not hpre]
      simp [hpre]

lemma selectionLoop_eq (start ending : Name) (info : ν → AggregatedInfo) (l : List (Name × ν))
    (selection : List (Name × AggregatedInfo)) :
    selectionLoop start ending info l selection =
      selection ++ (matching start ending l).map fun e => (e.1, info e.2) := by
  induction l generalizing selection with
  | nil => simp [selectionLoop, matching]
  | cons e rest ih =>
    simp only [selectionLoop, checkPrefix_eq, checkSuffix_eq, ih]
    by_cases hpre : start <+: e.1
    · by_cases hsuf : ending <:+ e.1
      · simp [matching_cons_of_match hpre hsuf, hpre, hsuf]
      · simp [matching_cons_of_other hpre hsuf, hpre, hsuf]
    · simp [matching_cons_of_not hpre, hpre]

/-- The scan from the lower bound of the prefix on misses no name. -/
lemma matching_lowerBound (c : KeyCache W) (start ending : Name) :
    matching start ending (c.keyMap.lowerBound start) =
      c.keyMap.entries.filter fun e => start <+: e.1 ∧ ending <:+ e.1 := by
  rw [matching, OrderedMap.takeWhile_lowerBound, List.filter_filter]
  congr
  funext e
  rw [Bool.decide_and, Bool.and_comm]

lemma matching_lowerBound_nil (c : KeyCache W) (start : Name) :
    matching start [] (c.keyMap.lowerBound start) = c.under start := by
  rw [matching_lowerBound, under]
  simp only [List.nil_suffix, and_true]

/-- All names with a prefix, with the values they are sorted by. -/
def selected (sort : SortFunction) (c : KeyCache W) (head : Name) (by' : SortBy) (power : Bool) :
    List NameValue :=
  if by' = .nosort then (c.under head).map fun e => (e.1, 0)
  else (sort _ (createCompare by') ((c.under head).map fun e => (e.1, e.2.getAggregatedInfo power))).map
    fun agn => (agn.1, getByValue by' agn.2)

lemma select_eq (sort : SortFunction) (c : KeyCache W) (head : Name) (by' : SortBy) (power : Bool) :
    c.select sort head [] 0 0 by' power = some (c.selected sort head by' power) := by
  unfold select selected
  split_ifs with hby
  · rw [selectNames, selectLoop_eq _ _ _ _ _ _ (.inl rfl), matching_lowerBound_nil]
    rfl
  · simp only [selectionLoop_eq, matching_lowerBound_nil, List.nil_append, Nat.not_lt_zero, if_false,
      ne_eq, not_true_eq_false, false_and, range, Nat.zero_le, le_refl, and_self, if_true, List.drop_zero,
      Nat.sub_zero, List.take_length, Option.map_some]

/-- Sorting only changes the order. -/
lemma selected_names_perm {sort : SortFunction} (hsort : Sorts sort) (c : KeyCache W) (head : Name)
    (by' : SortBy) (power : Bool) :
    ((c.selected sort head by' power).map Prod.fst).Perm ((c.under head).map Prod.fst) := by
  unfold selected
  split_ifs with hby
  · rw [List.map_map]
    exact List.Perm.refl _
  · have hperm := (hsort.perm _ (createCompare by')
      ((c.under head).map fun e => (e.1, e.2.getAggregatedInfo power)) (strictWeakOrder_createCompare by')).map
        Prod.fst
    rw [List.map_map] at hperm ⊢
    exact hperm

lemma mem_selected_names {sort : SortFunction} (hsort : Sorts sort) (c : KeyCache W) (head : Name)
    (by' : SortBy) (power : Bool) (name : Name) :
    name ∈ (c.selected sort head by' power).map Prod.fst ↔ name ∈ c.keyMap.keys ∧ head <+: name := by
  rw [(selected_names_perm hsort c head by' power).mem_iff, mem_under_names]

/-! ### Leaves and branches -/

/-- So the loop of `tree` ends where it first found the separator, whatever the depth. -/
lemma cutPos_append (sep head rest : Name) (depth : ℕ) :
    cutPos (head ++ rest) sep (depth + 1) head.length = (strFind rest sep 0).map (head.length + ·) := by
  rw [cutPos, strFind_append]
  cases hfirst : strFind rest sep 0 with
  | none => rfl
  | some p =>
    change cutPos (head ++ rest) sep depth (head.length + p) = some (head.length + p)
    induction depth with
    | zero => rfl
    | succ depth ih =>
      rw [cutPos, strFind_found hfirst]
      exact ih

/-- The prefix that `tree` selects by. -/
def head (start sep : Name) : Name := if start.isEmpty then [] else start ++ sep

lemma ite_head (start sep : Name) : (if start.isEmpty then [] else start ++ sep) = head start sep := rfl

/-- Behind the head of the name there is a separator. -/
def isBranch (head sep name : Name) : Bool := (strFind (name.drop head.length) sep 0).isSome

/-- What stands behind the head of the name, up to the first separator. -/
def nodeText (head sep name : Name) : Name :=
  match strFind (name.drop head.length) sep 0 with
  | none => name.drop head.length
  | some p => (name.drop head.length).take p

/-- Whether a mode lists the branches, or the leaves. -/
def lists (node : TreeNode) (branch : Bool) : Bool :=
  match node with
  | .any => true
  | .leaf => !branch
  | .branch => branch

/-- The loop of `tree` lists the text of every name its mode is about. -/
lemma treeLoop_eq (head sep : Name) (depth : ℕ) (node : TreeNode) (l res : List NameValue)
    (hl : ∀ item ∈ l, head <+: item.1) :
    treeLoop head sep (depth + 1) node l res =
      res ++ (l.filter fun item => lists node (isBranch head sep item.1)).map fun item =>
        (nodeText head sep item.1, item.2) := by
  induction l generalizing res with
  | nil => simp [treeLoop]
  | cons item rest ih =>
    have hrest := fun res => ih res fun item' h' => hl item' (List.mem_cons_of_mem _ h')
    obtain ⟨tail, htail⟩ := hl item List.mem_cons_self
    have hdrop : item.1.drop head.length = tail := by rw [← htail, List.drop_left]
    have hcut := cutPos_append sep head tail depth
    rw [treeLoop, List.filter_cons, isBranch, ← htail, hcut, htail, hdrop]
    cases hfirst : strFind tail sep 0 with
    | none =>
      have htext : nodeText head sep item.1 = tail := by simp [nodeText, hdrop, hfirst]
      cases node <;> simp [lists, hrest, htext]
    | some p =>
      have htext : nodeText head sep item.1 = tail.take p := by simp [nodeText, hdrop, hfirst]
      have hfind : strFind item.1 sep (head.length + p) = some (head.length + p) := by
        rw [← htail]
        exact strFind_found hfirst
      cases node <;> simp [lists, hrest, htext, hfind]

/-- A name without a separator behind the head, as `tree` lists it. -/
def leafOf (head sep : Name) (item : NameValue) : Option NameValue :=
  if firstAt sep (item.1.drop head.length) = none then some (item.1.drop head.length, item.2) else none

/-- The part of a name between the head and the first separator behind it. -/
def branchOf (head sep : Name) (item : NameValue) : Option NameValue :=
  (firstAt sep (item.1.drop head.length)).map fun p => ((item.1.drop head.length).take p, item.2)

lemma treeLoop_filterMap {head sep : Name} (hsep : sep ≠ []) (depth : ℕ) (l res : List NameValue)
    (hl : ∀ item ∈ l, head <+: item.1) :
    treeLoop head sep (depth + 1) .leaf l res = res ++ l.filterMap (leafOf head sep) ∧
      treeLoop head sep (depth + 1) .branch l res = res ++ l.filterMap (branchOf head sep) := by
  have hlist : ∀ {node : TreeNode} {f : NameValue → Option NameValue},
      (∀ item, f item = if lists node (isBranch head sep item.1) then
        some (nodeText head sep item.1, item.2) else none) →
      treeLoop head sep (depth + 1) node l res = res ++ l.filterMap f := by
    intro node f hf
    rw [treeLoop_eq head sep depth node l res hl, ← List.filterMap_eq_map, List.filterMap_filter]
    congr 2
    funext item
    rw [hf]
    rfl
  refine ⟨hlist fun item => ?_, hlist fun item => ?_⟩
  · unfold leafOf lists isBranch nodeText
    rw [strFind_zero hsep]
    cases firstAt sep (item.1.drop head.length) <;> rfl
  · unfold branchOf lists isBranch nodeText
    rw [strFind_zero hsep]
    cases firstAt sep (item.1.drop head.length) <;> rfl

lemma uniqueNames_sorted {l : List NameValue} (h : (l.map Prod.fst).Pairwise (· ≤ ·)) :
    ((uniqueNames l).map Prod.fst).Pairwise (· < ·) ∧
      ∀ name, name ∈ (uniqueNames l).map Prod.fst ↔ name ∈ l.map Prod.fst := by
  induction l with
  | nil => exact ⟨List.Pairwise.nil, fun name => Iff.rfl⟩
  | cons a rest ih =>
    obtain ⟨hhd, hrest⟩ := List.pairwise_cons.mp h
    obtain ⟨hlt, hmem⟩ := ih hrest
    have hle : ∀ name ∈ (uniqueNames rest).map Prod.fst, a.1 ≤ name := fun name hn => hhd name ((hmem name).mp hn)
    rw [uniqueNames]
    cases hu : uniqueNames rest with
    | nil =>
      rw [hu] at hmem
      refine ⟨List.pairwise_singleton _ _, fun name => ?_⟩
      have hnone : name ∉ rest.map Prod.fst := fun hn => absurd ((hmem name).mpr hn) List.not_mem_nil
      simp only [List.map_cons, List.mem_cons, hnone, List.map_nil, List.not_mem_nil]
    | cons b rest' =>
      rw [hu] at hlt hmem hle
      by_cases hab : a.1 = b.1
      · simp only [hab, if_true]
        refine ⟨by simpa [hab] using hlt, fun name => ?_⟩
        rw [List.map_cons, List.map_cons, List.mem_cons, List.mem_cons, ← hmem name, hab, List.map_cons,
          List.mem_cons, or_self_left]
      · simp only [hab, if_false]
        refine ⟨?_, fun name => ?_⟩
        · have hb : a.1 < b.1 := lt_of_le_of_ne (hle b.1 List.mem_cons_self) hab
          rw [List.map_cons, List.pairwise_cons]
          refine ⟨fun name hn => ?_, hlt⟩
          rcases List.mem_cons.mp hn with rfl | hn
          · exact hb
          · exact hb.trans ((List.pairwise_cons.mp hlt).1 name hn)
        · rw [List.map_cons, List.mem_cons, List.map_cons (l := rest), List.mem_cons, hmem name]

lemma tree_leaf {sep : Name} (hsep : sep ≠ []) {sort : SortFunction} (hsort : Sorts sort) (c : KeyCache W)
    (start : Name) (depth : ℕ) (by' : SortBy) (power : Bool) :
    c.tree sort start sep (depth + 1) 0 0 .leaf by' power =
      some ((c.selected sort (head start sep) by' power).filterMap (leafOf (head start sep) sep)) := by
  have hpre : ∀ item ∈ c.selected sort (head start sep) by' power, head start sep <+: item.1 := by
    intro item hitem
    exact ((mem_selected_names hsort c _ by' power _).mp (List.mem_map_of_mem hitem)).2
  unfold tree
  rw [if_neg (Nat.succ_ne_zero depth)]
  dsimp only
  rw [ite_head, if_pos rfl, select_eq]
  cases hsel : c.selected sort (head start sep) by' power with
  | nil => rfl
  | cons item rest =>
    rw [hsel] at hpre
    have hloop := (treeLoop_filterMap hsep depth (item :: rest) [] hpre).1
    rw [List.nil_append] at hloop
    simp only [ne_eq, not_true_eq_false, if_false, if_true, false_and]
    exact congrArg some hloop

/-- The branches of the names under a head, one for every name that has one. -/
def branches (c : KeyCache W) (head sep : Name) : List NameValue :=
  ((c.under head).map fun e => (e.1, 0)).filterMap (branchOf head sep)

lemma mem_branches_names (c : KeyCache W) (head sep b : Name) :
    b ∈ (c.branches head sep).map Prod.fst ↔ ∃ name ∈ c.keyMap.keys, head <+: name ∧
      ∃ p, firstAt sep (name.drop head.length) = some p ∧ (name.drop head.length).take p = b := by
  rw [branches, List.mem_map]
  constructor
  · rintro ⟨item, hitem, rfl⟩
    obtain ⟨item', hitem', hbranch⟩ := List.mem_filterMap.mp hitem
    obtain ⟨e, he, rfl⟩ := List.mem_map.mp hitem'
    obtain ⟨p, hp, rfl⟩ := Option.map_eq_some_iff.mp hbranch
    obtain ⟨hkey, hhead⟩ := (c.mem_under_names _ _).mp (List.mem_map_of_mem (f := Prod.fst) he)
    exact ⟨e.1, hkey, hhead, p, hp, rfl⟩
  · rintro ⟨name, hkey, hhead, p, hp, rfl⟩
    obtain ⟨e, he, rfl⟩ := List.mem_map.mp ((c.mem_under_names _ _).mpr ⟨hkey, hhead⟩)
    have hbranch : branchOf head sep (e.1, 0) = some ((e.1.drop head.length).take p, 0) := by
      simp only [branchOf, hp, Option.map_some]
    exact ⟨_, List.mem_filterMap.mpr ⟨(e.1, 0), List.mem_map.mpr ⟨e, he, rfl⟩, hbranch⟩, rfl⟩

lemma strictWeakOrder_names : StrictWeakOrder fun a b : NameValue => decide (a.1 < b.1) where
  asymm a b h := by
    have hlt : a.1 < b.1 := by simpa using h
    simpa using hlt.le
  negTrans a b c hab hbc := by
    have hba : b.1 ≤ a.1 := by simpa using hab
    have hcb : c.1 ≤ b.1 := by simpa using hbc
    simpa using hcb.trans hba

lemma tree_branch_eq {sep : Name} (hsep : sep ≠ []) {sort : SortFunction} (hsort : Sorts sort) (c : KeyCache W)
    (start : Name) (depth : ℕ) (by' : SortBy) (power : Bool) :
    c.tree sort start sep (depth + 1) 0 0 .branch by' power =
      some (uniqueNames (sort _ (fun a b => decide (a.1 < b.1)) (c.branches (head start sep) sep))) := by
  have hpre : ∀ item ∈ (c.under (head start sep)).map fun e => (e.1, (0 : ℤ)), head start sep <+: item.1 := by
    intro item hitem
    obtain ⟨e, he, rfl⟩ := List.mem_map.mp hitem
    exact ((c.mem_under_names _ _).mp (List.mem_map_of_mem he)).2
  have hloop := (treeLoop_filterMap hsep depth _ [] hpre).2
  rw [List.nil_append] at hloop
  unfold tree
  rw [if_neg (Nat.succ_ne_zero depth)]
  dsimp only
  rw [ite_head, if_neg (by decide), select_eq, selected, if_pos rfl, branches, ← hloop]
  cases hunder : c.under (head start sep) with
  | nil =>
    have hnil := hsort.perm _ _ [] strictWeakOrder_names
    rw [List.perm_nil] at hnil
    rw [List.map_nil, treeLoop, hnil]
    rfl
  | cons e rest => rfl

/-- The branches come sorted and without repetitions. -/
lemma tree_branch {sep : Name} (hsep : sep ≠ []) {sort : SortFunction} (hsort : Sorts sort) (c : KeyCache W)
    (start : Name) (depth : ℕ) (by' : SortBy) (power : Bool) :
    ∃ res, c.tree sort start sep (depth + 1) 0 0 .branch by' power = some res ∧
      (res.map Prod.fst).Pairwise (· < ·) ∧
      ∀ b, b ∈ res.map Prod.fst ↔ ∃ name ∈ c.keyMap.keys, head start sep <+: name ∧
        ∃ p, firstAt sep (name.drop (head start sep).length) = some p ∧
          (name.drop (head start sep).length).take p = b := by
  have hperm := hsort.perm _ _ (c.branches (head start sep) sep) strictWeakOrder_names
  have hsorted : ((sort _ (fun a b => decide (a.1 < b.1)) (c.branches (head start sep) sep)).map
      Prod.fst).Pairwise (· ≤ ·) := by
    rw [List.pairwise_map]
    exact (hsort.sorted _ _ _ strictWeakOrder_names).imp fun hab => by simpa using hab
  obtain ⟨hlt, hmem⟩ := uniqueNames_sorted hsorted
  refine ⟨_, tree_branch_eq hsep hsort c start depth by' power, hlt, fun b => ?_⟩
  rw [hmem, (hperm.map Prod.fst).mem_iff, mem_branches_names]

end WfcBtp.KeyCache
