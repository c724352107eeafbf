import WfcBtp.Proofs.TreeDepth

/-!
# Walking the tree

A client lists the leaves of a node and descends into its branches. The names under a head
are its leaves and the names under the heads of its branches.
-/

namespace WfcBtp.KeyCache
open Library

variable {W : Wrtstat}

/-- The results of every element, one after another. -/
def collect {α β : Type} (f : α → Option (List β)) : List α → Option (List β)
  | [] => some []
  | a :: rest =>
    match f a, collect f rest with
    | some l, some ls => some (l ++ ls)
    | _, _ => none

lemma collect_perm {α β : Type} {f : α → Option (List β)} {g : α → List β} {l : List α}
    (h : ∀ a ∈ l, ∃ r, f a = some r ∧ r.Perm (g a)) : ∃ r, collect f l = some r ∧ r.Perm (l.flatMap g) := by
  induction l with
  | nil => exact ⟨[], rfl, List.Perm.refl _⟩
  | cons a rest ih =>
    obtain ⟨r, hr, hperm⟩ := h a List.mem_cons_self
    obtain ⟨rs, hrs, hperms⟩ := ih fun a' h' => h a' (List.mem_cons_of_mem _ h')
    refine ⟨r ++ rs, by rw [collect, hr, hrs], ?_⟩
    rw [List.flatMap_cons]
    exact hperm.append hperms

lemma collect_eq_none {α β : Type} {f : α → Option (List β)} {l : List α} {a : α} (ha : a ∈ l)
    (h : f a = none) : collect f l = none := by
  induction l with
  | nil => exact absurd ha List.not_mem_nil
  | cons b rest ih =>
    rcases List.mem_cons.mp ha with rfl | ha
    · rw [collect, h]
    · rw [collect, ih ha]
      cases f b <;> rfl

/-- The prefix a walk descends into a branch with. The empty prefix is the root. -/
def child (start sep b : Name) : Name := if start.isEmpty then b else start ++ sep ++ b

/-- The recursive walk from `start` on, for at most `fuel` levels. -/
def walk (sort : SortFunction) (c : KeyCache W) (sep : Name) (by' : SortBy) (power : Bool) :
    ℕ → Name → Option (List Name)
  | 0, _ => none
  | fuel + 1, start =>
    match c.tree sort start sep 1 0 0 .leaf by' power, c.tree sort start sep 1 0 0 .branch by' power with
    | some leaves, some branches =>
      (collect (fun b => walk sort c sep by' power fuel (child start sep b)) (branches.map Prod.fst)).map
        fun below => (leaves.map fun leaf => head start sep ++ leaf.1) ++ below
    | _, _ => none

/-- The cached names that start with a head. -/
def namesUnder (c : KeyCache W) (head : Name) : List Name := (c.under head).map Prod.fst

lemma mem_namesUnder {c : KeyCache W} {head name : Name} :
    name ∈ c.namesUnder head ↔ name ∈ c.keyMap.keys ∧ head <+: name :=
  c.mem_under_names head name

lemma head_child {start sep b : Name} (h : start = [] → b ≠ []) :
    head (child start sep b) sep = head start sep ++ (b ++ sep) := by
  cases start with
  | nil =>
    cases b with
    | nil => exact absurd rfl (h rfl)
    | cons c rest => rfl
  | cons c rest => simp [head, child]

section Nodes

variable {c : KeyCache W} {sep : Name} (hsep : sep ≠ []) (h : Name)

/-- The names listed as leaves are those without a separator behind the head. -/
lemma leaves_names {sort : SortFunction} (hsort : Sorts sort) (by' : SortBy) (power : Bool) :
    (((c.selected sort h by' power).filterMap (leafOf h sep)).map fun leaf => h ++ leaf.1).Perm
      ((c.namesUnder h).filter fun name => firstAt sep (name.drop h.length) = none) := by
  have hperm := selected_names_perm hsort c h by' power
  have hnames : ∀ l : List NameValue, (∀ item ∈ l, h <+: item.1) →
      (l.filterMap (leafOf h sep)).map (fun leaf => h ++ leaf.1) =
        (l.map Prod.fst).filter fun name => firstAt sep (name.drop h.length) = none := by
    intro l
    induction l with
    | nil => exact fun _ => rfl
    | cons item rest ih =>
      intro hl
      have hrest := ih fun item' h' => hl item' (List.mem_cons_of_mem _ h')
      have hitem : h ++ item.1.drop h.length = item.1 := by
        obtain ⟨tail, htail⟩ := hl item List.mem_cons_self
        rw [← htail, List.drop_left]
      by_cases hleaf : firstAt sep (item.1.drop h.length) = none
      · rw [List.filterMap_cons_some (by rw [leafOf, if_pos hleaf]), List.map_cons, List.map_cons,
          List.filter_cons_of_pos (by simpa using hleaf), hrest, hitem]
      · rw [List.filterMap_cons_none (by rw [leafOf, if_neg hleaf]), List.map_cons,
          List.filter_cons_of_neg (by simpa using hleaf), hrest]
  rw [hnames _ fun item hitem => (mem_namesUnder.mp (hperm.mem_iff.mp (List.mem_map_of_mem hitem))).2]
  exact hperm.filter _

include hsep

/-- The branch a name belongs to is what stands before the first separator. -/
lemma mem_namesUnder_branch {b name : Name} {name' : Name} {p : ℕ} (hb : firstAt sep (name'.drop h.length) = some p)
    (htake : (name'.drop h.length).take p = b) :
    name ∈ c.namesUnder (h ++ (b ++ sep)) ↔
      name ∈ c.namesUnder h ∧ ∃ q, firstAt sep (name.drop h.length) = some q ∧ (name.drop h.length).take q = b := by
  have hlen : b.length = p := by rw [← htake, length_take_of_firstAt hsep hb]
  rw [mem_namesUnder, mem_namesUnder]
  constructor
  · rintro ⟨hname, tail, htail⟩
    rw [List.append_assoc, List.append_assoc] at htail
    obtain ⟨rest', hrest'⟩ := take_append_of_firstAt hsep hb
    rw [htake] at hrest'
    rw [hrest', ← hlen] at hb
    refine ⟨⟨hname, ⟨_, htail⟩⟩, b.length, ?_, ?_⟩
    · rw [← htail, List.drop_left]
      exact firstAt_append hsep hb
    · rw [← htail, List.drop_left, List.take_left]
  · rintro ⟨⟨hname, hpre⟩, q, hq, hbq⟩
    obtain ⟨rest, hrest⟩ := take_append_of_firstAt hsep hq
    obtain ⟨tail, rfl⟩ := hpre
    rw [List.drop_left] at hrest hbq
    refine ⟨hname, rest, ?_⟩
    rw [hbq] at hrest
    rw [hrest, List.append_assoc, List.append_assoc]

/-- The names with a separator behind the head are those under the heads of its branches. -/
lemma branches_names {bs : List Name} (hnodup : bs.Nodup)
    (hbs : ∀ b, b ∈ bs ↔ ∃ name ∈ c.keyMap.keys, h <+: name ∧
      ∃ p, firstAt sep (name.drop h.length) = some p ∧ (name.drop h.length).take p = b) :
    (bs.flatMap fun b => c.namesUnder (h ++ (b ++ sep))).Perm
      ((c.namesUnder h).filter fun name => !decide (firstAt sep (name.drop h.length) = none)) := by
  have hmem : ∀ b ∈ bs, ∀ name, name ∈ c.namesUnder (h ++ (b ++ sep)) ↔
      name ∈ c.namesUnder h ∧ ∃ q, firstAt sep (name.drop h.length) = some q ∧ (name.drop h.length).take q = b := by
    intro b hb name
    obtain ⟨name', -, -, p, hp, htake⟩ := (hbs b).mp hb
    exact mem_namesUnder_branch hsep h hp htake
  refine (List.perm_ext_iff_of_nodup ?_ ((c.under_names_nodup h).filter _)).mpr fun name => ?_
  · rw [List.nodup_flatMap]
    refine ⟨fun b _ => c.under_names_nodup _, hnodup.imp_of_mem fun hb hb' hne => ?_⟩
    -- a name has one first separator, so it is under one branch only
    intro name hn hn'
    obtain ⟨-, q, hq, htake⟩ := (hmem _ hb name).mp hn
    obtain ⟨-, q', hq', htake'⟩ := (hmem _ hb' name).mp hn'
    rw [hq, Option.some.injEq] at hq'
    subst hq'
    exact hne (htake.symm.trans htake')
  · simp only [List.mem_flatMap, List.mem_filter, Bool.not_eq_true', decide_eq_false_iff_not]
    constructor
    · rintro ⟨b, hb, hn⟩
      obtain ⟨hn, q, hq, -⟩ := (hmem b hb name).mp hn
      exact ⟨hn, by simp [hq]⟩
    · rintro ⟨hn, hfirst⟩
      obtain ⟨q, hq⟩ := Option.ne_none_iff_exists'.mp hfirst
      obtain ⟨hkey, hpre⟩ := mem_namesUnder.mp hn
      have hb := (hbs _).mpr ⟨name, hkey, hpre, q, hq, rfl⟩
      exact ⟨_, hb, (hmem _ hb name).mpr ⟨hn, q, hq, rfl⟩⟩

end Nodes

lemma walk_eq {sort : SortFunction} {c : KeyCache W} {sep start : Name} {by' : SortBy} {power : Bool}
    {leaves branches : List NameValue} (hleaves : c.tree sort start sep 1 0 0 .leaf by' power = some leaves)
    (hbranches : c.tree sort start sep 1 0 0 .branch by' power = some branches) (fuel : ℕ) :
    walk sort c sep by' power (fuel + 1) start =
      (collect (fun b => walk sort c sep by' power fuel (child start sep b)) (branches.map Prod.fst)).map
        fun below => (leaves.map fun leaf => head start sep ++ leaf.1) ++ below := by
  rw [walk, hleaves, hbranches]

/-- One level of the walk, when the walks from its branches succeed. -/
lemma walk_succ {sort : SortFunction} (hsort : Sorts sort) {c : KeyCache W} {sep : Name} (hsep : sep ≠ [])
    (by' : SortBy) (power : Bool) {fuel : ℕ} {start : Name}
    (hbelow : ∀ b, (∃ name ∈ c.keyMap.keys, head start sep <+: name ∧
      ∃ p, firstAt sep (name.drop (head start sep).length) = some p ∧
        (name.drop (head start sep).length).take p = b) →
      ∃ names, walk sort c sep by' power fuel (child start sep b) = some names ∧
        names.Perm (c.namesUnder (head start sep ++ (b ++ sep)))) :
    ∃ names, walk sort c sep by' power (fuel + 1) start = some names ∧
      names.Perm (c.namesUnder (head start sep)) := by
  obtain ⟨res, hres, hlt, hbs⟩ := tree_branch hsep hsort c start 0 by' power
  obtain ⟨below, hcollect, hperm⟩ := collect_perm fun b hb => hbelow b ((hbs b).mp hb)
  refine ⟨_, by rw [walk_eq (tree_leaf hsep hsort c start 0 by' power) hres, hcollect, Option.map_some], ?_⟩
  have hbranches := branches_names hsep (head start sep) (hlt.imp ne_of_lt) hbs
  have hleaves := @leaves_names W c sep (head start sep) sort hsort by' power
  exact (hleaves.append (hperm.trans hbranches)).trans (List.filter_append_perm _ _)

/-- With more levels than the longest name has characters behind the head, the walk
collects the names under the head. -/
lemma walk_of_fuel {sort : SortFunction} (hsort : Sorts sort) {c : KeyCache W} {sep : Name} (hsep : sep ≠ [])
    (by' : SortBy) (power : Bool) (hstart : ∀ name ∈ c.keyMap.keys, ¬sep <+: name) (fuel : ℕ) (start : Name)
    (hfuel : ∀ name ∈ c.keyMap.keys, name.length < fuel + (head start sep).length) :
    ∃ names, walk sort c sep by' power (fuel + 1) start = some names ∧
      names.Perm (c.namesUnder (head start sep)) := by
  induction fuel generalizing start with
  | zero =>
    refine walk_succ hsort hsep by' power fun b hb => ?_
    obtain ⟨name, hname, hpre, -⟩ := hb
    have hshort := hfuel name hname
    have hlong := hpre.length_le
    omega
  | succ fuel ih =>
    refine walk_succ hsort hsep by' power fun b hb => ?_
    obtain ⟨name, hname, hpre, p, hp, htake⟩ := hb
    have hroot : start = [] → b ≠ [] := by
      rintro rfl rfl
      have hlen := length_take_of_firstAt hsep hp
      rw [htake, List.length_nil] at hlen
      rw [← hlen] at hp
      exact hstart name hname ((firstAt_eq_some_iff hsep).mp hp).1
    have hnext := ih (child start sep b) fun name' hname' => by
      have hshort := hfuel name' hname'
      have hpos := List.length_pos_of_ne_nil hsep
      rw [head_child hroot, List.length_append, List.length_append]
      omega
    rwa [head_child hroot] at hnext

/-- A name that starts with the separator is in a branch without a name, whose prefix is
the root's again. -/
lemma walk_eq_none {sort : SortFunction} (hsort : Sorts sort) {c : KeyCache W} {sep : Name} (hsep : sep ≠ [])
    (by' : SortBy) (power : Bool) {name : Name} (hname : name ∈ c.keyMap.keys) (hpre : sep <+: name) (fuel : ℕ) :
    walk sort c sep by' power fuel [] = none := by
  induction fuel with
  | zero => rfl
  | succ fuel ih =>
    obtain ⟨res, hres, -, hbs⟩ := tree_branch hsep hsort c [] 0 by' power
    have hfirst : firstAt sep name = some 0 :=
      (firstAt_eq_some_iff hsep).mpr ⟨hpre, fun j hj => absurd hj (Nat.not_lt_zero j)⟩
    have hb : [] ∈ res.map Prod.fst := (hbs []).mpr ⟨name, hname, List.nil_prefix, 0, hfirst, rfl⟩
    have hcollect : collect (fun b => walk sort c sep by' power fuel (child [] sep b)) (res.map Prod.fst) = none :=
      collect_eq_none hb ih
    rw [walk_eq (tree_leaf hsep hsort c [] 0 by' power) hres, hcollect, Option.map_none]

/-- The walk ends with every cached name once exactly if no name starts with the separator. -/
theorem walk_visits_names_iff {sort : SortFunction} (hsort : Sorts sort) (c : KeyCache W) {sep : Name}
    (hsep : sep ≠ []) (by' : SortBy) (power : Bool) :
    (∃ fuel names, walk sort c sep by' power fuel [] = some names ∧ names.Perm c.keyMap.keys) ↔
      ∀ name ∈ c.keyMap.keys, ¬sep <+: name := by
  constructor
  · rintro ⟨fuel, names, hwalk, -⟩ name hname hpre
    rw [walk_eq_none hsort hsep by' power hname hpre fuel] at hwalk
    exact absurd hwalk (by simp)
  · intro hstart
    have hlong : ∃ n, ∀ name ∈ c.keyMap.keys, name.length < n := by
      refine ⟨c.keyMap.keys.flatten.length + 1, fun name hname => ?_⟩
      exact Nat.lt_succ_of_le (List.sublist_flatten_of_mem hname).length_le
    obtain ⟨n, hn⟩ := hlong
    obtain ⟨names, hwalk, hperm⟩ := walk_of_fuel hsort hsep by' power hstart n [] fun name hname => by
      have hlt := hn name hname
      exact Nat.lt_of_lt_of_le hlt (Nat.le_add_right _ _)
    refine ⟨n + 1, names, hwalk, hperm.trans ?_⟩
    have hall : c.namesUnder (head [] sep) = c.keyMap.keys := by
      simp [namesUnder, under, head, OrderedMap.keys]
    rw [hall]

theorem walk_visits_names_of_scheme :
    ∃ fuel names, walk insertionSort (ofNames (Wrtstat.reference 1 false)
        [[97, 126, 98, 126, 99], [97], [97, 126], [97, 126, 126, 98]]) [126] .avg false fuel [] = some names ∧
      names.Perm (ofNames (Wrtstat.reference 1 false)
        [[97, 126, 98, 126, 99], [97], [97, 126], [97, 126, 126, 98]]).keyMap.keys :=
  (walk_visits_names_iff sorts_insertionSort (ofNames (Wrtstat.reference 1 false)
    [[97, 126, 98, 126, 99], [97], [97, 126], [97, 126, 126, 98]]) (by decide) .avg false).mpr (by decide +kernel)

/-- The name `~a` is in a branch without a name, and the walk never gets out of it. -/
theorem walk_never_ends :
    let c := ofNames (Wrtstat.reference 1 false) [[126, 97]]
    c.tree insertionSort [] [126] 1 0 0 .branch .avg false = some [([], 0)] ∧ child [] [126] [] = [] ∧
      ¬∃ fuel names, walk insertionSort c [126] .avg false fuel [] = some names ∧ names.Perm c.keyMap.keys := by
  refine ⟨by decide +kernel, rfl, ?_⟩
  rintro ⟨fuel, names, hwalk, -⟩
  have hname : [126, 97] ∈ (ofNames (Wrtstat.reference 1 false) [[126, 97]]).keyMap.keys := by decide +kernel
  rw [walk_eq_none sorts_insertionSort (by decide) .avg false hname (by decide) fuel] at hwalk
  exact absurd hwalk (by simp)

end WfcBtp.KeyCache
