import WfcBtp.Model.KeyCache
import WfcBtp.Model.WrtstatReference

/-!
# The time indexes of the key cache

With garbage collection on, the key map, the map of times and the ordered set of times
hold the same names. Every call keeps it so, whatever clock it reads.
-/

namespace WfcBtp
open Library

namespace KeyCache

variable {W : Wrtstat}

/-- The set of times holds exactly the pairs of the map of times, each once. -/
def TimesAgree (c : KeyCache W) : Prop :=
  ∀ (t : ℤ) (name : Name), c.timeKeySet.count (toLex (t, name)) =
    if c.keyTimeMap.find? name = some t then 1 else 0

/-- The three containers hold the same names, and the set of times has each name once. -/
structure IndexesAgree (c : KeyCache W) : Prop where
  keys : c.keyMap.keys = c.keyTimeMap.keys
  times : c.TimesAgree

lemma keys_eq_iff {ν ν' : Type} {m : OrderedMap Name ν} {m' : OrderedMap Name ν'} :
    m.keys = m'.keys ↔ ∀ name, (m.find? name).isSome = (m'.find? name).isSome := by
  constructor
  · intro h name
    rw [Bool.eq_iff_iff, ← OrderedMap.mem_keys_iff, ← OrderedMap.mem_keys_iff, h]
  · intro h
    have hperm : m.keys.Perm m'.keys := by
      rw [List.perm_ext_iff_of_nodup m.keys_nodup m'.keys_nodup]
      intro name
      rw [OrderedMap.mem_keys_iff, OrderedMap.mem_keys_iff, h]
    exact hperm.eq_of_pairwise (fun a b _ _ hab hba => absurd hab hba.asymm) m.keys_sorted m'.keys_sorted

/-! ### One call -/

lemma updateTime_timesAgree {c : KeyCache W} (h : c.TimesAgree) (clock : ℤ) (name : Name) (now : ℤ) :
    (c.updateTime clock name now).TimesAgree := by
  by_cases hg : c.options.gcInterval = 0
  · rw [updateTime, if_pos hg]
    exact h
  rw [updateTime, if_neg hg]
  dsimp only
  generalize (if now = 0 then clock else now) = now'
  cases ht : c.keyTimeMap.find? name with
  | none =>
    intro t n
    simp only [OrderedMultiset.count_insert, OrderedMap.find?_set, h t n]
    by_cases hn : n = name
    · simp [hn, ht, Prod.ext_iff, eq_comm]
    · simp [hn]
  | some t₀ =>
    dsimp only
    split_ifs with hold
    · exact h
    · intro t n
      simp only [OrderedMultiset.count_insert, OrderedMultiset.count_erase, OrderedMap.find?_set, h t n]
      by_cases hn : n = name
      · by_cases h0 : t = t₀
        · simp [hn, h0, eq_comm]
        · simp [hn, ht, Ne.symm h0, eq_comm]
      · simp [hn, OrderedMap.find?_erase]

lemma updateTime_isSome {c : KeyCache W} (hg : c.options.gcInterval ≠ 0) (clock : ℤ) (name : Name)
    (now : ℤ) (name' : Name) :
    ((c.updateTime clock name now).keyTimeMap.find? name').isSome =
      (decide (name' = name) || (c.keyTimeMap.find? name').isSome) := by
  rw [updateTime, if_neg hg]
  dsimp only
  generalize (if now = 0 then clock else now) = now'
  by_cases hn : name' = name
  · cases ht : c.keyTimeMap.find? name with
    | none => simp [hn]
    | some t₀ =>
      dsimp only
      split_ifs <;> simp [hn, ht]
  · cases ht : c.keyTimeMap.find? name with
    | none => simp [hn, OrderedMap.find?_set]
    | some t₀ =>
      dsimp only
      split_ifs <;> simp [hn, OrderedMap.find?_set, OrderedMap.find?_erase]

/-- A call that makes sure `name` is in the key map and refreshes its time. -/
lemma indexesAgree_of_touch {c c' : KeyCache W} (h : c.TimesAgree) (hg : c.options.gcInterval ≠ 0)
    {clock : ℤ} {name : Name} {now : ℤ}
    (htimes : c'.timeKeySet = (c.updateTime clock name now).timeKeySet)
    (hmap : c'.keyTimeMap = (c.updateTime clock name now).keyTimeMap)
    (hkeys : ∀ n, (c'.keyMap.find? n).isSome =
      (decide (n = name) || (c.keyTimeMap.find? n).isSome)) :
    c'.IndexesAgree := by
  refine ⟨keys_eq_iff.mpr fun n => ?_, ?_⟩
  · rw [hkeys, hmap, updateTime_isSome hg]
  · unfold TimesAgree
    rw [htimes, hmap]
    exact updateTime_timesAgree h clock name now

lemma IndexesAgree.getOrCreate {c : KeyCache W} (h : c.IndexesAgree) (hg : c.options.gcInterval ≠ 0)
    (clock : ℤ) (name : Name) (nowTs : ℤ) : (c.getOrCreate clock name nowTs).2.IndexesAgree := by
  have hkeys : ∀ n, ((c.getOrCreate clock name nowTs).2.keyMap.find? n).isSome =
      (decide (n = name) || (c.keyTimeMap.find? n).isSome) := by
    intro n
    rw [getOrCreate_find?, ← keys_eq_iff.mp h.keys]
    by_cases hn : n = name <;> simp [hn]
  have hstep : ∃ c₀ : KeyCache W, c₀.timeKeySet = c.timeKeySet ∧ c₀.keyTimeMap = c.keyTimeMap ∧
      c₀.options = c.options ∧ (c.getOrCreate clock name nowTs).2 = c₀.updateTime clock name 0 := by
    unfold KeyCache.getOrCreate
    cases c.keyMap.find? name with
    | some ka => exact ⟨c, rfl, rfl, rfl, rfl⟩
    | none =>
      exact ⟨{ c with
        keyCounter := (c.keyCounter + 1) % 2 ^ 64
        keyMap := c.keyMap.set name (KeyAggregator.create (c.getMutex ((c.keyCounter + 1) % 2 ^ 64))
          ((c.keyCounter + 1) % 2 ^ 64) nowTs c.options) }, rfl, rfl, rfl, rfl⟩
  obtain ⟨c₀, hset, hmap, hopt, heq⟩ := hstep
  refine indexesAgree_of_touch (c := c₀) ?_ ?_ (congrArg _ heq) (congrArg _ heq) ?_
  · unfold TimesAgree
    rw [hset, hmap]
    exact h.times
  · rwa [hopt]
  · rw [hmap]
    exact hkeys

lemma IndexesAgree.putKey {c : KeyCache W} (h : c.IndexesAgree) {name : Name}
    (hname : (c.keyMap.find? name).isSome) (ka : KeyAggregator W) : (c.putKey name ka).IndexesAgree := by
  refine ⟨keys_eq_iff.mpr fun n => ?_, h.times⟩
  have hk := keys_eq_iff.mp h.keys n
  rw [putKey_find?]
  change _ = (c.keyTimeMap.find? n).isSome
  by_cases hn : n = name
  · subst hn
    simp [← hk, hname]
  · simp [hn, hk]

lemma IndexesAgree.add {c : KeyCache W} (h : c.IndexesAgree) (hg : c.options.gcInterval ≠ 0)
    (clock : ℤ) (name : Name) (data : AggregatedData) : (c.add clock name data).cache.IndexesAgree :=
  (h.getOrCreate hg clock name data.ts).putKey (by simp [getOrCreate_find?]) _

lemma IndexesAgree.merge {c : KeyCache W} (h : c.IndexesAgree) (hg : c.options.gcInterval ≠ 0)
    (clock : ℤ) (name : Name) (data : List AggregatedInfo) :
    (c.merge clock name data).cache.IndexesAgree := by
  cases hd : data.getLast? with
  | none =>
    rw [KeyCache.merge, hd]
    exact h
  | some d =>
    rw [merge_of_getLast? hd]
    exact (h.getOrCreate hg clock name d.ts).putKey (by simp [getOrCreate_find?]) _

lemma IndexesAgree.init {c : KeyCache W} (h : c.IndexesAgree) (hg : c.options.gcInterval ≠ 0)
    (clock : ℤ) (info : StoredName) : (c.init clock info).2.IndexesAgree := by
  let c₀ : KeyCache W := if c.keyCounter < info.id then { c with keyCounter := info.id } else c
  have hset : c₀.timeKeySet = c.timeKeySet := by simp only [c₀]; split_ifs <;> rfl
  have hmap : c₀.keyTimeMap = c.keyTimeMap := by simp only [c₀]; split_ifs <;> rfl
  have hopt : c₀.options = c.options := by simp only [c₀]; split_ifs <;> rfl
  have htimes : (c.init clock info).2.timeKeySet = (c₀.updateTime clock info.name
      (if info.lastUpdate.tdiv c₀.options.resolution ≠ 0 then info.lastUpdate.tdiv c₀.options.resolution
        else 1)).timeKeySet := rfl
  have hnames : (c.init clock info).2.keyTimeMap = (c₀.updateTime clock info.name
      (if info.lastUpdate.tdiv c₀.options.resolution ≠ 0 then info.lastUpdate.tdiv c₀.options.resolution
        else 1)).keyTimeMap := rfl
  refine indexesAgree_of_touch (c := c₀) ?_ ?_ htimes hnames ?_
  · unfold TimesAgree
    rw [hset, hmap]
    exact h.times
  · rwa [hopt]
  · intro n
    rw [init_find?, hmap, ← keys_eq_iff.mp h.keys]
    by_cases hn : n = info.name <;> simp [hn]

/-- One round of the loop of `gc`, on the first pair of the set. -/
lemma IndexesAgree.gcStep {c : KeyCache W} (h : c.IndexesAgree) {p : ℤ ×ₗ Name} {rest : List (ℤ ×ₗ Name)}
    (he : c.timeKeySet.elems = p :: rest) :
    ({ c with
        keyMap := c.keyMap.erase (ofLex p).2
        keyTimeMap := c.keyTimeMap.erase (ofLex p).2
        timeKeySet := c.timeKeySet.eraseFirst } : KeyCache W).IndexesAgree := by
  have hcount := OrderedMultiset.count_eraseFirst he
  have hp : c.keyTimeMap.find? (ofLex p).2 = some (ofLex p).1 := by
    have h1 : c.timeKeySet.count p = _ := h.times (ofLex p).1 (ofLex p).2
    have h2 := hcount p
    by_contra hne
    rw [if_neg hne] at h1
    rw [if_pos rfl] at h2
    omega
  refine ⟨keys_eq_iff.mpr fun n => ?_, fun t n => ?_⟩
  · have hk := keys_eq_iff.mp h.keys n
    simp only [OrderedMap.find?_erase]
    split_ifs
    · rfl
    · exact hk
  · have hq := h.times t n
    rw [hcount] at hq
    simp only [OrderedMap.find?_erase]
    by_cases hpe : toLex (t, n) = p
    · subst hpe
      rw [if_pos rfl, if_pos (show c.keyTimeMap.find? n = some t from hp)] at hq
      rw [if_pos (show n = (ofLex (toLex (t, n))).2 from rfl), if_neg (by simp)]
      omega
    · rw [if_neg hpe] at hq
      by_cases hn : n = (ofLex p).2
      · have ht : (ofLex p).1 ≠ t := by
          rintro rfl
          exact hpe (by rw [hn]; rfl)
        rw [hn, hp, if_neg (by simpa using ht)] at hq
        rw [if_pos hn, if_neg (by simp), hn]
        omega
      · rw [if_neg hn]
        omega

lemma IndexesAgree.gcLoop {l : List (ℤ ×ₗ Name)} {c : KeyCache W} (h : c.IndexesAgree)
    {rest : List (ℤ ×ₗ Name)} (he : c.timeKeySet.elems = l ++ rest) (count : ℕ) :
    (c.gcLoop l count).2.IndexesAgree := by
  induction l generalizing c count with
  | nil => exact h
  | cons p l ih =>
    exact ih (h.gcStep he) (by simp [OrderedMultiset.eraseFirst, he]) _

lemma IndexesAgree.gc {c : KeyCache W} (h : c.IndexesAgree) (clock : ℤ) : (c.gc clock).2.IndexesAgree := by
  rw [(c.gc_eq clock).1]
  unfold expired
  split_ifs
  · exact h
  · exact h.gcLoop (c.timeKeySet.below_append _).symm _

/-- The set of times is the map of times, read the other way. -/
lemma IndexesAgree.elems_perm {c : KeyCache W} (h : c.IndexesAgree) :
    c.timeKeySet.elems.Perm (c.keyTimeMap.entries.map fun e => toLex (e.2, e.1)) := by
  have hmem : ∀ q, q ∈ c.keyTimeMap.entries.map (fun e => toLex (e.2, e.1)) ↔
      c.keyTimeMap.find? (ofLex q).2 = some (ofLex q).1 := by
    intro q
    rw [← OrderedMap.mem_entries_iff, List.mem_map]
    constructor
    · rintro ⟨e, he, rfl⟩
      exact he
    · intro hm
      exact ⟨_, hm, rfl⟩
  refine OrderedMultiset.perm_of_count ?_ (fun q hq => ?_) (fun q hq => ?_)
  · refine List.Pairwise.map _ ?_ c.keyTimeMap.sorted
    intro a b hab heq
    exact hab.ne (congrArg (fun q => (ofLex q).2) heq)
  · exact (h.times (ofLex q).1 (ofLex q).2).trans (if_pos ((hmem q).mp hq))
  · exact (h.times (ofLex q).1 (ofLex q).2).trans (if_neg (fun hf => hq ((hmem q).mpr hf)))

lemma IndexesAgree.not_sizesDiffer {c : KeyCache W} (h : c.IndexesAgree) : ¬c.sizesDiffer := by
  have hkeys : c.keyTimeMap.size = c.keyMap.size := by
    have hlen := congrArg List.length h.keys
    simpa [OrderedMap.keys, OrderedMap.size] using hlen.symm
  have hsize : c.timeKeySet.size = c.keyTimeMap.size := by
    simpa [OrderedMultiset.size, OrderedMap.size] using h.elems_perm.length_eq
  rintro (hne | hne)
  · exact hne hsize.symm
  · exact hne hkeys

lemma IndexesAgree.del {c : KeyCache W} (h : c.IndexesAgree) (hg : c.options.gcInterval ≠ 0)
    (name : Name) : (c.del name).2.IndexesAgree := by
  cases hk : c.keyMap.find? name with
  | none =>
    rw [del_of_none hk]
    exact h
  | some ka =>
    have hsome := keys_eq_iff.mp h.keys name
    rw [hk, Option.isSome_some] at hsome
    obtain ⟨t, ht⟩ := Option.isSome_iff_exists.mp hsome.symm
    simp only [KeyCache.del, hk, hg, ht, ne_eq, not_false_eq_true, if_true]
    refine ⟨keys_eq_iff.mpr fun n => ?_, fun t' n => ?_⟩
    · have hkn := keys_eq_iff.mp h.keys n
      simp only [OrderedMap.find?_erase]
      split_ifs
      · rfl
      · exact hkn
    · simp only [OrderedMultiset.count_erase, OrderedMap.find?_erase, h.times t' n]
      by_cases hn : n = name
      · by_cases ht' : t' = t
        · simp [hn, ht']
        · simp [hn, ht, Ne.symm ht']
      · simp [hn]

/-- `del` returns the id of the key it removed. -/
lemma del_fst {c : KeyCache W} (h : c.options.gcInterval ≠ 0 → c.IndexesAgree) {name : Name}
    {ka : KeyAggregator W} (hk : c.keyMap.find? name = some ka) : (c.del name).1 = ka.getId := by
  by_cases hg : c.options.gcInterval = 0
  · simp [del, hk, hg]
  · have hagree := ((h hg).del hg name).not_sizesDiffer
    have hsome := keys_eq_iff.mp (h hg).keys name
    rw [hk, Option.isSome_some] at hsome
    obtain ⟨t, ht⟩ := Option.isSome_iff_exists.mp hsome.symm
    simp only [del, hk, hg, ht, ne_eq, not_false_eq_true, if_true] at hagree ⊢
    rw [if_neg hagree]

lemma indexesAgree_new (opt : KeyCacheOptions) : (new opt : KeyCache W).IndexesAgree :=
  ⟨rfl, fun _ _ => rfl⟩

/-! ### Runs -/

/-- One call into the cache, with the clock it reads. -/
inductive Op
  | create (clock : ℤ) (name : Name) (nowTs : ℤ)
  | add (clock : ℤ) (name : Name) (data : AggregatedData)
  | merge (clock : ℤ) (name : Name) (data : List AggregatedInfo)
  | init (clock : ℤ) (info : StoredName)
  | del (name : Name)
  | gc (clock : ℤ)

def run (c : KeyCache W) : Op → KeyCache W
  | .create clock name nowTs => (c.create clock name nowTs).2
  | .add clock name data => (c.add clock name data).cache
  | .merge clock name data => (c.merge clock name data).cache
  | .init clock info => (c.init clock info).2
  | .del name => (c.del name).2
  | .gc clock => (c.gc clock).2

@[simp] lemma run_options (c : KeyCache W) (op : Op) : (c.run op).options = c.options := by
  cases op with
  | create clock name nowTs => exact c.getOrCreate_options clock name nowTs
  | add clock name data => exact c.add_options clock name data
  | merge clock name data =>
    cases hd : data.getLast? with
    | none => simp [run, merge, hd]
    | some d => simp [run, merge_of_getLast? hd, putKey]
  | init clock info => exact c.init_options clock info
  | del name => exact (c.del_keyCounter name).2
  | gc clock => exact c.gc_options clock

/-- Every call keeps the indexes in agreement. -/
lemma IndexesAgree.run {c : KeyCache W} (h : c.IndexesAgree) (hg : c.options.gcInterval ≠ 0) (op : Op) :
    (c.run op).IndexesAgree := by
  cases op with
  | create clock name nowTs => exact h.getOrCreate hg clock name nowTs
  | add clock name data => exact h.add hg clock name data
  | merge clock name data => exact h.merge hg clock name data
  | init clock info => exact h.init hg clock info
  | del name => exact h.del hg name
  | gc clock => exact h.gc clock

lemma indexesAgree_foldl (ops : List Op) {c : KeyCache W} (h : c.IndexesAgree)
    (hg : c.options.gcInterval ≠ 0) : (ops.foldl KeyCache.run c).IndexesAgree := by
  induction ops generalizing c with
  | nil => exact h
  | cons op rest ih => exact ih (h.run hg op) (by rwa [run_options])

/-- The expired names are cached names, each listed once. -/
lemma IndexesAgree.expired_names {c : KeyCache W} (h : c.IndexesAgree) (clock : ℤ) :
    ((c.expired clock).map fun p => (ofLex p).2).Nodup ∧
      ∀ name ∈ (c.expired clock).map (fun p => (ofLex p).2), name ∈ c.keyMap.keys := by
  have hperm : (c.timeKeySet.elems.map fun p => (ofLex p).2).Perm c.keyMap.keys := by
    have hp := h.elems_perm.map fun p => (ofLex p).2
    rw [h.keys]
    simpa [Function.comp_def, OrderedMap.keys] using hp
  have hsub : ((c.expired clock).map fun p => (ofLex p).2).Sublist
      (c.timeKeySet.elems.map fun p => (ofLex p).2) := by
    refine List.Sublist.map _ ?_
    unfold expired
    split_ifs
    · exact List.nil_sublist _
    · exact List.takeWhile_sublist _
  exact ⟨(hperm.nodup_iff.mpr c.keyMap.keys_nodup).sublist hsub,
    fun name hn => hperm.mem_iff.mp (hsub.subset hn)⟩

/-- `gc` returns the number of names that are gone after it. -/
lemma gc_fst {c : KeyCache W} (h : c.IndexesAgree) (clock : ℤ) :
    (c.gc clock).1 = (c.keyMap.keys.filter (· ∉ (c.gc clock).2.keyMap.keys)).length := by
  obtain ⟨hnodup, hcached⟩ := h.expired_names clock
  have hperm : (c.keyMap.keys.filter (· ∉ (c.gc clock).2.keyMap.keys)).Perm
      ((c.expired clock).map fun p => (ofLex p).2) := by
    rw [List.perm_ext_iff_of_nodup (c.keyMap.keys_nodup.filter _) hnodup]
    intro name
    have hgone : name ∈ c.keyMap.keys → (name ∉ (c.gc clock).2.keyMap.keys ↔
        name ∈ (c.expired clock).map fun p => (ofLex p).2) := by
      intro hn
      rw [OrderedMap.mem_keys_iff] at hn ⊢
      rw [gc_find?]
      split_ifs with he
      · simp [he]
      · simp [he, hn]
    rw [List.mem_filter, decide_eq_true_eq]
    exact ⟨fun hm => (hgone hm.1).mp hm.2, fun hm => ⟨hcached name hm, (hgone (hcached name hm)).mpr hm⟩⟩
  rw [(c.gc_eq clock).2, if_neg (h.gc clock).not_sizesDiffer, hperm.length_eq, List.length_map]

/-- In every reachable cache with garbage collection on, the three containers hold the
same names, so neither `gc` nor `del` ever finds sizes that differ, and `gc` counts
exactly the names it removes. -/
theorem key_cache_indexes_agree (opt : KeyCacheOptions) (hgc : opt.gcInterval ≠ 0) (ops : List Op) :
    let c : KeyCache W := ops.foldl run (new opt)
    c.IndexesAgree ∧
      (∀ clock, ¬(c.gc clock).2.sizesDiffer ∧
        (c.gc clock).1 = (c.keyMap.keys.filter (· ∉ (c.gc clock).2.keyMap.keys)).length) ∧
      ∀ name, ¬(c.del name).2.sizesDiffer := by
  intro c
  have h : c.IndexesAgree := indexesAgree_foldl ops (indexesAgree_new opt) hgc
  have hopt : c.options.gcInterval ≠ 0 := by
    have hkeep : ∀ (ops : List Op) (c : KeyCache W), (ops.foldl run c).options = c.options := by
      intro ops
      induction ops with
      | nil => exact fun _ => rfl
      | cons op rest ih => exact fun c => (ih _).trans (run_options c op)
    rw [hkeep]
    exact hgc
  exact ⟨h, fun clock => ⟨(h.gc clock).not_sizesDiffer, gc_fst h clock⟩,
    fun name => (h.del hopt name).not_sizesDiffer⟩

theorem key_cache_indexes_agree_after_gc :
    let c : KeyCache (Wrtstat.reference 1 false) :=
      [Op.add 5 [97] { ts := 5, count := 1 }, Op.gc 100].foldl run (new { gcInterval := 10, resolution := 1 })
    c.IndexesAgree ∧ ¬(c.gc 100).2.sizesDiffer := by
  have h := key_cache_indexes_agree (W := Wrtstat.reference 1 false) { gcInterval := 10, resolution := 1 } (by decide)
    [Op.add 5 [97] { ts := 5, count := 1 }, Op.gc 100]
  exact ⟨h.1, (h.2.1 100).1⟩

end KeyCache

end WfcBtp
