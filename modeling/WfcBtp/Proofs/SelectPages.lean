import WfcBtp.Model.WrtstatReference
import WfcBtp.Proofs.KeyInfos
import WfcBtp.Proofs.TreeNodes

/-!
# Pages of selected names

`select` without sorting is a page of the filtered key map. Sorted, it is a page of one
ranking, unless the end of the page is computed beyond 64 bits.
-/

namespace WfcBtp
open Library

variable {W : Wrtstat}

namespace KeyCache

/-- The names with a prefix and a suffix. -/
def matchingNames (c : KeyCache W) (start ending : Name) : List Name :=
  c.keyMap.keys.filter fun name => start <+: name ∧ ending <:+ name

lemma selectNames_eq (c : KeyCache W) (start ending : Name) (offset limit : ℕ) :
    c.selectNames start ending offset limit =
      (page offset limit (c.matchingNames start ending)).map (fun name => (name, 0)) := by
  have hloop := selectLoop_eq start ending (c.keyMap.lowerBound start) offset limit [] (by
    rw [List.length_nil]
    omega)
  rw [selectNames, hloop, matching_lowerBound, List.nil_append, List.length_nil, Nat.sub_zero, ← page_map,
    matchingNames, OrderedMap.keys, List.filter_map, List.map_map]
  rfl

/-- The unsorted select is a page of the whole map, filtered, whose names ascend. -/
theorem select_filters_key_map (c : KeyCache W) (start ending : Name) (offset limit : ℕ) :
    c.selectNames start ending offset limit =
        (page offset limit (c.matchingNames start ending)).map (fun name => (name, 0)) ∧
      c.keyMap.keys.Pairwise (· < ·) :=
  ⟨c.selectNames_eq start ending offset limit, c.keyMap.keys_sorted⟩

/-! ### The ranked field -/

/-- The field of a key info that a sorted select ranks by. -/
def rankedField (by' : SortBy) (power : Bool) (ki : StoredKey) : ℤ :=
  let b := if power then ki.pow else ki.max
  match by' with
  | .nosort => 0
  | .avg => b.avg.value
  | .count => ki.count.value
  | .perc50 => b.perc50.value
  | .perc80 => b.perc80.value
  | .perc95 => b.perc95.value
  | .perc99 => b.perc99.value
  | .perc100 => b.perc100.value
  | .min => b.min.value
  | .max => b.max.value
  | .lossy => ki.lossy.value

/-- The recorded counts are the same number as `value_type` and as `size_type`. -/
structure SizesFit (ki : StoredValues) : Prop where
  count : 0 ≤ ki.count.value ∧ ki.count.value < 2 ^ 63
  lossy : 0 ≤ ki.lossy.value ∧ ki.lossy.value < 2 ^ 63

lemma toValue_lt (n : ℕ) : toValue n < 2 ^ 63 := by
  have hlt := @Int.bmod_lt (n : ℤ) (2 ^ 64) (by decide)
  unfold toValue
  omega

lemma updateField_fits {f : StoredPair} (h : 0 ≤ f.value ∧ f.value < 2 ^ 63) (n : ℕ) (t : ℤ) :
    0 ≤ (KeyAggregator.updateField f (toValue n) t).value ∧
      (KeyAggregator.updateField f (toValue n) t).value < 2 ^ 63 := by
  have hn := toValue_lt n
  unfold KeyAggregator.updateField
  split_ifs with hlt
  · dsimp only
    exact ⟨h.1.trans hlt.le, hn⟩
  · exact h

lemma setField_fits {f : StoredPair} (h : 0 ≤ f.value ∧ f.value < 2 ^ 63) (begTs : ℤ) :
    0 ≤ (KeyAggregator.setField begTs {} f).value ∧ (KeyAggregator.setField begTs {} f).value < 2 ^ 63 := by
  unfold KeyAggregator.setField
  split_ifs
  · exact h
  · exact ⟨le_rfl, by decide⟩

lemma sizesFit_kept : KeyAggregator.Kept SizesFit where
  new := ⟨⟨le_rfl, by decide⟩, ⟨le_rfl, by decide⟩⟩
  update _ d h := ⟨updateField_fits h.count d.count d.ts, updateField_fits h.lossy d.lossy d.ts⟩
  set _ si h := ⟨setField_fits h.count si.lastUpdate, setField_fits h.lossy si.lastUpdate⟩

lemma toSize_eq {v : ℤ} (h : 0 ≤ v ∧ v < 2 ^ 63) : toSize v = v.toNat := by
  have hlt : v < 2 ^ 64 := by omega
  rw [toSize, Int.emod_eq_of_lt h.1 hlt]

lemma toValue_toSize {v : ℤ} (h : 0 ≤ v ∧ v < 2 ^ 63) : toValue (toSize v) = v := by
  have hfit : v.bmod (2 ^ 64) = v := Int.bmod_eq_of_le (by omega) (by omega)
  unfold toValue
  rwa [toSize_eq h, Int.toNat_of_nonneg h.1]

lemma toSize_lt_toSize {v w : ℤ} (hv : 0 ≤ v ∧ v < 2 ^ 63) (hw : 0 ≤ w ∧ w < 2 ^ 63) :
    toSize v < toSize w ↔ v < w := by
  rw [toSize_eq hv, toSize_eq hw]
  omega

/-- The reported value and the comparator read the same field. -/
lemma getByValue_info {ka : KeyAggregator W} (h : SizesFit ka.keyInfo.toStoredValues) (by' : SortBy) (power : Bool) :
    getByValue by' (ka.getAggregatedInfo power) = rankedField by' power ka.keyInfo := by
  cases by' with
  | count => exact toValue_toSize h.count
  | lossy => exact toValue_toSize h.lossy
  | nosort => rfl
  | _ => cases power <;> rfl

lemma createCompare_info {ka kb : KeyAggregator W} (ha : SizesFit ka.keyInfo.toStoredValues)
    (hb : SizesFit kb.keyInfo.toStoredValues) {by' : SortBy} (hby : by' ≠ .nosort) (power : Bool) (n m : Name) :
    createCompare by' (n, ka.getAggregatedInfo power) (m, kb.getAggregatedInfo power) =
      decide (rankedField by' power kb.keyInfo < rankedField by' power ka.keyInfo) := by
  cases by' with
  | count => exact decide_eq_decide.mpr (toSize_lt_toSize hb.count ha.count)
  | lossy => exact decide_eq_decide.mpr (toSize_lt_toSize hb.lossy ha.lossy)
  | nosort => exact absurd rfl hby
  | _ => cases power <;> rfl

/-! ### The ranking -/

/-- What a sorted select sorts. -/
def selectedInfos (c : KeyCache W) (start ending : Name) (power : Bool) : List (Name × AggregatedInfo) :=
  (c.keyMap.entries.filter fun e => start <+: e.1 ∧ ending <:+ e.1).map fun e => (e.1, e.2.getAggregatedInfo power)

def sortedInfos (sort : SortFunction) (c : KeyCache W) (start ending : Name) (by' : SortBy) (power : Bool) :
    List (Name × AggregatedInfo) :=
  sort _ (createCompare by') (c.selectedInfos start ending power)

/-- The selected names with their values, in the order of the sort. -/
def ranking (sort : SortFunction) (c : KeyCache W) (start ending : Name) (by' : SortBy) (power : Bool) :
    List NameValue :=
  (c.sortedInfos sort start ending by' power).map fun agn => (agn.1, getByValue by' agn.2)

/-- The names of the unsorted select with the field they are ranked by, the largest first. -/
structure Ranks (c : KeyCache W) (start ending : Name) (by' : SortBy) (power : Bool) (l : List NameValue) :
    Prop where
  names : (l.map Prod.fst).Perm ((c.selectNames start ending 0 0).map Prod.fst)
  values : ∀ e ∈ l, ∃ ka, c.keyMap.find? e.1 = some ka ∧ e.2 = rankedField by' power ka.keyInfo
  descending : (l.map Prod.snd).Pairwise (· ≥ ·)

section Ranking

variable {sort : SortFunction} (hsort : Sorts sort) (c : KeyCache W) (start ending : Name) (by' : SortBy)
  (power : Bool)

include hsort

lemma sortedInfos_perm : (c.sortedInfos sort start ending by' power).Perm (c.selectedInfos start ending power) :=
  hsort.perm _ _ _ (strictWeakOrder_createCompare by')

lemma ranking_names_perm :
    ((c.ranking sort start ending by' power).map Prod.fst).Perm (c.matchingNames start ending) := by
  have hnames := (sortedInfos_perm hsort c start ending by' power).map Prod.fst
  rw [selectedInfos, List.map_map] at hnames
  rw [ranking, List.map_map, matchingNames, OrderedMap.keys, List.filter_map]
  exact hnames

/-- What is sorted is the info of a cached key. -/
lemma info_of_mem_sortedInfos {agn : Name × AggregatedInfo} (h : agn ∈ c.sortedInfos sort start ending by' power) :
    ∃ ka, c.keyMap.find? agn.1 = some ka ∧ agn.2 = ka.getAggregatedInfo power := by
  obtain ⟨e, he, rfl⟩ := List.mem_map.mp ((sortedInfos_perm hsort c start ending by' power).mem_iff.mp h)
  exact ⟨e.2, (c.keyMap.mem_entries_iff _ _).mp (List.mem_of_mem_filter he), rfl⟩

lemma ranking_ranks (hfit : ∀ name ka, c.keyMap.find? name = some ka → SizesFit ka.keyInfo.toStoredValues)
    (hby : by' ≠ .nosort) : c.Ranks start ending by' power (c.ranking sort start ending by' power) := by
  have hkey : ∀ agn ∈ c.sortedInfos sort start ending by' power,
      ∃ ka, c.keyMap.find? agn.1 = some ka ∧ agn.2 = ka.getAggregatedInfo power :=
    fun _ => info_of_mem_sortedInfos hsort c start ending by' power
  refine ⟨?_, ?_, ?_⟩
  · have hid : (Prod.fst ∘ fun name : Name => (name, (0 : ℤ))) = id := rfl
    rw [selectNames_eq, page_zero_zero, List.map_map, hid, List.map_id]
    exact ranking_names_perm hsort c start ending by' power
  · intro e he
    obtain ⟨agn, hagn, rfl⟩ := List.mem_map.mp he
    obtain ⟨ka, hka, hinfo⟩ := hkey agn hagn
    refine ⟨ka, hka, ?_⟩
    rw [hinfo]
    exact getByValue_info (hfit agn.1 ka hka) by' power
  · have hsorted := hsort.sorted _ _ (c.selectedInfos start ending power) (strictWeakOrder_createCompare by')
    rw [ranking, List.map_map, List.pairwise_map]
    refine hsorted.imp_of_mem fun {a b} ha hb hab => ?_
    obtain ⟨ka, hka, hinfo⟩ := hkey a ha
    obtain ⟨kb, hkb, hinfo'⟩ := hkey b hb
    have hcompare := createCompare_info (hfit b.1 kb hkb) (hfit a.1 ka hka) hby power b.1 a.1
    rw [← hinfo, ← hinfo', hab] at hcompare
    change getByValue by' a.2 ≥ getByValue by' b.2
    rw [hinfo, hinfo', getByValue_info (hfit a.1 ka hka), getByValue_info (hfit b.1 kb hkb)]
    exact not_lt.mp (of_decide_eq_false hcompare.symm)

end Ranking

/-! ### Its pages -/

/-- The end of the page is computed without an overflow, or not at all. -/
def EndFits (n offset limit : ℕ) : Prop :=
  limit = 0 ∨ n < offset ∨ offset + limit < 2 ^ 64 ∨ offset + limit ≤ n

/-- A range that ends where the page or the list does is the page. -/
lemma range_eq_page {α : Type} {l : List α} {offset limit end' : ℕ} (h : offset ≤ l.length) (hlimit : limit ≠ 0)
    (hend : end' = min l.length (offset + limit)) : range l offset end' = some (page offset limit l) := by
  rw [range, if_pos (by omega), page_eq_take_drop hlimit, Option.some.injEq]
  rcases le_total l.length (offset + limit) with hle | hle
  · rw [List.take_of_length_le (i := limit) (by rw [List.length_drop]; omega), List.take_of_length_le]
    rw [List.length_drop]
    omega
  · rw [hend, min_eq_right hle, Nat.add_sub_cancel_left]

lemma range_beyond {α : Type} {l : List α} {beg end' : ℕ} (h : l.length < end') : range l beg end' = none :=
  if_neg (by omega)

/-- The end that the sorted select computes, with the sum taken modulo 64 bits. -/
lemma range_select {α : Type} {l : List α} {offset limit : ℕ} (ho : offset < 2 ^ 64) (hl : limit < 2 ^ 64)
    (h : offset ≤ l.length) :
    let end' := if limit ≠ 0 ∧ l.length > (offset + limit) % 2 ^ 64 then offset + limit else l.length
    (EndFits l.length offset limit → range l offset end' = some (page offset limit l)) ∧
      (¬EndFits l.length offset limit → range l offset end' = none) := by
  intro end'
  unfold EndFits
  by_cases hzero : limit = 0
  · have hend : end' = l.length := if_neg fun hne => hne.1 hzero
    refine ⟨fun _ => ?_, fun hnot => absurd (.inl hzero) hnot⟩
    rw [hend, range, if_pos ⟨h, le_rfl⟩, page_eq_drop (.inl hzero), Option.some.injEq]
    exact List.take_of_length_le (by rw [List.length_drop])
  · by_cases hwrap : offset + limit < 2 ^ 64
    · have hmod : (offset + limit) % 2 ^ 64 = offset + limit := Nat.mod_eq_of_lt hwrap
      refine ⟨fun _ => range_eq_page h hzero ?_, fun hnot => absurd (.inr (.inr (.inl hwrap))) hnot⟩
      simp only [end', hmod]
      split_ifs <;> omega
    · -- the sum has wrapped to less than the offset, so to less than the length
      have hend : end' = offset + limit := if_pos (by omega)
      rw [hend]
      constructor
      · intro hfits
        exact range_eq_page h hzero (by omega)
      · intro hnot
        exact range_beyond (by omega)

/-- The sorted select is a page of the ranking exactly when the end of the page fits. -/
lemma select_eq_page_iff {sort : SortFunction} (hsort : Sorts sort) (c : KeyCache W) (start ending : Name)
    {offset limit : ℕ} (ho : offset < 2 ^ 64) (hl : limit < 2 ^ 64) {by' : SortBy} (hby : by' ≠ .nosort)
    (power : Bool) :
    c.select sort start ending offset limit by' power =
        some (page offset limit (c.ranking sort start ending by' power)) ↔
      EndFits (c.matchingNames start ending).length offset limit := by
  have hlen : (c.matchingNames start ending).length = (c.ranking sort start ending by' power).length := by
    rw [← (ranking_names_perm hsort c start ending by' power).length_eq, List.length_map]
  have hsorted := (sortedInfos_perm hsort c start ending by' power).length_eq
  have hselection : selectionLoop start ending (·.getAggregatedInfo power) (c.keyMap.lowerBound start) [] =
      c.selectedInfos start ending power := by
    rw [selectionLoop_eq, matching_lowerBound, List.nil_append, selectedInfos]
  have hsorting : sort _ (createCompare by') (c.selectedInfos start ending power) =
      c.sortedInfos sort start ending by' power := rfl
  rw [hlen]
  unfold select ranking
  rw [if_neg hby, page_map, List.length_map]
  simp only [hselection, hsorting, ← hsorted]
  generalize c.sortedInfos sort start ending by' power = l
  by_cases hoffset : l.length < offset
  · rw [if_pos hoffset, page_of_length_le hoffset.le]
    exact iff_of_true rfl (.inr (.inl hoffset))
  · obtain ⟨hfits, hnot⟩ := range_select ho hl (not_lt.mp hoffset)
    rw [if_neg hoffset]
    by_cases hend : EndFits l.length offset limit
    · rw [hfits hend]
      exact iff_of_true rfl hend
    · rw [hnot hend]
      exact iff_of_false (by simp) hend

/-- In every reachable cache the sorted select is a page of one ranking, whatever the page,
exactly if the end of the page fits in 64 bits, where one is computed. -/
theorem select_pages_ranking_iff {sort : SortFunction} (hsort : Sorts sort) (opt : StorageOptions) (clock : ℤ)
    (hashSize resultLimit : ℕ) (calls : List StorageCall) (start ending : Name) {by' : SortBy}
    (hby : by' ≠ .nosort) (power : Bool) :
    let c := (calls.foldl Process.step (Process.start W opt clock hashSize resultLimit)).storage.keyCache
    ∃ ranking, c.Ranks start ending by' power ranking ∧
      (∀ limit pages, limit ≠ 0 → ranking.length ≤ pages * limit →
        (List.range pages).flatMap (fun i => page (i * limit) limit ranking) = ranking) ∧
      ∀ offset < 2 ^ 64, ∀ limit < 2 ^ 64,
        (c.select sort start ending offset limit by' power = some (page offset limit ranking) ↔
          EndFits (c.matchingNames start ending).length offset limit) := by
  intro c
  have hfit := (Process.infosMeet_run (W := W) sizesFit_kept opt clock hashSize resultLimit calls).cached
  refine ⟨c.ranking sort start ending by' power, ranking_ranks hsort c start ending by' power hfit hby, ?_, ?_⟩
  · intro limit pages hlimit hpages
    rw [flatMap_page hlimit, List.take_of_length_le hpages]
  · exact fun offset ho limit hl => select_eq_page_iff hsort c start ending ho hl hby power

/-- The process after an add of each name. -/
def twoNames (name name' : Name) : Process (Wrtstat.reference 1 false) :=
  [StorageCall.add 1 allOk name { ts := 5, count := 1 }, .add 1 allOk name' { ts := 5, count := 1 }].foldl
    Process.step (Process.start (Wrtstat.reference 1 false) { keyCache := { resolution := 1 } } 0 4 10)

theorem select_pages_ranking_of_two_names :
    ∃ ranking, (twoNames [97] [98]).storage.keyCache.Ranks [] [] .count false ranking ∧
      (twoNames [97] [98]).storage.keyCache.select insertionSort [] [] 1 5 .count false = some (page 1 5 ranking) := by
  have hby : SortBy.count ≠ .nosort := by decide
  obtain ⟨ranking, hranks, -, hpages⟩ := select_pages_ranking_iff (W := Wrtstat.reference 1 false)
    sorts_insertionSort { keyCache := { resolution := 1 } } 0 4 10
    [StorageCall.add 1 allOk [97] { ts := 5, count := 1 }, .add 1 allOk [98] { ts := 5, count := 1 }] [] [] hby false
  exact ⟨ranking, hranks, (hpages 1 (by decide) 5 (by decide)).mpr (.inr (.inr (.inl (by decide))))⟩

/-- With the largest limit the page behind the first name ends before it begins. -/
theorem select_page_ends_beyond :
    (twoNames [97] [98]).storage.keyCache.select insertionSort [] [] 0 0 .count false = some [([97], 0), ([98], 0)] ∧
      (twoNames [97] [98]).storage.keyCache.select insertionSort [] [] 1 (2 ^ 64 - 1) .count false = none := by
  decide +kernel

end KeyCache

end WfcBtp
