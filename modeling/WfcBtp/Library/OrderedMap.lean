import Mathlib.Data.List.Sort
import Mathlib.Data.List.TakeWhile

/-!
# Ordered maps

A finite map kept as the list of its entries in strictly increasing key order. The
list is what an iterator of an ordered map walks over, so a scan that starts at a
lower bound is a suffix of it. Two maps with the same bindings are equal.
-/

namespace WfcBtp.Library

/-- A finite map with its entries in strictly increasing key order. -/
structure OrderedMap (κ ν : Type) [LinearOrder κ] where
  entries : List (κ × ν)
  sorted : entries.Pairwise (fun a b => a.1 < b.1)

/-- The value of the first entry with key `k`. -/
def lookupEntry {κ ν : Type} [LinearOrder κ] (k : κ) : List (κ × ν) → Option ν
  | [] => none
  | e :: rest => if k = e.1 then some e.2 else lookupEntry k rest

/-- Insertion into a key-ordered list, replacing the value of an equal key. -/
def insertEntry {κ ν : Type} [LinearOrder κ] (k : κ) (v : ν) : List (κ × ν) → List (κ × ν)
  | [] => [(k, v)]
  | e :: rest =>
    if k < e.1 then (k, v) :: e :: rest
    else if k = e.1 then (k, v) :: rest
    else e :: insertEntry k v rest

namespace OrderedMap

variable {κ ν : Type} [LinearOrder κ]

/-- The map without entries. -/
def empty : OrderedMap κ ν := ⟨[], List.Pairwise.nil⟩

instance : Inhabited (OrderedMap κ ν) := ⟨empty⟩

/-- The value bound to `k`. -/
def find? (m : OrderedMap κ ν) (k : κ) : Option ν := lookupEntry k m.entries

/-- The keys in increasing order. -/
def keys (m : OrderedMap κ ν) : List κ := m.entries.map Prod.fst

def size (m : OrderedMap κ ν) : ℕ := m.entries.length

lemma mem_insertEntry {k : κ} {v : ν} {e : κ × ν} {l : List (κ × ν)}
    (h : e ∈ insertEntry k v l) : e = (k, v) ∨ e ∈ l := by
  induction l with
  | nil => simpa [insertEntry] using h
  | cons hd rest ih =>
    simp only [insertEntry] at h
    split_ifs at h
    · simpa using h
    · rcases List.mem_cons.mp h with h | h
      · exact Or.inl h
      · exact Or.inr (List.mem_cons_of_mem _ h)
    · rcases List.mem_cons.mp h with h | h
      · exact Or.inr (h ▸ List.mem_cons_self)
      · exact (ih h).imp id (List.mem_cons_of_mem _)

lemma sorted_insertEntry (k : κ) (v : ν) {l : List (κ × ν)}
    (h : l.Pairwise (fun a b => a.1 < b.1)) :
    (insertEntry k v l).Pairwise (fun a b => a.1 < b.1) := by
  induction l with
  | nil => simp [insertEntry]
  | cons hd rest ih =>
    obtain ⟨hhd, hrest⟩ := List.pairwise_cons.mp h
    simp only [insertEntry]
    split_ifs with hlt heq
    · exact List.pairwise_cons.mpr ⟨fun e he => (List.mem_cons.mp he).elim
        (fun h' => h' ▸ hlt) (fun h' => hlt.trans (hhd e h')), h⟩
    · exact List.pairwise_cons.mpr ⟨fun e he => heq ▸ hhd e he, hrest⟩
    · refine List.pairwise_cons.mpr ⟨fun e he => ?_, ih hrest⟩
      rcases mem_insertEntry he with rfl | he
      · exact lt_of_le_of_ne (not_lt.mp hlt) (Ne.symm heq)
      · exact hhd e he

/-- Binds `k` to `v`, replacing an earlier binding. -/
def set (m : OrderedMap κ ν) (k : κ) (v : ν) : OrderedMap κ ν :=
  ⟨insertEntry k v m.entries, sorted_insertEntry k v m.sorted⟩

/-- Removes the binding of `k`, if there is one. -/
def erase (m : OrderedMap κ ν) (k : κ) : OrderedMap κ ν :=
  ⟨m.entries.filter (fun e => e.1 ≠ k), m.sorted.filter _⟩

/-- Binds `k` to `v` unless `k` is bound already, and says whether it was not. -/
def insertNew (m : OrderedMap κ ν) (k : κ) (v : ν) : OrderedMap κ ν × Bool :=
  match m.find? k with
  | some _ => (m, false)
  | none => (m.set k v, true)

/-- Applies `f` to every value. -/
def mapValues {ν' : Type} (m : OrderedMap κ ν) (f : κ → ν → ν') : OrderedMap κ ν' :=
  ⟨m.entries.map (fun e => (e.1, f e.1 e.2)), List.pairwise_map.mpr m.sorted⟩

/-- Applies `f` to every value, and leaves out the keys it gives none for. -/
def filterMapValues {ν' : Type} (m : OrderedMap κ ν) (f : ν → Option ν') : OrderedMap κ ν' :=
  ⟨m.entries.filterMap (fun e => (f e.2).map fun v => (e.1, v)), by
    refine List.pairwise_filterMap.mpr (m.sorted.imp fun {a b} hab a' ha b' hb => ?_)
    obtain ⟨v, -, rfl⟩ := Option.map_eq_some_iff.mp ha
    obtain ⟨w, -, rfl⟩ := Option.map_eq_some_iff.mp hb
    exact hab⟩

/-- What an iterator started at the first key not below `k` walks over. -/
def lowerBound (m : OrderedMap κ ν) (k : κ) : List (κ × ν) :=
  m.entries.dropWhile (fun e => e.1 < k)

lemma lookupEntry_insertEntry (k k' : κ) (v : ν) (l : List (κ × ν)) :
    lookupEntry k' (insertEntry k v l) = if k' = k then some v else lookupEntry k' l := by
  induction l with
  | nil => rfl
  | cons hd rest ih =>
    simp only [insertEntry]
    split_ifs with hlt heq <;> grind [lookupEntry]

lemma lookupEntry_filter (k k' : κ) (l : List (κ × ν)) :
    lookupEntry k' (l.filter (fun e => e.1 ≠ k)) = if k' = k then none else lookupEntry k' l := by
  induction l with
  | nil => simp [lookupEntry]
  | cons hd rest ih =>
    by_cases hk : hd.1 = k
    · rw [List.filter_cons_of_neg (by simpa using hk), ih]
      grind [lookupEntry]
    · rw [List.filter_cons_of_pos (by simpa using hk), lookupEntry, ih]
      grind [lookupEntry]

lemma mem_iff_lookupEntry {l : List (κ × ν)} (hs : l.Pairwise (fun a b => a.1 < b.1)) (k : κ) (v : ν) :
    (k, v) ∈ l ↔ lookupEntry k l = some v := by
  induction l with
  | nil => simp [lookupEntry]
  | cons hd rest ih =>
    obtain ⟨hhd, hrest⟩ := List.pairwise_cons.mp hs
    by_cases h : k = hd.1
    · have hnot : (k, v) ∉ rest := fun hm => (hhd _ hm).ne h.symm
      simp only [List.mem_cons, hnot, or_false, lookupEntry, if_pos h, Option.some.injEq]
      exact ⟨fun he => by rw [← he], fun he => Prod.ext h he.symm⟩
    · have hne : (k, v) ≠ hd := fun he => h (by rw [← he])
      simp only [List.mem_cons, hne, false_or, lookupEntry, if_neg h]
      exact ih hrest

lemma mem_dropWhile_iff {l : List (κ × ν)} (hs : l.Pairwise (fun a b => a.1 < b.1)) (k : κ)
    (e : κ × ν) : e ∈ l.dropWhile (fun e => e.1 < k) ↔ k ≤ e.1 ∧ e ∈ l := by
  induction l with
  | nil => simp
  | cons hd rest ih =>
    obtain ⟨hhd, hrest⟩ := List.pairwise_cons.mp hs
    by_cases h : hd.1 < k
    · have hne : k ≤ e.1 → e ≠ hd := by
        rintro hle rfl
        exact absurd h (not_lt.mpr hle)
      simp only [List.dropWhile_cons, h, decide_true, ite_true, ih hrest, List.mem_cons]
      tauto
    · have hle : ∀ e ∈ hd :: rest, k ≤ e.1 := by
        intro e he
        rcases List.mem_cons.mp he with rfl | he
        · exact not_lt.mp h
        · exact (not_lt.mp h).trans (hhd e he).le
      simp only [List.dropWhile_cons, h, decide_false, Bool.false_eq_true, ite_false]
      exact ⟨fun hm => ⟨hle _ hm, hm⟩, fun hm => hm.2⟩

lemma find?_set (m : OrderedMap κ ν) (k k' : κ) (v : ν) [Decidable (k' = k)] :
    (m.set k v).find? k' = if k' = k then some v else m.find? k' := by
  refine (lookupEntry_insertEntry k k' v m.entries).trans ?_
  split_ifs <;> rfl

@[simp] lemma find?_set_self (m : OrderedMap κ ν) (k : κ) (v : ν) :
    (m.set k v).find? k = some v := by
  simp [find?_set]

lemma find?_erase (m : OrderedMap κ ν) (k k' : κ) [Decidable (k' = k)] :
    (m.erase k).find? k' = if k' = k then none else m.find? k' := by
  refine (lookupEntry_filter k k' m.entries).trans ?_
  split_ifs <;> rfl

lemma find?_mapValues {ν' : Type} (m : OrderedMap κ ν) (f : κ → ν → ν') (k : κ) :
    (m.mapValues f).find? k = (m.find? k).map (f k) := by
  simp only [find?, mapValues]
  induction m.entries with
  | nil => rfl
  | cons hd rest ih =>
    by_cases h : k = hd.1
    · simp [lookupEntry, h]
    · simp [lookupEntry, h, ih]

lemma mem_entries_iff (m : OrderedMap κ ν) (k : κ) (v : ν) :
    (k, v) ∈ m.entries ↔ m.find? k = some v :=
  mem_iff_lookupEntry m.sorted k v

lemma mem_keys_iff (m : OrderedMap κ ν) (k : κ) : k ∈ m.keys ↔ (m.find? k).isSome := by
  simp only [keys, List.mem_map, Option.isSome_iff_exists, ← mem_entries_iff]
  constructor
  · rintro ⟨⟨k', v⟩, hm, rfl⟩
    exact ⟨v, hm⟩
  · rintro ⟨v, hm⟩
    exact ⟨(k, v), hm, rfl⟩

lemma keys_sorted (m : OrderedMap κ ν) : m.keys.Pairwise (· < ·) :=
  List.pairwise_map.mpr m.sorted

lemma keys_nodup (m : OrderedMap κ ν) : m.keys.Nodup :=
  m.keys_sorted.imp ne_of_lt

/-- Maps with the same bindings are the same map. -/
@[ext]
lemma ext {m m' : OrderedMap κ ν} (h : ∀ k, m.find? k = m'.find? k) : m = m' := by
  have hperm : m.entries.Perm m'.entries := by
    rw [List.perm_ext_iff_of_nodup (m.sorted.imp fun hab => ne_of_apply_ne Prod.fst hab.ne)
      (m'.sorted.imp fun hab => ne_of_apply_ne Prod.fst hab.ne)]
    rintro ⟨k, v⟩
    rw [mem_entries_iff, mem_entries_iff, h]
  have heq : m.entries = m'.entries :=
    hperm.eq_of_pairwise (fun a b _ _ hab hba => absurd hab hba.asymm) m.sorted m'.sorted
  cases m
  cases m'
  congr

lemma size_mapValues {ν' : Type} (m : OrderedMap κ ν) (f : κ → ν → ν') : (m.mapValues f).size = m.size :=
  List.length_map _

lemma mapValues_set {ν' : Type} (m : OrderedMap κ ν) (f : κ → ν → ν') (k : κ) (v : ν) :
    (m.set k v).mapValues f = (m.mapValues f).set k (f k v) := by
  ext1 k'
  rw [find?_mapValues, find?_set, find?_set, find?_mapValues]
  split_ifs with hk
  · rw [hk, Option.map_some]
  · rfl

lemma mapValues_erase {ν' : Type} (m : OrderedMap κ ν) (f : κ → ν → ν') (k : κ) :
    (m.erase k).mapValues f = (m.mapValues f).erase k := by
  ext1 k'
  rw [find?_mapValues, find?_erase, find?_erase, find?_mapValues]
  split_ifs
  · rfl
  · rfl

/-- A test that only the binding of one key passes selects that binding. -/
lemma filter_entries_of_unique {m : OrderedMap κ ν} {k : κ} {v : ν} (hm : m.find? k = some v)
    {p : κ × ν → Bool} (hp : ∀ e ∈ m.entries, p e = true ↔ e.1 = k) : m.entries.filter p = [(k, v)] := by
  have hmem := (m.mem_entries_iff k v).mpr hm
  have hnodup : (m.entries.filter p).Nodup :=
    (m.sorted.imp fun hab => ne_of_apply_ne Prod.fst hab.ne).filter p
  have hperm : (m.entries.filter p).Perm [(k, v)] := by
    rw [List.perm_ext_iff_of_nodup hnodup (List.nodup_singleton _)]
    rintro ⟨k', v'⟩
    rw [List.mem_filter, List.mem_singleton]
    constructor
    · rintro ⟨he, hpe⟩
      have hk : k' = k := (hp _ he).mp hpe
      subst hk
      rw [mem_entries_iff, hm, Option.some.injEq] at he
      rw [he]
    · intro heq
      rw [heq]
      exact ⟨hmem, (hp _ hmem).mpr rfl⟩
  exact List.perm_singleton.mp hperm

lemma find?_filterMapValues {ν' : Type} (m : OrderedMap κ ν) (f : ν → Option ν') (k : κ) :
    (m.filterMapValues f).find? k = (m.find? k).bind f := by
  apply Option.ext
  intro v
  rw [← mem_entries_iff, filterMapValues, List.mem_filterMap, Option.bind_eq_some_iff]
  constructor
  · rintro ⟨e, he, hv⟩
    obtain ⟨w, hw, heq⟩ := Option.map_eq_some_iff.mp hv
    obtain ⟨rfl, rfl⟩ := Prod.mk.inj heq
    exact ⟨e.2, (m.mem_entries_iff _ _).mp he, hw⟩
  · rintro ⟨w, hw, hv⟩
    refine ⟨(k, w), (m.mem_entries_iff _ _).mpr hw, ?_⟩
    rw [hv]
    rfl

lemma mem_lowerBound_iff (m : OrderedMap κ ν) (k k' : κ) (v : ν) :
    (k', v) ∈ m.lowerBound k ↔ k ≤ k' ∧ m.find? k' = some v := by
  rw [← mem_entries_iff]
  exact mem_dropWhile_iff m.sorted k (k', v)

lemma lowerBound_mapValues {ν' : Type} (m : OrderedMap κ ν) (f : κ → ν → ν') (k : κ) :
    (m.mapValues f).lowerBound k = (m.lowerBound k).map fun e => (e.1, f e.1 e.2) := by
  simp only [lowerBound, mapValues, List.dropWhile_map]
  rfl

lemma sorted_lowerBound (m : OrderedMap κ ν) (k : κ) :
    (m.lowerBound k).Pairwise (fun a b => a.1 < b.1) :=
  m.sorted.sublist (List.dropWhile_sublist _)

/-- Before the lower bound there are only smaller keys. -/
lemma exists_append_lowerBound (m : OrderedMap κ ν) (k : κ) :
    ∃ before, m.entries = before ++ m.lowerBound k ∧ ∀ e ∈ before, e.1 < k := by
  refine ⟨m.entries.takeWhile fun e => e.1 < k, List.takeWhile_append_dropWhile.symm, fun e he => ?_⟩
  simpa using List.mem_takeWhile_imp he

lemma find?_insertNew (m : OrderedMap κ ν) (k k' : κ) (v : ν) [Decidable (k' = k)] :
    (m.insertNew k v).1.find? k' =
      if k' = k then some ((m.find? k).getD v) else m.find? k' := by
  cases h : m.find? k with
  | some v' => by_cases hk : k' = k <;> simp [insertNew, h, hk]
  | none => simp [insertNew, h, find?_set]

end OrderedMap

end WfcBtp.Library
