import WfcBtp.Proofs.KeyIds

/-!
# What every key info keeps

A key info starts empty, records points, and is copied into an empty one when its key is
restored. What these three keep holds of every cached and stored key info, whatever calls
are made and whatever writes fail.
-/

namespace WfcBtp
open Library

variable {W : Wrtstat} {P : StoredValues → Prop}

namespace KeyAggregator

/-- A property of key infos that they start with and that recording and restoring keep. -/
structure Kept (P : StoredValues → Prop) : Prop where
  new : P {}
  update : ∀ (ki : StoredKey) (d : AggregatedInfo), P ki.toStoredValues → P (updateInfo ki d).toStoredValues
  set : ∀ (id : KeyId) (si : StoredValues), P si → P (setInfo { id := id } si).toStoredValues

namespace Kept

variable (h : Kept P) {ka : KeyAggregator W}

include h

lemma foldl (ds : List AggregatedInfo) {ki : StoredKey} (hki : P ki.toStoredValues) :
    P (ds.foldl updateInfo ki).toStoredValues := by
  induction ds generalizing ki with
  | nil => exact hki
  | cons d rest ih => exact ih (h.update ki d hki)

lemma add (hka : P ka.keyInfo.toStoredValues) (data : AggregatedData) :
    P (ka.add data []).1.keyInfo.toStoredValues := by
  by_cases hl : ka.isLate data.ts
  · rw [add_of_late hl]
    exact hka
  · rw [add_of_not_late hl]
    exact h.foldl _ hka

lemma merge (hka : P ka.keyInfo.toStoredValues) (data : List AggregatedInfo) :
    P (ka.merge [] data).1.keyInfo.toStoredValues := by
  rw [merge_keyInfo]
  exact h.foldl _ hka

lemma aggregateLastPointIf (hka : P ka.keyInfo.toStoredValues) (upData : List AggregatedInfo) (force : Bool) :
    P (ka.aggregateLastPointIf upData force).1.keyInfo.toStoredValues := by
  unfold KeyAggregator.aggregateLastPointIf
  split_ifs
  · dsimp only
    split
    · exact h.update _ _ hka
    · exact hka
  · dsimp only
    split
    · exact h.update _ _ hka
    · exact hka
  · exact hka

end Kept

end KeyAggregator

namespace Storage

/-- Every cached and every stored key info has the property. -/
structure InfosMeet (P : StoredValues → Prop) (s : Storage W) : Prop where
  cached : ∀ name ka, s.keyCache.keyMap.find? name = some ka → P ka.keyInfo.toStoredValues
  stored : ∀ name key, s.keyStorage.key? name = some key → P key.toStoredValues

namespace InfosMeet

variable {s : Storage W}

lemma keyOrNew (h : InfosMeet P s) (hP : KeyAggregator.Kept P) (name : Name) (ts : ℤ) :
    P (s.keyCache.keyOrNew name ts).keyInfo.toStoredValues := by
  cases hk : s.keyCache.keyMap.find? name with
  | some ka =>
    rw [KeyCache.keyOrNew_of_some ts hk]
    exact h.cached name ka hk
  | none =>
    rw [KeyCache.keyOrNew_of_none ts hk]
    exact hP.new

/-- A call that puts a key info with the property under its name, and stores it or not. -/
lemma of_put (h : InfosMeet P s) {s' : Storage W} {name : Name} {ka : KeyAggregator W}
    (hka : P ka.keyInfo.toStoredValues)
    (hcached : ∀ n, s'.keyCache.keyMap.find? n = if n = name then some ka else s.keyCache.keyMap.find? n)
    (hstored : s'.keyStorage = s.keyStorage ∨ ∃ ok, s'.keyStorage = (s.keyStorage.set ok name ka.keyInfo).2) :
    InfosMeet P s' := by
  constructor
  · intro n kb hk
    rw [hcached] at hk
    split_ifs at hk
    · rwa [← Option.some.inj hk]
    · exact h.cached n kb hk
  · intro n key hkey
    rcases hstored with hs | ⟨ok, hs⟩
    · rw [hs] at hkey
      exact h.stored n key hkey
    · rw [hs] at hkey
      cases ok with
      | false => exact h.stored n key hkey
      | true =>
        rw [KeyStorage.key?_set] at hkey
        split_ifs at hkey
        · rwa [← Option.some.inj hkey]
        · exact h.stored n key hkey

lemma add (h : InfosMeet P s) (hP : KeyAggregator.Kept P) (clock : ℤ) (ok : Outcomes) (name : Name)
    (data : AggregatedData) : InfosMeet P (s.add clock ok name data).2 := by
  have hka : P (s.addKey name data).1.keyInfo.toStoredValues := hP.add (h.keyOrNew hP name data.ts) data
  refine h.of_put hka (s.add_find? clock ok name data) ?_
  unfold Storage.add
  rw [add_result]
  dsimp only
  split_ifs
  · exact .inl rfl
  · exact .inr ⟨_, (storeKeyAndData_keyStorage _ _ _ _).1⟩
  · exact .inl rfl
  · exact .inl rfl

lemma merge (h : InfosMeet P s) (hP : KeyAggregator.Kept P) (clock : ℤ) (ok : Outcomes) (name : Name)
    (data : List AggregatedInfo) : InfosMeet P (s.merge clock ok name data).2 := by
  by_cases hne : data = []
  · subst hne
    exact h
  · have hka : P (s.mergeKey name data).1.keyInfo.toStoredValues := hP.merge (h.keyOrNew hP name _) data
    refine h.of_put hka (s.merge_find? ok hne) ?_
    rw [merge_eq s clock name hne, merge_result s clock name hne]
    dsimp only
    split_ifs
    · exact .inl rfl
    · exact .inr ⟨_, (storeKeyAndData_keyStorage _ _ _ _).1⟩

lemma del (h : InfosMeet P s) (ok : Outcomes) (name : Name) : InfosMeet P (s.del ok name).2 := by
  constructor
  · intro n ka hk
    rw [del_keyCache, KeyCache.del_find?] at hk
    split_ifs at hk
    exact h.cached n ka hk
  · intro n key hkey
    unfold Storage.del at hkey
    dsimp only at hkey
    split_ifs at hkey
    · exact h.stored n key hkey
    · cases hok : ok 0 with
      | false =>
        rw [hok] at hkey
        exact h.stored n key hkey
      | true =>
        rw [hok] at hkey
        change (s.keyStorage.del true name).2.key? n = some key at hkey
        rw [KeyStorage.key?_del] at hkey
        split_ifs at hkey
        exact h.stored n key hkey

lemma gc (h : InfosMeet P s) (clock : ℤ) : InfosMeet P (s.gc clock).2 := by
  refine ⟨fun n ka hk => ?_, h.stored⟩
  change (s.keyCache.gc clock).2.keyMap.find? n = some ka at hk
  rw [KeyCache.gc_find?] at hk
  split_ifs at hk
  exact h.cached n ka hk

lemma close (h : InfosMeet P s) (hP : KeyAggregator.Kept P) (ok : Outcomes) : InfosMeet P (s.close ok).2 := by
  constructor
  · intro n ka hk
    rw [close_keyCache, release_find?] at hk
    obtain ⟨kb, hkb, rfl⟩ := Option.map_eq_some_iff.mp hk
    exact hP.aggregateLastPointIf (h.cached n kb hkb) [] true
  · intro n key hkey
    rcases s.close_key?_cases ok n with hs | ⟨ka, hk, hs⟩
    · rw [hs] at hkey
      exact h.stored n key hkey
    · rw [hs, Option.some.injEq] at hkey
      rw [← hkey]
      exact h.cached n ka hk

lemma openOn (h : InfosMeet P s) (hP : KeyAggregator.Kept P) (opt : StorageOptions) (clock : ℤ) :
    InfosMeet P (Storage.openOn opt clock s.keyStorage s.dataStorage : Storage W) := by
  refine ⟨fun n ka hk => ?_, h.stored⟩
  obtain ⟨sk, hsk, rfl⟩ := openOn_find?_of_some hk
  exact hP.set sk.id _ (h.stored n sk hsk)

end InfosMeet

end Storage

namespace Process

lemma infosMeet_call (hP : KeyAggregator.Kept P) {p : Process W} (h : Storage.InfosMeet P p.storage)
    (c : StorageCall) : Storage.InfosMeet P (p.call c).2.storage := by
  cases c with
  | add clock ok name data => exact h.add hP clock ok name data
  | merge clock ok name data => exact h.merge hP clock ok name data
  | del ok name => exact h.del ok name
  | gc clock => exact h.gc clock
  | close ok =>
    rw [call_close_storage]
    exact h.close hP ok
  | reopen opt clock => exact h.openOn hP opt clock

/-- In every run, every cached and every stored key info has a property they keep. -/
lemma infosMeet_run (hP : KeyAggregator.Kept P) (opt : StorageOptions) (clock : ℤ) (hashSize resultLimit : ℕ)
    (calls : List StorageCall) :
    Storage.InfosMeet P (calls.foldl step (start W opt clock hashSize resultLimit)).storage := by
  have hstart : Storage.InfosMeet P (start W opt clock hashSize resultLimit).storage := by
    refine ⟨fun n ka hk => ?_, fun n key hkey => absurd hkey (by change ¬none = some key; simp)⟩
    obtain ⟨sk, hsk, -⟩ := Storage.openOn_find?_of_some hk
    exact absurd hsk (by simp)
  exact run_of_call (P := fun p => Storage.InfosMeet P p.storage) (fun _ c h => infosMeet_call hP h c) hstart calls

end Process

end WfcBtp
