import WfcBtp.Library.Guarded
import WfcBtp.Model.Checked
import WfcBtp.Model.WrtstatReference
import WfcBtp.Proofs.Reopening

/-!
# Divisions

Which calls reach a division by zero. The number of databases is never zero, whatever the
options say; the number of mutexes and the resolution are what the options say.
-/

namespace WfcBtp
open Library

variable {W : Wrtstat}

/-! ### The choices and the quotient -/

lemma chooseIndex_of_ne_zero {size : ℕ} (h : size ≠ 0) (k : ℕ) :
    chooseIndex k size = some ⟨k % size, Nat.mod_lt k (Nat.pos_of_ne_zero h)⟩ := by
  rw [chooseIndex, if_neg h, dif_pos]

lemma chooseIndex_zero (k : ℕ) : chooseIndex k 0 = none := rfl

lemma divide_guarded (a b : ℤ) : Guarded (divide a b) (b ≠ 0) (a.tdiv b) :=
  ⟨fun h => if_neg h, fun h => if_pos (not_not.mp h)⟩

namespace KeyCache

lemma getMutex?_guarded (c : KeyCache W) (k : KeyId) :
    Guarded (c.getMutex? k) (c.options.mutexHash ≠ 0) (c.getMutex k) := by
  constructor
  · intro h
    rw [getMutex?, chooseIndex_of_ne_zero h]
    rfl
  · intro h
    rw [getMutex?, not_not.mp h, chooseIndex_zero]
    rfl

/-- Using a name that is not cached selects a mutex for it. -/
def HasMutexFor (c : KeyCache W) (name : Name) : Prop :=
  (c.keyMap.find? name).isSome ∨ c.options.mutexHash ≠ 0

/-- Restoring a key selects a mutex and divides by the resolution. -/
def Restores (opt : KeyCacheOptions) : Prop := opt.mutexHash ≠ 0 ∧ opt.resolution ≠ 0

instance (c : KeyCache W) (name : Name) : Decidable (c.HasMutexFor name) :=
  inferInstanceAs (Decidable (_ ∨ _))

instance (opt : KeyCacheOptions) : Decidable (Restores opt) := inferInstanceAs (Decidable (_ ∧ _))

lemma getOrCreate?_guarded (c : KeyCache W) (clock : ℤ) (name : Name) (nowTs : ℤ) :
    Guarded (c.getOrCreate? clock name nowTs) (c.HasMutexFor name) (c.getOrCreate clock name nowTs) := by
  unfold getOrCreate? getOrCreate HasMutexFor
  cases c.keyMap.find? name with
  | some ka => exact (Guarded.of_some _).congr (iff_of_true trivial (Or.inl rfl))
  | none =>
    have hnew : c.options.mutexHash ≠ 0 ↔ (none : Option (KeyAggregator W)).isSome ∨ c.options.mutexHash ≠ 0 :=
      (or_iff_right Bool.false_ne_true).symm
    apply Guarded.congr _ hnew
    exact (c.getMutex?_guarded _).bind_of_eq_some rfl

lemma create?_guarded (c : KeyCache W) (clock : ℤ) (name : Name) (nowTs : ℤ) :
    Guarded (c.create? clock name nowTs) (c.HasMutexFor name) (c.create clock name nowTs) :=
  (c.getOrCreate?_guarded clock name nowTs).bind_of_eq_some rfl

lemma add?_guarded (c : KeyCache W) (clock : ℤ) (name : Name) (data : AggregatedData) :
    Guarded (c.add? clock name data) (c.HasMutexFor name) (c.add clock name data) :=
  (c.getOrCreate?_guarded clock name data.ts).bind_of_eq_some rfl

/-- An empty list is turned away before a key is needed for it. -/
lemma merge?_guarded (c : KeyCache W) (clock : ℤ) (name : Name) (data : List AggregatedInfo) :
    Guarded (c.merge? clock name data) (data = [] ∨ c.HasMutexFor name) (c.merge clock name data) := by
  unfold merge? merge
  cases h : data.getLast? with
  | none =>
    have hnil : data = [] := List.getLast?_eq_none_iff.mp h
    exact (Guarded.of_some _).congr (iff_of_true trivial (Or.inl hnil))
  | some d =>
    have hne : data ≠ [] := by
      rintro rfl
      exact absurd h (by simp)
    apply Guarded.congr _ (or_iff_right hne).symm
    exact (c.getOrCreate?_guarded clock name d.ts).bind_of_eq_some rfl

lemma init?_guarded (c : KeyCache W) (clock : ℤ) (info : StoredName) :
    Guarded (c.init? clock info) (Restores c.options) (c.init clock info) := by
  have hopt : (if c.keyCounter < info.id then { c with keyCounter := info.id } else c).options = c.options := by
    split_ifs <;> rfl
  unfold init? init Restores
  generalize (if c.keyCounter < info.id then { c with keyCounter := info.id } else c) = c' at hopt
  rw [← hopt]
  exact (c'.getMutex?_guarded info.id).bind ((divide_guarded _ _).bind_of_eq_some rfl)

end KeyCache

/-! ### The databases -/

namespace DataStorage

/-- `open` leaves at least one database. -/
lemma shard?_eq (s : DataStorage) (id : KeyId) : s.shard? id = some (s.shard id) :=
  chooseIndex_of_ne_zero s.hashSize_pos.ne' id

lemma set?_eq (s : DataStorage) (ok : Bool) (id : KeyId) (data : AggregatedInfo) :
    s.set? ok id data = some (s.set ok id data) := by
  rw [set?, shard?_eq]
  rfl

lemma inc?_eq (s : DataStorage) (ok : Bool) (id : KeyId) (data : AggregatedInfo) :
    s.inc? W ok id data = some (s.inc W ok id data) := by
  rw [inc?, shard?_eq]
  rfl

lemma get?_eq (s : DataStorage) (id : KeyId) (ts : ℤ) (offset limit : ℕ) :
    s.get? id ts offset limit = some (s.get id ts offset limit) := by
  rw [get?, shard?_eq]
  rfl

lemma del?_eq (s : DataStorage) (ok : Outcomes) (i : ℕ) (id : KeyId) :
    s.del? ok i id = some (s.del ok i id) := by
  rw [del?, shard?_eq]
  rfl

end DataStorage

/-! ### Opening -/

namespace Storage

lemma loadFun?_guarded (clock : ℤ) (kc : KeyCache W) (vsn : List StoredName) :
    Guarded (loadFun? clock kc vsn) (vsn = [] ∨ KeyCache.Restores kc.options) (loadFun clock kc vsn) := by
  have hinit : ∀ (kc : KeyCache W) sn, Guarded ((kc.init? clock sn).map Prod.snd)
      (KeyCache.Restores kc.options) (kc.init clock sn).2 :=
    fun kc sn => (kc.init?_guarded clock sn).map Prod.snd
  have hopt : ∀ (kc : KeyCache W) sn, KeyCache.Restores (kc.init clock sn).2.options ↔
      KeyCache.Restores kc.options := by
    intro kc sn
    rw [KeyCache.init_options]
  exact (Guarded.foldlM hinit kc vsn).congr (RunMeets.const_iff hopt kc vsn)

/-- One batch after another is one key after another. -/
lemma foldlM_loadFun? (clock : ℤ) (kc : KeyCache W) (batches : List (List StoredName)) :
    batches.foldlM (loadFun? clock) kc = loadFun? clock kc batches.flatten := by
  induction batches generalizing kc with
  | nil => rfl
  | cons b rest ih =>
    have hsplit : loadFun? clock kc (b ++ rest.flatten) =
        loadFun? clock kc b >>= fun kc' => loadFun? clock kc' rest.flatten := List.foldlM_append
    rw [List.foldlM_cons, List.flatten_cons, hsplit]
    congr 1
    funext kc'
    exact ih kc'

lemma loadCache?_guarded (opt : KeyCacheOptions) (clock : ℤ) (ks : KeyStorage) :
    Guarded (loadCache? opt clock ks : Option (KeyCache W)) (ks.names = [] ∨ KeyCache.Restores opt)
      (loaded opt clock ks) := by
  rw [loadCache?, foldlM_loadFun?, KeyStorage.load_flatten]
  exact loadFun?_guarded clock (KeyCache.new opt) ks.names

lemma openOn?_guarded (opt : StorageOptions) (clock : ℤ) (ks : KeyStorage) (ds : DataStorage) :
    Guarded (openOn? opt clock ks ds : Option (Storage W)) (ks.names = [] ∨ KeyCache.Restores opt.keyCache)
      (openOn opt clock ks ds) := by
  apply (loadCache?_guarded opt.keyCache clock ks).bind_of_eq_some
  rw [← openOn_keyCache opt clock ks ds]
  rfl

/-! ### The calls of an open storage -/

lemma setAll?_eq (ok : Outcomes) (id : KeyId) (l : List AggregatedInfo) (i : ℕ) (ds : DataStorage) :
    setAll? ok id l i ds = some (setAll ok id l i ds) := by
  induction l generalizing i ds with
  | nil => rfl
  | cons ud rest ih =>
    rw [setAll?, setAll, DataStorage.set?_eq, Option.bind_eq_bind, Option.bind_some]
    cases h : ds.set (ok i) id ud with
    | mk st ds' =>
      cases st with
      | ok _ => exact ih (i + 1) ds'
      | error e => rfl

lemma incAll?_eq (ok : Outcomes) (id : KeyId) (l : List AggregatedInfo) (i : ℕ) (ds : DataStorage) :
    incAll? W ok id l i ds = some (incAll W ok id l i ds) := by
  induction l generalizing i ds with
  | nil => rfl
  | cons ud rest ih =>
    rw [incAll?, incAll, DataStorage.inc?_eq, Option.bind_eq_bind, Option.bind_some]
    cases h : ds.inc W (ok i) id ud with
    | mk st ds' =>
      cases st with
      | ok _ => exact ih (i + 1) ds'
      | error e => rfl

lemma storeKeyAndData?_eq (s : Storage W) (ok : Outcomes) (name : Name) (r : CacheResult W) :
    s.storeKeyAndData? ok name r = some (s.storeKeyAndData ok name r) := by
  unfold storeKeyAndData? storeKeyAndData
  cases h : s.keyStorage.set (ok 0) name r.upKey with
  | mk st ks =>
    cases st with
    | ok _ =>
      simp only [setAll?_eq]
      rfl
    | error e => rfl

lemma add?_guarded (s : Storage W) (clock : ℤ) (ok : Outcomes) (name : Name) (data : AggregatedData) :
    Guarded (s.add? clock ok name data) (s.keyCache.HasMutexFor name) (s.add clock ok name data) := by
  unfold add? add
  apply (s.keyCache.add?_guarded clock name data).bind_of_eq_some
  dsimp only
  split_ifs
  · rfl
  · exact storeKeyAndData?_eq _ _ _ _
  · rw [setAll?_eq]
    rfl
  · rw [incAll?_eq]
    rfl

lemma merge?_guarded (s : Storage W) (clock : ℤ) (ok : Outcomes) (name : Name) (data : List AggregatedInfo) :
    Guarded (s.merge? clock ok name data) (data = [] ∨ s.keyCache.HasMutexFor name)
      (s.merge clock ok name data) := by
  unfold merge? merge
  by_cases hnil : data = []
  · rw [if_pos (List.isEmpty_iff.mpr hnil), if_pos (List.isEmpty_iff.mpr hnil)]
    exact (Guarded.of_some _).congr (iff_of_true trivial (Or.inl hnil))
  · have hne : ¬data.isEmpty = true := fun h => hnil (List.isEmpty_iff.mp h)
    rw [if_neg hne, if_neg hne]
    apply (s.keyCache.merge?_guarded clock name data).bind_of_eq_some
    dsimp only
    split_ifs
    · rfl
    · exact storeKeyAndData?_eq _ _ _ _

lemma get?_eq (s : Storage W) (clock : ℤ) (name : Name) (ts : ℤ) (offset limit : ℕ) :
    s.get? clock name ts offset limit = some (s.get clock name ts offset limit) := by
  unfold get? get
  dsimp only
  by_cases h : s.keyCache.getId name = badKey
  · rw [if_pos h, if_pos h]
  · rw [if_neg h, if_neg h, DataStorage.get?_eq]
    rfl

lemma del?_eq (s : Storage W) (ok : Outcomes) (name : Name) : s.del? ok name = some (s.del ok name) := by
  unfold del? del
  dsimp only
  by_cases h : (s.keyCache.del name).1 = badKey
  · rw [if_pos h, if_pos h]
  · rw [if_neg h, if_neg h]
    cases hdel : s.keyStorage.del (ok 0) name with
    | mk st ks =>
      cases st with
      | ok _ =>
        simp only [DataStorage.del?_eq]
        rfl
      | error e => rfl

/-! ### Runs -/

/-- The options have what the call needs of them: mutexes where it makes a key, and also a
resolution where it restores one. -/
def DividesWell (s : Storage W) : DividingCall → Prop
  | .openOver opt _ ks _ _ _ => ks.names = [] ∨ KeyCache.Restores opt.keyCache
  | .init _ _ => KeyCache.Restores s.keyCache.options
  | .create _ name _ => s.keyCache.HasMutexFor name
  | .add _ _ name _ => s.keyCache.HasMutexFor name
  | .merge _ _ name data => data = [] ∨ s.keyCache.HasMutexFor name
  | .get _ _ _ _ _ => True
  | .del _ _ => True
  | .dataGet _ _ _ _ => True
  | .dataDel _ _ => True

instance (s : Storage W) : ∀ c, Decidable (s.DividesWell c)
  | .openOver opt _ ks _ _ _ => inferInstanceAs (Decidable (ks.names = [] ∨ KeyCache.Restores opt.keyCache))
  | .init _ _ => inferInstanceAs (Decidable (KeyCache.Restores s.keyCache.options))
  | .create _ name _ => inferInstanceAs (Decidable (s.keyCache.HasMutexFor name))
  | .add _ _ name _ => inferInstanceAs (Decidable (s.keyCache.HasMutexFor name))
  | .merge _ _ name data => inferInstanceAs (Decidable (data = [] ∨ s.keyCache.HasMutexFor name))
  | .get _ _ _ _ _ => inferInstanceAs (Decidable True)
  | .del _ _ => inferInstanceAs (Decidable True)
  | .dataGet _ _ _ _ => inferInstanceAs (Decidable True)
  | .dataDel _ _ => inferInstanceAs (Decidable True)

lemma call?_guarded (s : Storage W) (c : DividingCall) :
    Guarded (s.call? c) (s.DividesWell c) (s.call c) := by
  cases c with
  | openOver opt clock ks hashSize resultLimit content => exact openOn?_guarded opt clock ks _
  | init clock info => exact (s.keyCache.init?_guarded clock info).map _
  | create clock name nowTs => exact (s.keyCache.create?_guarded clock name nowTs).map _
  | add clock ok name data => exact (s.add?_guarded clock ok name data).map _
  | merge clock ok name data => exact (s.merge?_guarded clock ok name data).map _
  | get clock name ts offset limit =>
    rw [call?, get?_eq]
    exact Guarded.of_some s
  | del ok name =>
    rw [call?, del?_eq]
    exact Guarded.of_some _
  | dataGet id ts offset limit =>
    rw [call?, DataStorage.get?_eq]
    exact Guarded.of_some s
  | dataDel ok id =>
    rw [call?, DataStorage.del?_eq]
    exact Guarded.of_some _

/-- A run of calls divides by zero nowhere, and leaves what its calls leave, exactly if each
call finds the options that it needs. -/
theorem divisions_defined_iff (s : Storage W) (calls : List DividingCall) :
    ((calls.foldlM call? s).isSome ↔ RunMeets call DividesWell s calls) ∧
      (RunMeets call DividesWell s calls → calls.foldlM call? s = some (calls.foldl call s)) := by
  have hrun := Guarded.foldlM call?_guarded s calls
  exact ⟨hrun.isSome_iff, hrun.eq_some⟩

/-- No mutexes and a new name; no resolution and a key to restore, from a call or from key
storage. A `hash_size` of zero is the same in all three runs, and harmless. -/
theorem zero_options_divide :
    let noMutex : StorageOptions := { keyCache := { mutexHash := 0, resolution := 1 } }
    let noResolution : StorageOptions := { keyCache := { resolution := 0 } }
    let stored : KeyStorage := ⟨OrderedMap.empty.set [97] { id := 1 }⟩
    let s := fresh (.reference 1 false) { keyCache := { resolution := 1 } } 0 0 10
    [.openOver noMutex 0 KeyStorage.create 0 10 fun _ => OrderedMap.empty,
        .add 0 allOk [97] { ts := 5, count := 1, data := [7] }].foldlM call? s = none ∧
      [.openOver noResolution 0 KeyStorage.create 0 10 fun _ => OrderedMap.empty,
        .init 0 { id := 1, name := [97] }].foldlM call? s = none ∧
      [.openOver noResolution 0 stored 0 10 fun _ => OrderedMap.empty].foldlM call? s = none :=
  ⟨rfl, rfl, rfl⟩

end Storage

end WfcBtp
