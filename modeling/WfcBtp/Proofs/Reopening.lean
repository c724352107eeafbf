import WfcBtp.Library.RunningMax
import WfcBtp.Proofs.KeyCacheIndexes
import WfcBtp.Proofs.Writes

/-!
# Closing and opening

What `close` leaves in the two storages, and the cache that `open` restores from them.
-/

namespace WfcBtp
open Library

variable {W : Wrtstat}

namespace Storage

/-! ### Close -/

/-- The names are released in order, each written under the id the cache has for it. -/
lemma closeLoop_spec (l : List (StoredName × List AggregatedInfo)) (i : ℕ) (s : Storage W) :
    (closeLoop allOk l i s).1 = .ok () ∧
      (closeLoop allOk l i s).2.keyCache = s.keyCache ∧
      (∀ name, (closeLoop allOk l i s).2.keyStorage.key? name =
        (l.filter fun kv => kv.1.name = name).foldl (fun _ kv => some kv.1.toStoredKey)
          (s.keyStorage.key? name)) ∧
      ∀ id, (closeLoop allOk l i s).2.dataStorage.point? id =
        (l.filter fun kv => s.keyCache.getId kv.1.name = id).foldl (fun pts kv => kv.2.foldl setPoint pts)
          (s.dataStorage.point? id) := by
  induction l generalizing i s with
  | nil => exact ⟨rfl, rfl, fun _ => rfl, fun _ => rfl⟩
  | cons kv rest ih =>
    let ks := (s.keyStorage.set true kv.1.name kv.1.toStoredKey).2
    let ds := (setAll allOk (s.keyCache.getId kv.1.name) kv.2 (i + 1) s.dataStorage).2
    have hset : setAll allOk (s.keyCache.getId kv.1.name) kv.2 (i + 1) s.dataStorage = (.ok (), ds) :=
      Prod.ext (setAll_status _ _ _ _) rfl
    have hstep : closeLoop allOk (kv :: rest) i s =
        closeLoop allOk rest (i + 1 + kv.2.length) { s with keyStorage := ks, dataStorage := ds } := by
      simp only [closeLoop, allOk_apply, KeyStorage.set, if_true, hset]
      rfl
    obtain ⟨hok, hcache, hkeys, hpts⟩ := ih (i + 1 + kv.2.length) { s with keyStorage := ks, dataStorage := ds }
    rw [hstep]
    refine ⟨hok, hcache, fun name => ?_, fun id => ?_⟩
    · rw [hkeys, KeyStorage.key?_set]
      by_cases h : kv.1.name = name
      · simp [h]
      · simp [h, Ne.symm h]
    · rw [hpts, point?_setAll]
      by_cases h : s.keyCache.getId kv.1.name = id
      · simp [h]
      · simp [h, Ne.symm h]

lemma close_status (s : Storage W) : (s.close allOk).1 = .ok () := (closeLoop_spec _ _ _).1

lemma release_find? (c : KeyCache W) (name : Name) :
    c.release.2.keyMap.find? name =
      (c.keyMap.find? name).map fun ka => (ka.aggregateLastPointIf [] true).1 :=
  OrderedMap.find?_mapValues _ _ _

/-- Popping the open period keeps the id. -/
lemma aggregateLastPointIf_getId (ka : KeyAggregator W) (upData : List AggregatedInfo) (force : Bool) :
    (ka.aggregateLastPointIf upData force).1.getId = ka.getId := by
  unfold KeyAggregator.aggregateLastPointIf
  split_ifs
  all_goals first | rfl | (dsimp only; split <;> rfl)

lemma release_getId (c : KeyCache W) (name : Name) : c.release.2.getId name = c.getId name := by
  unfold KeyCache.getId
  rw [release_find?]
  cases c.keyMap.find? name with
  | none => rfl
  | some ka => exact aggregateLastPointIf_getId _ _ _

/-- Every cached key's info is stored, as it was before the open period was popped. -/
lemma close_key? (s : Storage W) (name : Name) :
    (s.close allOk).2.keyStorage.key? name =
      ((s.keyCache.keyMap.find? name).map (·.keyInfo)).or (s.keyStorage.key? name) := by
  rw [close, (closeLoop_spec _ _ _).2.2.1]
  simp only [KeyCache.release, List.filter_map, List.foldl_map]
  cases hk : s.keyCache.keyMap.find? name with
  | none =>
    have hnil : s.keyCache.keyMap.entries.filter ((fun kv : StoredName × List AggregatedInfo =>
        decide (kv.1.name = name)) ∘ fun e : Name × KeyAggregator W =>
        ({ toStoredKey := e.2.getKeyInfo, name := e.1 }, (e.2.aggregateLastPointIf [] true).2)) = [] := by
      rw [List.filter_eq_nil_iff]
      rintro ⟨n, ka⟩ he
      have hn : s.keyCache.keyMap.find? n = some ka := (OrderedMap.mem_entries_iff _ _ _).mp he
      have hne : n ≠ name := by
        rintro rfl
        rw [hk] at hn
        exact absurd hn (by simp)
      simpa using hne
    rw [hnil]
    rfl
  | some ka =>
    rw [OrderedMap.filter_entries_of_unique hk (fun e _ => by simp)]
    rfl

/-- The released periods are written under the ids their names are cached with. -/
lemma close_point? (s : Storage W) (id : KeyId) :
    (s.close allOk).2.dataStorage.point? id =
      (s.keyCache.release.1.filter fun kv => s.keyCache.getId kv.1.name = id).foldl
        (fun pts kv => kv.2.foldl setPoint pts) (s.dataStorage.point? id) := by
  rw [close, (closeLoop_spec _ _ _).2.2.2]
  simp only [release_getId]

/-- The open period of a key that has its id to itself is written under that id. -/
lemma close_point?_of_cached {s : Storage W} {name : Name} {ka : KeyAggregator W}
    (hk : s.keyCache.keyMap.find? name = some ka)
    (huniq : ∀ n kb, s.keyCache.keyMap.find? n = some kb → kb.getId = ka.getId → n = name) :
    (s.close allOk).2.dataStorage.point? ka.getId =
      (ka.aggregateLastPointIf [] true).2.foldl setPoint (s.dataStorage.point? ka.getId) := by
  rw [close_point?]
  simp only [KeyCache.release, List.filter_map, List.foldl_map]
  rw [OrderedMap.filter_entries_of_unique hk]
  · rfl
  · rintro ⟨n, kb⟩ he
    have hn : s.keyCache.keyMap.find? n = some kb := (OrderedMap.mem_entries_iff _ _ _).mp he
    simp only [Function.comp_apply, decide_eq_true_eq, KeyCache.getId_of_some hn]
    constructor
    · exact huniq n kb hn
    · rintro rfl
      rw [hk, Option.some.injEq] at hn
      rw [hn]

lemma close_point?_of_not_cached {s : Storage W} {id : KeyId}
    (h : ∀ n ka, s.keyCache.keyMap.find? n = some ka → ka.getId ≠ id) :
    (s.close allOk).2.dataStorage.point? id = s.dataStorage.point? id := by
  rw [close_point?]
  simp only [KeyCache.release, List.filter_map, List.foldl_map]
  have hnil : s.keyCache.keyMap.entries.filter ((fun kv : StoredName × List AggregatedInfo =>
      decide (s.keyCache.getId kv.1.name = id)) ∘ fun e : Name × KeyAggregator W =>
      ({ toStoredKey := e.2.getKeyInfo, name := e.1 }, (e.2.aggregateLastPointIf [] true).2)) = [] := by
    rw [List.filter_eq_nil_iff]
    rintro ⟨n, ka⟩ he
    have hn : s.keyCache.keyMap.find? n = some ka := (OrderedMap.mem_entries_iff _ _ _).mp he
    simpa [KeyCache.getId_of_some hn] using h n ka hn
  rw [hnil]
  rfl

/-- A storage as it is left behind: closed, or dropped. -/
def stop (s : Storage W) (closed : Bool) : Storage W := if closed then (s.close allOk).2 else s

/-! ### Open -/

/-- The key `init` makes from a stored one. -/
def restored (opt : KeyCacheOptions) (sk : StoredKey) : KeyAggregator W :=
  (KeyAggregator.create (sk.id % opt.mutexHash) sk.id sk.lastUpdate opt).setKeyInfo sk.toStoredValues

/-- The cache before the names that have not been used for long are evicted. -/
def loaded (opt : KeyCacheOptions) (clock : ℤ) (ks : KeyStorage) : KeyCache W :=
  ks.names.foldl (fun kc sn => (kc.init clock sn).2) (KeyCache.new opt)

/-- The batches are restored one after another, which is one key after another. -/
lemma foldl_loadFun_load (opt : KeyCacheOptions) (clock : ℤ) (ks : KeyStorage) :
    (ks.load 10000).foldl (loadFun clock) (KeyCache.new opt) = (loaded opt clock ks : KeyCache W) := by
  rw [loaded, ← ks.load_flatten 10000, List.foldl_flatten]
  rfl

lemma openOn_keyCache (opt : StorageOptions) (clock : ℤ) (ks : KeyStorage) (ds : DataStorage) :
    (openOn opt clock ks ds : Storage W).keyCache = ((loaded opt.keyCache clock ks).gc clock).2 := by
  rw [← foldl_loadFun_load]
  rfl

lemma foldl_init_options (clock : ℤ) (l : List StoredName) (c : KeyCache W) :
    (l.foldl (fun kc sn => (kc.init clock sn).2) c).options = c.options := by
  induction l generalizing c with
  | nil => rfl
  | cons sn rest ih => rw [List.foldl_cons, ih, KeyCache.init_options]

lemma foldl_init_find? (clock : ℤ) (l : List StoredName) (c : KeyCache W) (name : Name) :
    (l.foldl (fun kc sn => (kc.init clock sn).2) c).keyMap.find? name =
      (c.keyMap.find? name).or
        ((l.find? fun sn => sn.name = name).map fun sn => restored c.options sn.toStoredKey) := by
  induction l generalizing c with
  | nil => simp
  | cons sn rest ih =>
    rw [List.foldl_cons, ih, KeyCache.init_find?, KeyCache.init_options, List.find?_cons]
    by_cases h : sn.name = name
    · subst h
      cases c.keyMap.find? sn.name with
      | none => simp [restored, KeyCache.getMutex]
      | some ka => simp
    · rw [if_neg (Ne.symm h)]
      simp [h]

lemma foldl_init_keyCounter (clock : ℤ) (l : List StoredName) (c : KeyCache W) :
    (l.foldl (fun kc sn => (kc.init clock sn).2) c).keyCounter = (l.map (·.id)).foldl max c.keyCounter := by
  induction l generalizing c with
  | nil => rfl
  | cons sn rest ih => rw [List.foldl_cons, ih, KeyCache.init_keyCounter, List.map_cons, List.foldl_cons]

lemma find?_names (ks : KeyStorage) (name : Name) :
    ks.names.find? (fun sn => sn.name = name) =
      (ks.key? name).map fun sk => { toStoredKey := sk, name := name } := by
  unfold KeyStorage.names KeyStorage.key? OrderedMap.find?
  induction ks.content.entries with
  | nil => rfl
  | cons e rest ih =>
    rw [List.map_cons, List.find?_cons, lookupEntry]
    by_cases h : e.1 = name
    · simp [h]
    · simp [h, Ne.symm h, ih]

/-- Every stored key is restored. -/
lemma loaded_find? (opt : KeyCacheOptions) (clock : ℤ) (ks : KeyStorage) (name : Name) :
    (loaded opt clock ks : KeyCache W).keyMap.find? name = (ks.key? name).map (restored opt) := by
  rw [loaded, foldl_init_find?, find?_names]
  cases ks.key? name <;> rfl

lemma loaded_options (opt : KeyCacheOptions) (clock : ℤ) (ks : KeyStorage) :
    (loaded opt clock ks : KeyCache W).options = opt :=
  foldl_init_options _ _ _

@[simp] lemma openOn_options (opt : StorageOptions) (clock : ℤ) (ks : KeyStorage) (ds : DataStorage) :
    (openOn opt clock ks ds : Storage W).keyCache.options = opt.keyCache := by
  rw [openOn_keyCache, KeyCache.gc_options, loaded_options]

/-- A name found after opening was restored from its stored key. -/
lemma openOn_find?_of_some {opt : StorageOptions} {clock : ℤ} {ks : KeyStorage} {ds : DataStorage}
    {name : Name} {ka : KeyAggregator W}
    (h : (openOn opt clock ks ds : Storage W).keyCache.keyMap.find? name = some ka) :
    ∃ sk, ks.key? name = some sk ∧ ka = restored opt.keyCache sk := by
  rw [openOn_keyCache, KeyCache.gc_find?] at h
  split_ifs at h
  rw [loaded_find?] at h
  obtain ⟨sk, hsk, hka⟩ := Option.map_eq_some_iff.mp h
  exact ⟨sk, hsk, hka.symm⟩

/-- Without garbage collection every stored key is there after opening. -/
lemma openOn_find?_of_interval_zero {opt : StorageOptions} (hgc : opt.keyCache.gcInterval = 0) (clock : ℤ)
    (ks : KeyStorage) (ds : DataStorage) (name : Name) :
    (openOn opt clock ks ds : Storage W).keyCache.keyMap.find? name =
      (ks.key? name).map (restored opt.keyCache) := by
  rw [openOn_keyCache, KeyCache.gc_of_interval_zero (by rw [loaded_options, hgc])]
  exact loaded_find? _ _ _ _

/-- After opening the counter is the largest stored id. -/
lemma openOn_keyCounter_le {opt : StorageOptions} {clock : ℤ} {ks : KeyStorage} {ds : DataStorage}
    {b : KeyId} :
    (openOn opt clock ks ds : Storage W).keyCache.keyCounter ≤ b ↔
      ∀ name sk, ks.key? name = some sk → sk.id ≤ b := by
  rw [openOn_keyCache, KeyCache.gc_keyCounter, loaded, foldl_init_keyCounter, foldl_max_le_iff]
  constructor
  · rintro ⟨_, h⟩ name sk hsk
    exact h sk.id (List.mem_map.mpr ⟨{ toStoredKey := sk, name := name },
      (ks.mem_names_iff _).mpr hsk, rfl⟩)
  · intro h
    refine ⟨Nat.zero_le _, fun x hx => ?_⟩
    obtain ⟨sn, hsn, rfl⟩ := List.mem_map.mp hx
    exact h sn.name sn.toStoredKey ((ks.mem_names_iff sn).mp hsn)

/-- The indexes agree after opening. -/
lemma openOn_indexesAgree {opt : StorageOptions} (hgc : opt.keyCache.gcInterval ≠ 0) (clock : ℤ)
    (ks : KeyStorage) (ds : DataStorage) :
    (openOn opt clock ks ds : Storage W).keyCache.IndexesAgree := by
  have hload : ∀ (l : List StoredName) (c : KeyCache W), c.options = opt.keyCache → c.IndexesAgree →
      (l.foldl (fun kc sn => (kc.init clock sn).2) c).IndexesAgree := by
    intro l
    induction l with
    | nil => exact fun _ _ h => h
    | cons sn rest ih =>
      intro c hopt h
      refine ih _ ?_ (h.init (by rwa [hopt]) clock sn)
      rw [KeyCache.init_options, hopt]
  rw [openOn_keyCache]
  exact (hload ks.names _ rfl (KeyCache.indexesAgree_new _)).gc clock

/-! ### Empty databases -/

/-- A storage opened over empty databases. -/
def fresh (W : Wrtstat) (opt : StorageOptions) (clock : ℤ) (hashSize resultLimit : ℕ) : Storage W :=
  openOn opt clock KeyStorage.create (DataStorage.create hashSize resultLimit)

variable (opt : StorageOptions) (clock : ℤ) (hashSize resultLimit : ℕ)

@[simp] lemma fresh_find? (name : Name) :
    (fresh W opt clock hashSize resultLimit).keyCache.keyMap.find? name = none := by
  by_contra hne
  obtain ⟨ka, hka⟩ := Option.ne_none_iff_exists'.mp hne
  obtain ⟨sk, hsk, _⟩ := openOn_find?_of_some hka
  exact absurd hsk (by simp)

@[simp] lemma fresh_keyCounter : (fresh W opt clock hashSize resultLimit).keyCache.keyCounter = 0 :=
  Nat.le_zero.mp (openOn_keyCounter_le.mpr fun name sk hsk => absurd hsk (by simp))

@[simp] lemma fresh_options : (fresh W opt clock hashSize resultLimit).keyCache.options = opt.keyCache :=
  openOn_options _ _ _ _

@[simp] lemma fresh_key? (name : Name) : (fresh W opt clock hashSize resultLimit).keyStorage.key? name = none :=
  rfl

@[simp] lemma fresh_point? (id : KeyId) (t : ℤ) :
    (fresh W opt clock hashSize resultLimit).dataStorage.point? id t = none := rfl

end Storage

end WfcBtp
