import WfcBtp.Model.Calls
import WfcBtp.Proofs.Provenance

/-!
# Key ids

Whatever writes fail, the counter of the cache stays above every id in the cache and in
key storage, so a new key never gets an id that another name has. The stored id of a
cached name is its cached one until a write fails.
-/

namespace WfcBtp
open Library

variable {W : Wrtstat}

namespace Storage

/-! ### Calls with failing writes -/

/-- The id the cache has for a name. -/
def cachedId (s : Storage W) (name : Name) : Option KeyId := (s.keyCache.keyMap.find? name).map (·.getId)

/-- The id key storage has for a name. -/
def storedId (s : Storage W) (name : Name) : Option KeyId := (s.keyStorage.key? name).map (·.id)

lemma holds_iff (s : Storage W) (name : Name) (id : KeyId) :
    Traced.Holds s name id ↔ s.cachedId name = some id ∨ s.storedId name = some id := by
  simp only [Traced.Holds, cachedId, storedId, Option.map_eq_some_iff]

lemma storedId_of_set {s s' : Storage W} {ok : Bool} {name : Name} {key : StoredKey}
    (h : s'.keyStorage = (s.keyStorage.set ok name key).2) (name' : Name) :
    s'.storedId name' = if ok = true ∧ name' = name then some key.id else s.storedId name' := by
  unfold storedId
  rw [h]
  cases ok with
  | false => simp [KeyStorage.set]
  | true =>
    rw [KeyStorage.key?_set]
    by_cases hn : name' = name
    · simp [hn]
    · simp [hn]

/-- An add or a merge writes its key first, and goes on only if that did not fail. -/
lemma storeKeyAndData_keyStorage (s : Storage W) (ok : Outcomes) (name : Name) (r : CacheResult W) :
    (s.storeKeyAndData ok name r).2.keyStorage = (s.keyStorage.set (ok 0) name r.upKey).2 ∧
      (Status.writeFailed (s.storeKeyAndData ok name r).1 = false → ok 0 = true) := by
  unfold storeKeyAndData
  cases hok : ok 0 with
  | true => exact ⟨rfl, fun _ => rfl⟩
  | false =>
    have hfailed : s.keyStorage.set false name r.upKey = (.error (.keyPut name), s.keyStorage) := rfl
    rw [hfailed]
    exact ⟨rfl, fun h => h.symm⟩

/-- What an add or a merge of `name` does to the ids: the cached id is the one it works
under, and the stored id may follow. -/
structure KeepsId (s : Storage W) (name : Name) (r : Status × Storage W) : Prop where
  cached : ∀ n, r.2.cachedId n = if n = name then some (s.keyId name) else s.cachedId n
  stored : ∀ n, r.2.storedId n = s.storedId n ∨ n = name ∧ r.2.storedId n = some (s.keyId name)
  counter : r.2.keyCache.keyCounter =
    if (s.keyCache.keyMap.find? name).isSome then s.keyCache.keyCounter else s.keyId name
  created : s.keyId name ≠ badKey → s.cachedId name = none → Status.writeFailed r.1 = false →
    r.2.storedId name = some (s.keyId name)

lemma KeepsId.of_storeKeyAndData {s s' : Storage W} {ok : Outcomes} {name : Name} {c : CacheResult W}
    (hkeys : s'.keyStorage = s.keyStorage) (hid : c.upKey.id = s.keyId name) (n : Name) :
    ((s'.storeKeyAndData ok name c).2.storedId n = s.storedId n ∨
      n = name ∧ (s'.storeKeyAndData ok name c).2.storedId n = some (s.keyId name)) ∧
    (Status.writeFailed (s'.storeKeyAndData ok name c).1 = false →
      (s'.storeKeyAndData ok name c).2.storedId name = some (s.keyId name)) := by
  have hset : (s'.storeKeyAndData ok name c).2.keyStorage = (s.keyStorage.set (ok 0) name c.upKey).2 := by
    rw [(storeKeyAndData_keyStorage s' ok name c).1, hkeys]
  have hstored := storedId_of_set hset
  rw [hid] at hstored
  constructor
  · rw [hstored]
    split_ifs with hn
    · exact .inr ⟨hn.2, rfl⟩
    · exact .inl rfl
  · intro hok
    rw [hstored, if_pos ⟨(storeKeyAndData_keyStorage s' ok name c).2 hok, rfl⟩]

lemma add_keepsId (hstart : W.StartsInTime) (s : Storage W) (clock : ℤ) (ok : Outcomes) (name : Name)
    (data : AggregatedData) : KeepsId s name (s.add clock ok name data) := by
  have hkey : (s.addKey name data).1.keyInfo.id = s.keyId name := addKey_getId s name data
  refine ⟨?_, ?_, add_keyCounter s clock ok name data, ?_⟩
  · intro n
    unfold cachedId
    rw [add_find?]
    split_ifs
    · simp
    · rfl
  · intro n
    unfold add
    rw [add_result]
    dsimp only
    split_ifs with hid hl
    · exact .inl rfl
    · refine (KeepsId.of_storeKeyAndData ?_ ?_ n).1
      · rfl
      · exact hkey
    · exact .inl rfl
    · exact .inl rfl
  · intro hid hnone
    have hnew : s.keyCache.keyMap.find? name = none := Option.map_eq_none_iff.mp hnone
    -- a new key starts no later than the data it is created for
    have hl : (s.addKey name data).2.2 = true := by
      have hnot : ¬(s.keyCache.keyOrNew name data.ts).isLate data.ts := by
        rw [KeyCache.keyOrNew_of_none data.ts hnew]
        exact fun h => absurd h.2 (not_lt.mpr (hstart data.ts))
      rw [addKey, KeyAggregator.add_of_not_late hnot]
    unfold add
    rw [add_result]
    simp only [hid, hl, if_false, if_true]
    refine (KeepsId.of_storeKeyAndData ?_ ?_ name).2
    · rfl
    · exact hkey

lemma merge_keepsId (s : Storage W) (clock : ℤ) (ok : Outcomes) (name : Name) {data : List AggregatedInfo}
    (h : data ≠ []) : KeepsId s name (s.merge clock ok name data) := by
  have hkey : (s.mergeKey name data).1.keyInfo.id = s.keyId name := mergeKey_getId s name data
  refine ⟨?_, ?_, merge_keyCounter s ok h, ?_⟩
  · intro n
    unfold cachedId
    rw [merge_find? s ok h]
    split_ifs
    · simp
    · rfl
  · intro n
    rw [merge_eq s clock name h, merge_result s clock name h]
    dsimp only
    split_ifs with hid
    · exact .inl rfl
    · refine (KeepsId.of_storeKeyAndData ?_ ?_ n).1
      · rfl
      · exact hkey
  · intro hid _
    rw [merge_eq s clock name h, merge_result s clock name h]
    simp only [hid, if_false]
    refine (KeepsId.of_storeKeyAndData ?_ ?_ name).2
    · rfl
    · exact hkey

/-- What the other calls do to the ids: none appears that was not there. -/
structure ForgetsIds (s : Storage W) (r : Status × Storage W) : Prop where
  cached : ∀ n id, r.2.cachedId n = some id → s.cachedId n = some id
  stored : ∀ n id, r.2.storedId n = some id → Traced.Holds s n id
  counter : r.2.keyCache.keyCounter = s.keyCache.keyCounter
  kept : Status.writeFailed r.1 = false → ∀ n id, r.2.cachedId n = some id → s.storedId n = some id →
    r.2.storedId n = some id

lemma del_forgetsIds (s : Storage W) (ok : Outcomes) (name : Name) : ForgetsIds s (s.del ok name) := by
  have hcached : ∀ n, (s.del ok name).2.cachedId n = if n = name then none else s.cachedId n := by
    intro n
    unfold cachedId
    rw [del_keyCache, KeyCache.del_find?]
    split_ifs <;> rfl
  have hstored : (s.del ok name).2.storedId = s.storedId ∨
      (s.del ok name).2.storedId = fun n => if n = name then none else s.storedId n := by
    unfold del
    dsimp only
    split_ifs with hid
    · exact .inl rfl
    · cases ok 0 with
      | false => exact .inl rfl
      | true =>
        refine .inr (funext fun n => ?_)
        unfold storedId
        simp only [KeyStorage.del, if_true]
        exact (congrArg _ (KeyStorage.key?_del s.keyStorage name n)).trans (by split_ifs <;> rfl)
  refine ⟨?_, ?_, ?_, ?_⟩
  · intro n id h
    rw [hcached] at h
    split_ifs at h
    exact h
  · intro n id h
    rw [holds_iff]
    rcases hstored with hs | hs
    · rw [hs] at h
      exact .inr h
    · rw [hs] at h
      dsimp only at h
      split_ifs at h
      exact .inr h
  · rw [del_keyCache]
    exact (KeyCache.del_keyCounter _ _).1
  · intro _ n id hc h
    rw [hcached] at hc
    rcases hstored with hs | hs
    · rw [hs]
      exact h
    · rw [hs]
      split_ifs at hc with hn
      simpa [hn] using h

lemma gc_forgetsIds (s : Storage W) (clock : ℤ) : ForgetsIds s (.ok (), (s.gc clock).2) where
  cached n id h := by
    obtain ⟨ka, hk, hid⟩ := Option.map_eq_some_iff.mp h
    change (s.keyCache.gc clock).2.keyMap.find? n = some ka at hk
    rw [KeyCache.gc_find?] at hk
    split_ifs at hk
    exact Option.map_eq_some_iff.mpr ⟨ka, hk, hid⟩
  stored n id h := (holds_iff s n id).mpr (.inr h)
  counter := KeyCache.gc_keyCounter _ _
  kept _ _ _ _ h := h

/-- Whatever write of a close fails, each stored key is an old one or a released one. -/
lemma closeLoop_key? (ok : Outcomes) (l : List (StoredName × List AggregatedInfo)) (i : ℕ)
    (s : Storage W) :
    (closeLoop ok l i s).2.keyCache = s.keyCache ∧
      ∀ n, (closeLoop ok l i s).2.keyStorage.key? n = s.keyStorage.key? n ∨
        ∃ kv ∈ l, kv.1.name = n ∧ (closeLoop ok l i s).2.keyStorage.key? n = some kv.1.toStoredKey := by
  induction l generalizing i s with
  | nil => exact ⟨rfl, fun _ => .inl rfl⟩
  | cons kv rest ih =>
    -- the key just written, then whatever the rest of the loop writes
    have hhead : ∀ {s' : Storage W} (n : Name),
        s'.keyStorage.key? n = (s.keyStorage.set true kv.1.name kv.1.toStoredKey).2.key? n →
        s'.keyStorage.key? n = s.keyStorage.key? n ∨
          ∃ kv' ∈ kv :: rest, kv'.1.name = n ∧ s'.keyStorage.key? n = some kv'.1.toStoredKey := by
      intro s' n h
      rw [KeyStorage.key?_set] at h
      split_ifs at h with hn
      · exact .inr ⟨kv, List.mem_cons_self, hn.symm, h⟩
      · exact .inl h
    cases hok : ok i with
    | false =>
      have hset : s.keyStorage.set false kv.1.name kv.1.toStoredKey =
          (.error (.keyPut kv.1.name), s.keyStorage) := rfl
      rw [closeLoop, hok, hset]
      exact ⟨rfl, fun _ => .inl rfl⟩
    | true =>
      simp only [closeLoop, KeyStorage.set, hok, if_true]
      split
      · rename_i ds _
        obtain ⟨hcache, hrest⟩ := ih (i + 1 + kv.2.length)
          { s with keyStorage := (s.keyStorage.set true kv.1.name kv.1.toStoredKey).2, dataStorage := ds }
        refine ⟨hcache, fun n => ?_⟩
        rcases hrest n with h | ⟨kv', hkv', hn, h⟩
        · exact hhead n h
        · exact .inr ⟨kv', List.mem_cons_of_mem _ hkv', hn, h⟩
      · exact ⟨rfl, fun n => hhead n rfl⟩

lemma close_keyCache (s : Storage W) (ok : Outcomes) : (s.close ok).2.keyCache = s.keyCache.release.2 :=
  (closeLoop_key? ok s.keyCache.release.1 0 { s with keyCache := s.keyCache.release.2 }).1

/-- What a close stores is what was stored or the key info of a cached key. -/
lemma close_key?_cases (s : Storage W) (ok : Outcomes) (n : Name) :
    (s.close ok).2.keyStorage.key? n = s.keyStorage.key? n ∨
      ∃ ka, s.keyCache.keyMap.find? n = some ka ∧ (s.close ok).2.keyStorage.key? n = some ka.keyInfo := by
  rcases (closeLoop_key? ok s.keyCache.release.1 0 { s with keyCache := s.keyCache.release.2 }).2 n with
    h | ⟨kv, hkv, rfl, h⟩
  · exact .inl h
  · obtain ⟨⟨n, ka⟩, he, rfl⟩ := List.mem_map.mp hkv
    exact .inr ⟨ka, (OrderedMap.mem_entries_iff _ _ _).mp he, h⟩

lemma close_forgetsIds (s : Storage W) (ok : Outcomes) : ForgetsIds s (s.close ok) := by
  have hcached : ∀ n, (s.close ok).2.cachedId n = s.cachedId n := by
    intro n
    unfold cachedId
    rw [close_keyCache, release_find?, Option.map_map]
    exact congrArg (fun f => (s.keyCache.keyMap.find? n).map f)
      (funext fun ka => aggregateLastPointIf_getId ka [] true)
  have hcases : ∀ n, (s.close ok).2.storedId n = s.storedId n ∨
      (s.close ok).2.storedId n ≠ none ∧ (s.close ok).2.storedId n = s.cachedId n := by
    intro n
    unfold storedId cachedId
    rcases s.close_key?_cases ok n with h | ⟨ka, hk, h⟩
    · exact .inl (by rw [h])
    · rw [h, hk]
      exact .inr ⟨by simp, rfl⟩
  refine ⟨?_, ?_, ?_, ?_⟩
  · intro n id h
    rwa [hcached] at h
  · intro n id h
    rw [holds_iff]
    rcases hcases n with hn | ⟨_, hn⟩
    · exact .inr (hn.symm.trans h)
    · exact .inl (hn.symm.trans h)
  · rw [close_keyCache]
    rfl
  · intro _ n id hc h
    rw [hcached] at hc
    rcases hcases n with hn | ⟨_, hn⟩
    · exact hn.trans h
    · exact hn.trans hc

lemma openOn_cachedId {opt : StorageOptions} {clock : ℤ} {ks : KeyStorage} {ds : DataStorage} {n : Name}
    {id : KeyId} (h : (openOn opt clock ks ds : Storage W).cachedId n = some id) :
    (openOn opt clock ks ds : Storage W).storedId n = some id := by
  obtain ⟨ka, hk, rfl⟩ := Option.map_eq_some_iff.mp h
  obtain ⟨sk, hsk, rfl⟩ := openOn_find?_of_some hk
  exact Option.map_eq_some_iff.mpr ⟨sk, hsk, rfl⟩

end Storage

/-! ### The invariant -/

namespace Storage

/-- Every id that is held is one the counter has passed, and has one holder. -/
structure IdsFresh (s : Storage W) : Prop where
  one_le : ∀ name id, Traced.Holds s name id → 1 ≤ id
  le_counter : ∀ name id, Traced.Holds s name id → id ≤ s.keyCache.keyCounter
  inj : ∀ name name' id, Traced.Holds s name id → Traced.Holds s name' id → name = name'

/-- A cached name is stored, under the same id. -/
def SameIds (s : Storage W) : Prop := ∀ name id, s.cachedId name = some id → s.storedId name = some id

variable {s s' : Storage W}

/-- Nothing but what was held is held. -/
lemma IdsFresh.of_forget (h : IdsFresh s)
    (hheld : ∀ name id, Traced.Holds s' name id → Traced.Holds s name id)
    (hle : ∀ name id, Traced.Holds s' name id → id ≤ s'.keyCache.keyCounter) : IdsFresh s' where
  one_le name id hn := h.one_le name id (hheld name id hn)
  le_counter := hle
  inj name name' id hn hn' := h.inj name name' id (hheld name id hn) (hheld name' id hn')

lemma IdsFresh.forgetsIds {r : Status × Storage W} (h : IdsFresh s) (hr : ForgetsIds s r) :
    IdsFresh r.2 := by
  have hheld : ∀ name id, Traced.Holds r.2 name id → Traced.Holds s name id := by
    intro name id hn
    rcases (holds_iff _ _ _).mp hn with hn | hn
    · exact (holds_iff _ _ _).mpr (.inl (hr.cached name id hn))
    · exact hr.stored name id hn
  refine h.of_forget hheld fun name id hn => ?_
  rw [hr.counter]
  exact h.le_counter name id (hheld name id hn)

lemma IdsFresh.cached_le (h : IdsFresh s) (name : Name) (ka : KeyAggregator W)
    (hk : s.keyCache.keyMap.find? name = some ka) : ka.getId ≤ s.keyCache.keyCounter :=
  h.le_counter name _ (.inl ⟨ka, hk, rfl⟩)

lemma IdsFresh.keepsId {r : Status × Storage W} {name : Name} (h : IdsFresh s)
    (hlt : s.keyCache.keyCounter < badKey) (hr : KeepsId s name r) : IdsFresh r.2 := by
  have hheld : ∀ n id, Traced.Holds r.2 n id → Traced.Holds s n id ∨ n = name ∧ id = s.keyId name := by
    intro n id hn
    rw [holds_iff] at hn ⊢
    rcases hn with hn | hn
    · rw [hr.cached] at hn
      split_ifs at hn with hname
      · exact .inr ⟨hname, (Option.some.inj hn).symm⟩
      · exact .inl (.inl hn)
    · rcases hr.stored n with hs | ⟨hname, hs⟩
      · exact .inl (.inr (hs.symm.trans hn))
      · exact .inr ⟨hname, Option.some.inj (hn.symm.trans hs)⟩
  have hmax : r.2.keyCache.keyCounter = max s.keyCache.keyCounter (s.keyId name) := by
    rw [hr.counter, keyCounter_eq_max hlt (h.cached_le name)]
  have hown : ∀ n, Traced.Holds s n (s.keyId name) → n = name :=
    fun _ hn => Traced.name_eq_of_holds_keyId hlt h.le_counter h.inj hn
  refine ⟨?_, ?_, ?_⟩
  · intro n id hn
    rcases hheld n id hn with hn | ⟨_, rfl⟩
    · exact h.one_le n id hn
    · rcases Traced.keyId_cases hlt name with hk | hk
      · exact h.one_le name _ hk
      · rw [hk]
        exact Nat.succ_le_succ (Nat.zero_le _)
  · intro n id hn
    rw [hmax]
    rcases hheld n id hn with hn | ⟨_, rfl⟩
    · exact (h.le_counter n id hn).trans (le_max_left _ _)
    · exact le_max_right _ _
  · intro n n' id hn hn'
    rcases hheld n id hn with hold | ⟨rfl, rfl⟩
    · rcases hheld n' id hn' with hold' | ⟨rfl, rfl⟩
      · exact h.inj n n' id hold hold'
      · exact hown n hold
    · rcases hheld n' _ hn' with hold' | ⟨rfl, _⟩
      · exact (hown n' hold').symm
      · rfl

lemma IdsFresh.reopen (h : IdsFresh s) (opt : StorageOptions) (clock : ℤ) :
    IdsFresh (openOn opt clock s.keyStorage s.dataStorage : Storage W) := by
  have hstored : ∀ name id, Traced.Holds (openOn opt clock s.keyStorage s.dataStorage : Storage W) name id → s.storedId name = some id := by
    intro name id hn
    rcases (holds_iff _ _ _).mp hn with hn | hn
    · exact openOn_cachedId hn
    · exact hn
  refine h.of_forget (fun name id hn => (holds_iff _ _ _).mpr (.inr (hstored name id hn))) ?_
  intro name id hn
  obtain ⟨sk, hsk, rfl⟩ := Option.map_eq_some_iff.mp (hstored name id hn)
  exact openOn_keyCounter_le.mp le_rfl name sk hsk

end Storage

/-! ### Runs -/

/-- A process with the number of keys it has created and whether a write has failed. -/
structure Counted (W : Wrtstat) where
  process : Process W
  created : ℕ := 0
  failed : Bool := false

/-- The call makes a key for a name the cache does not have. -/
def Storage.creates (s : Storage W) : StorageCall → Bool
  | .add _ _ name _ => (s.keyCache.keyMap.find? name).isNone
  | .merge _ _ name data => !data.isEmpty && (s.keyCache.keyMap.find? name).isNone
  | .del _ _ => false
  | .gc _ => false
  | .close _ => false
  | .reopen _ _ => false

namespace Counted

def step (b : Counted W) (c : StorageCall) : Counted W :=
  if b.process.Accepts c then
    { process := (b.process.call c).2
      created := b.created + if b.process.storage.creates c then 1 else 0
      failed := b.failed || Status.writeFailed (b.process.call c).1 }
  else b

lemma created_le_step (b : Counted W) (c : StorageCall) : b.created ≤ (b.step c).created := by
  by_cases hacc : b.process.Accepts c
  · rw [step, if_pos hacc]
    exact Nat.le_add_right _ _
  · rw [step, if_neg hacc]

lemma created_le_run (calls : List StorageCall) (b : Counted W) : b.created ≤ (calls.foldl step b).created := by
  induction calls generalizing b with
  | nil => exact le_rfl
  | cons c rest ih => exact (b.created_le_step c).trans (ih _)

structure Invariant (b : Counted W) : Prop where
  fresh : b.process.storage.IdsFresh
  counter_le : b.process.storage.keyCache.keyCounter ≤ b.created
  same : b.failed = false → b.process.storage.SameIds

lemma invariant_start (opt : StorageOptions) (clock : ℤ) (hashSize resultLimit : ℕ) :
    Invariant (⟨Process.start W opt clock hashSize resultLimit, 0, false⟩ : Counted W) := by
  have hnot : ∀ name id, ¬Traced.Holds (Process.start W opt clock hashSize resultLimit).storage name id := by
    intro name id hn
    have hstored : (Process.start W opt clock hashSize resultLimit).storage.storedId name = some id := by
      rcases (Storage.holds_iff _ _ _).mp hn with hn | hn
      · exact Storage.openOn_cachedId hn
      · exact hn
    exact absurd hstored (by simp [Storage.storedId, Process.start, Storage.openOn])
  refine ⟨⟨?_, ?_, ?_⟩, ?_, ?_⟩
  · exact fun name id hn => absurd hn (hnot name id)
  · exact fun name id hn => absurd hn (hnot name id)
  · exact fun name name' id hn => absurd hn (hnot name id)
  · exact (Storage.fresh_keyCounter opt clock hashSize resultLimit).le
  · exact fun _ name id hn => absurd ((Storage.holds_iff _ _ _).mpr (.inl hn)) (hnot name id)

section Steps

variable {b : Counted W}

lemma Invariant.forgetsIds (h : Invariant b) {r : Status × Storage W}
    (hr : Storage.ForgetsIds b.process.storage r) (closed : Bool) :
    Invariant (⟨⟨r.2, closed⟩, b.created, b.failed || Status.writeFailed r.1⟩ : Counted W) where
  fresh := h.fresh.forgetsIds hr
  counter_le := hr.counter.le.trans h.counter_le
  same hfail := by
    obtain ⟨hb, hw⟩ := Bool.or_eq_false_iff.mp hfail
    exact fun name id hn => hr.kept hw name id hn (h.same hb name id (hr.cached name id hn))

/-- An add or a merge; a new key takes one more id than were ever created. -/
lemma Invariant.keepsId (h : Invariant b) {r : Status × Storage W} {name : Name}
    (hr : Storage.KeepsId b.process.storage name r) (closed : Bool)
    (hlt : b.created + (if (b.process.storage.keyCache.keyMap.find? name).isNone then 1 else 0) < badKey) :
    Invariant (⟨⟨r.2, closed⟩,
      b.created + if (b.process.storage.keyCache.keyMap.find? name).isNone then 1 else 0,
      b.failed || Status.writeFailed r.1⟩ : Counted W) := by
  have hcounter : b.process.storage.keyCache.keyCounter < badKey :=
    lt_of_le_of_lt (h.counter_le.trans (Nat.le_add_right _ _)) hlt
  refine ⟨h.fresh.keepsId hcounter hr, ?_, ?_⟩
  · change r.2.keyCache.keyCounter ≤ _
    rw [hr.counter]
    cases hk : b.process.storage.keyCache.keyMap.find? name with
    | some ka => exact h.counter_le
    | none =>
      rw [Storage.keyId_eq_succ hcounter hk]
      exact Nat.succ_le_succ h.counter_le
  · intro hfail
    obtain ⟨hb, hw⟩ := Bool.or_eq_false_iff.mp hfail
    intro n id hn
    change r.2.cachedId n = some id at hn
    change r.2.storedId n = some id
    rw [hr.cached] at hn
    split_ifs at hn with hname
    · subst hname
      obtain rfl := Option.some.inj hn
      cases hk : b.process.storage.keyCache.keyMap.find? n with
      | some ka =>
        -- a key that was cached is stored under its id already
        have hcached : b.process.storage.cachedId n = some (b.process.storage.keyId n) := by
          rw [Storage.keyId_of_some hk, Storage.cachedId, hk]
          rfl
        rcases hr.stored n with hs | ⟨_, hs⟩
        · exact hs.trans (h.same hb n _ hcached)
        · exact hs
      | none =>
        have hid : b.process.storage.keyId n ≠ badKey := by
          rw [Storage.keyId_eq_succ hcounter hk]
          rw [hk] at hlt
          exact (lt_of_le_of_lt (Nat.succ_le_succ h.counter_le) hlt).ne
        exact hr.created hid (Option.map_eq_none_iff.mpr hk) hw
    · rcases hr.stored n with hs | ⟨hname', _⟩
      · exact hs.trans (h.same hb n id hn)
      · exact absurd hname' hname

lemma Invariant.step (hstart : W.StartsInTime) (h : Invariant b) (c : StorageCall)
    (hlt : (b.step c).created < badKey) : Invariant (b.step c) := by
  by_cases hacc : b.process.Accepts c
  · rw [Counted.step, if_pos hacc] at hlt ⊢
    cases c with
    | add clock ok name data =>
      exact h.keepsId (Storage.add_keepsId hstart _ clock ok name data) _ hlt
    | merge clock ok name data =>
      by_cases hd : data = []
      · subst hd
        have hsame : (b.failed || Status.writeFailed (.error .emptyData)) = b.failed := Bool.or_false _
        exact ⟨h.fresh, h.counter_le, fun hfail => h.same (hsame.symm.trans hfail)⟩
      · have hne : data.isEmpty = false := by simpa using hd
        simp only [Storage.creates, hne, Bool.not_false, Bool.true_and] at hlt ⊢
        exact h.keepsId (Storage.merge_keepsId _ clock ok name hd) _ hlt
    | del ok name => exact h.forgetsIds (Storage.del_forgetsIds _ ok name) _
    | gc clock => exact h.forgetsIds (Storage.gc_forgetsIds _ clock) _
    | close ok =>
      have hclose := h.forgetsIds (Storage.close_forgetsIds b.process.storage ok)
      simp only [Process.call]
      cases hs : (b.process.storage.close ok).1 with
      | ok u =>
        rw [hs] at hclose
        exact hclose true
      | error e =>
        rw [hs] at hclose
        exact hclose false
    | reopen opt clock =>
      refine ⟨h.fresh.reopen opt clock, ?_, fun _ _ _ hn => Storage.openOn_cachedId hn⟩
      refine le_trans (Storage.openOn_keyCounter_le.mpr fun name sk hsk => ?_) h.counter_le
      exact h.fresh.le_counter name _ (.inr ⟨sk, hsk, rfl⟩)
  · rw [Counted.step, if_neg hacc]
    exact h

lemma Invariant.run (hstart : W.StartsInTime) (calls : List StorageCall) (h : Invariant b)
    (hlt : (calls.foldl Counted.step b).created < badKey) : Invariant (calls.foldl Counted.step b) := by
  induction calls generalizing b with
  | nil => exact h
  | cons c rest ih =>
    refine ih (h.step hstart c ?_) hlt
    exact lt_of_le_of_lt (created_le_run rest _) hlt

end Steps

lemma step_process (b : Counted W) (c : StorageCall) : (b.step c).process = b.process.step c := by
  unfold step Process.step
  split_ifs <;> rfl

lemma run_process (calls : List StorageCall) (b : Counted W) :
    (calls.foldl step b).process = calls.foldl Process.step b.process := by
  induction calls generalizing b with
  | nil => rfl
  | cons c rest ih => rw [List.foldl_cons, List.foldl_cons, ih, step_process]

/-- A call creates one key at most. -/
lemma created_run_le (calls : List StorageCall) (b : Counted W) :
    (calls.foldl step b).created ≤ b.created + calls.length := by
  induction calls generalizing b with
  | nil => exact le_rfl
  | cons c rest ih =>
    have hstep : (b.step c).created ≤ b.created + 1 := by
      unfold step
      split_ifs
      · exact le_rfl
      · exact Nat.le_succ _
      · exact Nat.le_succ _
    rw [List.foldl_cons, List.length_cons]
    have hrest := ih (b.step c)
    omega

/-- In a run of fewer calls than there are ids, the counter is behind the number of calls. -/
lemma idsFresh_run (hstart : W.StartsInTime) (opt : StorageOptions) (clock : ℤ) (hashSize resultLimit : ℕ)
    {calls : List StorageCall} (hids : calls.length < badKey) :
    let s := (calls.foldl Process.step (Process.start W opt clock hashSize resultLimit)).storage
    s.IdsFresh ∧ s.keyCache.keyCounter ≤ calls.length := by
  have hle := created_run_le calls (⟨Process.start W opt clock hashSize resultLimit, 0, false⟩ : Counted W)
  rw [Nat.zero_add] at hle
  have h := (invariant_start (W := W) opt clock hashSize resultLimit).run hstart calls (lt_of_le_of_lt hle hids)
  have hfresh := h.fresh
  have hcounter := h.counter_le
  rw [run_process] at hfresh hcounter
  exact ⟨hfresh, hcounter.trans hle⟩

/-- In every run that creates fewer keys than there are ids, no two names have the same id,
every id is between one and the counter, and as long as no write has failed a cached name
is stored under its id. -/
theorem key_ids_unique (hstart : W.StartsInTime) (opt : StorageOptions) (clock : ℤ)
    (hashSize resultLimit : ℕ) (calls : List StorageCall) :
    let b := calls.foldl step ⟨Process.start W opt clock hashSize resultLimit, 0, false⟩
    let s := b.process.storage
    b.created < 2 ^ 64 - 1 →
    (∀ name name' id, Traced.Holds s name id → Traced.Holds s name' id → name = name') ∧
      (∀ name id, Traced.Holds s name id → 1 ≤ id ∧ id ≠ badKey ∧ id ≤ s.keyCache.keyCounter) ∧
      (b.failed = false → ∀ name ka, s.keyCache.keyMap.find? name = some ka →
        ∃ sk, s.keyStorage.key? name = some sk ∧ sk.id = ka.getId) := by
  intro b s hlt
  have h : Invariant b := (invariant_start opt clock hashSize resultLimit).run hstart calls hlt
  refine ⟨h.fresh.inj, fun name id hn => ⟨h.fresh.one_le name id hn, ?_, h.fresh.le_counter name id hn⟩, ?_⟩
  · exact (lt_of_le_of_lt ((h.fresh.le_counter name id hn).trans h.counter_le) hlt).ne
  · intro hfail name ka hk
    exact Option.map_eq_some_iff.mp (h.same hfail name ka.getId (Option.map_eq_some_iff.mpr ⟨ka, hk, rfl⟩))

/-- One name is evicted and comes back while the write of its new key fails; the storage is
dropped and opened again. -/
theorem key_ids_unique_after_failure :
    let calls := [StorageCall.add 1 allOk [97] { ts := 5, count := 1 }, .gc 100,
      .add 100 (fun _ => false) [97] { ts := 6, count := 2 }, .reopen Traced.cleanedUp 100,
      .add 100 allOk [98] { ts := 7, count := 3 }]
    let b := calls.foldl step ⟨Process.start (Wrtstat.reference 1 false) Traced.cleanedUp 0 4 10, 0, false⟩
    ∀ name name' id, Traced.Holds b.process.storage name id → Traced.Holds b.process.storage name' id →
      name = name' := by
  intro calls b
  exact (key_ids_unique (Wrtstat.reference_startsInTime (by omega) false) Traced.cleanedUp 0 4 10 calls
    (by decide +kernel)).1

end Counted

end WfcBtp
