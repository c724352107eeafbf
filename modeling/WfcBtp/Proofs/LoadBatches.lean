import WfcBtp.Library.Batches
import WfcBtp.Model.Reserving
import WfcBtp.Proofs.Divisions

/-!
# Loading

What the load handler of key storage gets, and the cache that the handler of `open` makes
of it. The handler takes its batch by value.
-/

namespace WfcBtp
open Library

variable {W : Wrtstat}

namespace KeyStorage

/-- The batch being filled stays below `step`, since a full one is handed over. -/
lemma loadLoop_batches {step : ℕ} (l : List (Name × StoredKey)) {data : List StoredName}
    (hdata : data.length < step) :
    Batches step (data ++ l.map fun e => { toStoredKey := e.2, name := e.1 }) (loadLoop step l data) := by
  induction l generalizing data with
  | nil =>
    rw [loadLoop, List.map_nil, List.append_nil]
    cases data with
    | nil => exact .nil
    | cons d rest => exact .last (List.cons_ne_nil d rest) hdata.le
  | cons e rest ih =>
    let d : StoredName := { toStoredKey := e.2, name := e.1 }
    have hlen : (data ++ [d]).length = data.length + 1 := List.length_append
    have hstep : loadLoop step (e :: rest) data =
        if (data ++ [d]).length = step then (data ++ [d]) :: loadLoop step rest []
        else loadLoop step rest (data ++ [d]) := rfl
    rw [hstep, List.map_cons, List.append_cons]
    by_cases hfull : (data ++ [d]).length = step
    · have hempty : ([] : List StoredName).length < step := by
        rw [← hfull, hlen]
        exact Nat.succ_pos _
      rw [if_pos hfull]
      apply Batches.full
      · exact List.append_ne_nil_of_right_ne_nil data (List.cons_ne_nil d [])
      · exact hfull
      · exact ih hempty
    · have hroom : (data ++ [d]).length < step := by omega
      rw [if_neg hfull]
      exact ih hroom

/-- The number of keys in a full batch. -/
def batchSize (step : ℕ) : ℕ := if step = 0 then 16 else step

lemma load_batches (s : KeyStorage) (step : ℕ) : Batches (batchSize step) s.names (s.load step) := by
  have hpos : ([] : List StoredName).length < batchSize step := by
    unfold batchSize
    split_ifs
    · decide
    · exact Nat.pos_of_ne_zero ‹_›
  exact loadLoop_batches s.content.entries hpos

/-- The stored keys come in the order of their names, none twice. -/
lemma names_ascending (s : KeyStorage) : (s.names.map (·.name)).Pairwise (· < ·) := by
  rw [names, List.map_map, List.pairwise_map]
  exact s.content.sorted

/-- What `load` is to hand over: the stored keys in the order of their names, none twice, in batches
all of which but the last are full. -/
structure HandsOver (s : KeyStorage) (step : ℕ) (batches : List (List StoredName)) : Prop where
  flatten : batches.flatten = s.names
  stored : ∀ sn, sn ∈ s.names ↔ s.key? sn.name = some sn.toStoredKey
  ascending : (s.names.map (·.name)).Pairwise (· < ·)
  full : ∀ b ∈ batches.dropLast, b.length = batchSize step
  length_le : ∀ b ∈ batches, b ≠ [] ∧ b.length ≤ batchSize step

lemma load_handsOver (s : KeyStorage) (step : ℕ) : s.HandsOver step (s.load step) := by
  have hbatches := s.load_batches step
  refine ⟨hbatches.flatten_eq, s.mem_names_iff, s.names_ascending, ?_, ?_⟩
  · exact hbatches.length_eq_of_mem_dropLast
  · exact fun b hb => ⟨hbatches.ne_nil b hb, hbatches.length_le b hb⟩

end KeyStorage

namespace Storage

lemma loaded_getId (opt : KeyCacheOptions) (clock : ℤ) (ks : KeyStorage) (name : Name) :
    ((loaded opt clock ks : KeyCache W).keyMap.find? name).map (·.getId) = (ks.key? name).map (·.id) := by
  rw [loaded_find?]
  cases ks.key? name <;> rfl

/-- The counter starts at zero, which no stored id is below. -/
lemma loaded_keyCounter (opt : KeyCacheOptions) (clock : ℤ) (ks : KeyStorage) :
    if ks.names = [] then (loaded opt clock ks : KeyCache W).keyCounter = 0
    else IsGreatest {id | ∃ sn ∈ ks.names, sn.id = id} (loaded opt clock ks : KeyCache W).keyCounter := by
  rw [loaded, foldl_init_keyCounter]
  split_ifs with h
  · rw [h]
    rfl
  · obtain ⟨sn, hsn⟩ := List.exists_mem_of_ne_nil ks.names h
    have hset : {id | ∃ sn ∈ ks.names, sn.id = id} = {id | id ∈ ks.names.map (·.id)} := by
      ext id
      exact List.mem_map.symm
    rw [hset]
    exact isGreatest_foldl_max_of_le ⟨sn.id, List.mem_map_of_mem hsn, Nat.zero_le _⟩

/-- The cache has the stored names with the stored ids, and its counter is the largest of them. -/
structure Filled (ks : KeyStorage) (kc : KeyCache W) : Prop where
  getId : ∀ name, (kc.keyMap.find? name).map (·.getId) = (ks.key? name).map (·.id)
  keyCounter : if ks.names = [] then kc.keyCounter = 0 else IsGreatest {id | ∃ sn ∈ ks.names, sn.id = id} kc.keyCounter

lemma loaded_filled (opt : KeyCacheOptions) (clock : ℤ) (ks : KeyStorage) :
    Filled ks (loaded opt clock ks : KeyCache W) :=
  ⟨loaded_getId opt clock ks, loaded_keyCounter opt clock ks⟩

/-- The batches of `open` can be reserved, and their keys restored. -/
def CanLoad (room : ℕ) (opt : KeyCacheOptions) (ks : KeyStorage) : Prop :=
  10000 ≤ room ∧ (ks.names = [] ∨ KeyCache.Restores opt)

lemma loadCacheReserving_guarded (room : ℕ) (opt : KeyCacheOptions) (clock : ℤ) (ks : KeyStorage) :
    Guarded (loadCacheReserving room opt clock ks : Option (KeyCache W)) (CanLoad room opt ks) (loaded opt clock ks) :=
  (ks.loadReserving_guarded room 10000).bind (loadCache?_guarded opt clock ks)

/-- `load` hands every stored key over exactly if a batch can be reserved. The handler of `open` fills
the cache, before the names that were not used for long are evicted, exactly if the batches it
asks for can be reserved and no option makes it divide by zero. -/
theorem load_hands_over_every_key_iff (room : ℕ) (ks : KeyStorage) (step : ℕ) (opt : StorageOptions) (clock : ℤ)
    (ds : DataStorage) :
    ((∃ batches, ks.loadReserving room step = some batches ∧ ks.HandsOver step batches) ↔
        (if step = 0 then 16 else step) ≤ room) ∧
      ((∃ kc : KeyCache W, loadCacheReserving room opt.keyCache clock ks = some kc ∧
          (openOn opt clock ks ds).keyCache = (kc.gc clock).2 ∧ Filled ks kc) ↔ CanLoad room opt.keyCache ks) := by
  have hload := ks.loadReserving_guarded room step
  have hcache := loadCacheReserving_guarded (W := W) room opt.keyCache clock ks
  refine ⟨⟨?_, ?_⟩, ⟨?_, ?_⟩⟩
  · rintro ⟨batches, hbatches, -⟩
    rw [← hload.isSome_iff, hbatches]
    rfl
  · intro hroom
    exact ⟨_, hload.eq_some hroom, ks.load_handsOver step⟩
  · rintro ⟨kc, hkc, -⟩
    rw [← hcache.isSome_iff, hkc]
    rfl
  · intro hcan
    refine ⟨_, hcache.eq_some hcan, ?_, loaded_filled opt.keyCache clock ks⟩
    rw [openOn_keyCache]

/-- One key is stored, and no vector has room for the largest step. -/
theorem load_throws_at_largest_step :
    let ks := (KeyStorage.create.set true [97] { id := 1 }).2
    ks.names.map (·.name) = [[97]] ∧ ks.loadReserving (2 ^ 63 - 1) (2 ^ 64 - 1) = none ∧
      ¬∃ batches, ks.loadReserving (2 ^ 63 - 1) (2 ^ 64 - 1) = some batches ∧ ks.HandsOver (2 ^ 64 - 1) batches := by
  intro ks
  have hnone : ks.loadReserving (2 ^ 63 - 1) (2 ^ 64 - 1) = none := by decide +kernel
  refine ⟨by decide +kernel, hnone, ?_⟩
  rintro ⟨batches, hbatches, -⟩
  rw [hnone] at hbatches
  cases hbatches

end Storage

end WfcBtp
