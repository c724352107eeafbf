import WfcBtp.Model.WrtstatReference
import WfcBtp.Proofs.Reopening

/-!
# Who wrote a point

Ids live in the cache, in key storage and in data storage, and a restart counts them anew
from key storage alone. A run is traced with the writers of every stored point; a name
reads only its own points as long as no restart forgets an id that still has points.
-/

namespace WfcBtp
open Library

variable {W : Wrtstat}

/-- Who wrote: a name, and how often it had been deleted before. -/
abbrev Writer := Name × ℕ

/-- A storage with, for every name, the number of its successful dels and, for every
stored point, the writes it is made of. -/
structure Traced (W : Wrtstat) where
  storage : Storage W
  epoch : Name → ℕ
  writers : KeyId → ℤ → List Writer

inductive Event
  | request (r : Request)
  | gc (clock : ℤ)
  | restart (closed : Bool) (opt : StorageOptions) (clock : ℤ)

/-- The writers of a point after one more write, which replaces the point or adds to it. -/
def note (replaces : Bool) (w : Writer) (ws : ℤ → List Writer) (d : AggregatedInfo) : ℤ → List Writer :=
  fun t => if t = d.ts then (if replaces then [w] else w :: ws t) else ws t

namespace Traced

def writer (b : Traced W) (name : Name) : Writer := (name, b.epoch name)

/-- The writers after an add or a merge that wrote `ds` under the id of `name`. -/
def noteKey (b : Traced W) (name : Name) (replaces : Bool) (ds : List AggregatedInfo) :
    KeyId → ℤ → List Writer :=
  fun id => if id = b.storage.keyId name then ds.foldl (note replaces (b.writer name)) (b.writers id)
    else b.writers id

/-- The writers after a close, which writes every open period. -/
def noteReleased (b : Traced W) : KeyId → ℤ → List Writer :=
  fun id => (b.storage.keyCache.release.1.filter fun kv => b.storage.keyCache.getId kv.1.name = id).foldl
    (fun ws kv => kv.2.foldl (note true (b.writer kv.1.name)) ws) (b.writers id)

def step (b : Traced W) : Event → Traced W
  | .request r =>
    let b' := { b with storage := (b.storage.serve r).2 }
    match (b.storage.serve r).1, r with
    | .error _, _ => b'
    | .ok _, .add _ name data =>
      let k := b.storage.addKey name data
      { b' with writers := b.noteKey name (k.2.2 || b.storage.disableMerge) k.2.1 }
    | .ok _, .merge _ name data => { b' with writers := b.noteKey name true (b.storage.mergeKey name data).2 }
    | .ok _, .del name =>
      { b' with
        epoch := fun n => if n = name then b.epoch n + 1 else b.epoch n
        writers := fun id t =>
          if id = (b.storage.keyCache.del name).1 ∧ 0 ≤ t then [] else b.writers id t }
  | .gc clock => { b with storage := (b.storage.gc clock).2 }
  | .restart closed opt clock =>
    { b with
      storage := Storage.openOn opt clock (b.storage.stop closed).keyStorage (b.storage.stop closed).dataStorage
      writers := if closed then b.noteReleased else b.writers }

def start (W : Wrtstat) (opt : StorageOptions) (clock : ℤ) (hashSize resultLimit : ℕ) : Traced W where
  storage := Storage.fresh W opt clock hashSize resultLimit
  epoch _ := 0
  writers _ _ := []

/-- The step has no storage error. -/
def NoErrors (b : Traced W) : Event → Prop
  | .request r => b.storage.Served r
  | .gc _ => True
  | .restart _ _ _ => True

/-- When the databases are opened again, no id above the largest stored one has a point. -/
def RemembersIds (b : Traced W) : Event → Prop
  | .request _ => True
  | .gc _ => True
  | .restart closed _ _ => ∀ id t, ((b.storage.stop closed).dataStorage.point? id t).isSome →
      ∃ name sk, (b.storage.stop closed).keyStorage.key? name = some sk ∧ id ≤ sk.id

/-! ### The invariant -/

/-- The cache or key storage has `id` for `name`. -/
def Holds (s : Storage W) (name : Name) (id : KeyId) : Prop :=
  (∃ ka, s.keyCache.keyMap.find? name = some ka ∧ ka.getId = id) ∨
    ∃ sk, s.keyStorage.key? name = some sk ∧ sk.id = id

/-- The id of an add or a merge is held by its own name, or new. -/
lemma keyId_cases {s : Storage W} (hlt : s.keyCache.keyCounter < badKey) (name : Name) :
    Holds s name (s.keyId name) ∨ s.keyId name = s.keyCache.keyCounter + 1 := by
  cases hk : s.keyCache.keyMap.find? name with
  | some ka => exact .inl (.inl ⟨ka, hk, (Storage.keyId_of_some hk).symm⟩)
  | none => exact .inr (Storage.keyId_eq_succ hlt hk)

/-- No other name holds that id, as long as the counter has passed every id held. -/
lemma name_eq_of_holds_keyId {s : Storage W} (hlt : s.keyCache.keyCounter < badKey)
    (hle : ∀ name id, Holds s name id → id ≤ s.keyCache.keyCounter)
    (hinj : ∀ name name' id, Holds s name id → Holds s name' id → name = name') {name name' : Name}
    (hheld : Holds s name' (s.keyId name)) : name' = name := by
  rcases keyId_cases hlt name with hk | hk
  · exact hinj name' name _ hheld hk
  · have hlt' := hle name' _ hheld
    rw [hk] at hlt'
    exact absurd hlt' (Nat.not_succ_le_self _)

/-- The writers of the points of one id are known. -/
def Noted (pts : Points) (ws : ℤ → List Writer) : Prop := ∀ t, (pts t).isSome = true ↔ ws t ≠ []

structure IdsOwned (b : Traced W) : Prop where
  counter_lt : b.storage.keyCache.keyCounter < badKey
  held_le : ∀ name id, Holds b.storage name id → id ≤ b.storage.keyCache.keyCounter
  held_inj : ∀ name name' id, Holds b.storage name id → Holds b.storage name' id → name = name'
  own : ∀ name id, Holds b.storage name id → ∀ t, ∀ w ∈ b.writers id t, w = b.writer name
  written_le : ∀ id t, b.writers id t ≠ [] → id ≤ b.storage.keyCache.keyCounter
  noted : ∀ id, Noted (b.storage.dataStorage.point? id) (b.writers id)
  indexes : b.storage.keyCache.options.gcInterval ≠ 0 → b.storage.keyCache.IndexesAgree

lemma Noted.foldl_set {pts : Points} {ws : ℤ → List Writer} (h : Noted pts ws) (w : Writer)
    (ds : List AggregatedInfo) : Noted (ds.foldl setPoint pts) (ds.foldl (note true w) ws) := by
  induction ds generalizing pts ws with
  | nil => exact h
  | cons d rest ih =>
    apply ih
    intro t
    by_cases ht : t = d.ts
    · simp [setPoint, note, ht]
    · simpa only [setPoint, note, ht, if_false] using h t

lemma Noted.foldl_inc {pts : Points} {ws : ℤ → List Writer} (h : Noted pts ws) (w : Writer)
    (ds : List AggregatedInfo) : Noted (ds.foldl (incPoint W) pts) (ds.foldl (note false w) ws) := by
  induction ds generalizing pts ws with
  | nil => exact h
  | cons d rest ih =>
    apply ih
    intro t
    by_cases ht : t = d.ts
    · simp [incPoint, note, ht]
    · simpa only [incPoint, note, ht, if_false] using h t

lemma mem_foldl_note {replaces : Bool} {w w' : Writer} {ds : List AggregatedInfo} {ws : ℤ → List Writer} {t : ℤ}
    (h : w' ∈ ds.foldl (note replaces w) ws t) : w' = w ∨ w' ∈ ws t := by
  induction ds generalizing ws with
  | nil => exact .inr h
  | cons d rest ih =>
    rcases ih h with h | h
    · exact .inl h
    · unfold note at h
      split_ifs at h
      · exact .inl (List.mem_singleton.mp h)
      · exact List.mem_cons.mp h
      · exact .inr h

lemma idsOwned_start (opt : StorageOptions) (clock : ℤ) (hashSize resultLimit : ℕ) :
    IdsOwned (start W opt clock hashSize resultLimit) := by
  have hnot : ∀ name id, ¬Holds (start W opt clock hashSize resultLimit).storage name id := by
    rintro name id (⟨ka, hk, _⟩ | ⟨sk, hk, _⟩)
    · exact absurd hk (by simp [start])
    · exact absurd hk (by simp [start])
  refine ⟨?_, ?_, ?_, ?_, ?_, ?_, ?_⟩
  · rw [start, Storage.fresh_keyCounter]
    decide
  · exact fun name id h => absurd h (hnot name id)
  · exact fun name name' id h => absurd h (hnot name id)
  · exact fun name id h => absurd h (hnot name id)
  · exact fun id t h => absurd rfl h
  · intro id t
    simp [start]
  · intro hg
    exact Storage.openOn_indexesAgree (by simpa [start] using hg) _ _ _

namespace IdsOwned

variable {b : Traced W}

lemma cached_le (h : IdsOwned b) (name : Name) (ka : KeyAggregator W)
    (hk : b.storage.keyCache.keyMap.find? name = some ka) : ka.getId ≤ b.storage.keyCache.keyCounter :=
  h.held_le name _ (.inl ⟨ka, hk, rfl⟩)

lemma holder_keyId (h : IdsOwned b) {name name' : Name} (hheld : Holds b.storage name' (b.storage.keyId name)) :
    name' = name := name_eq_of_holds_keyId h.counter_lt h.held_le h.held_inj hheld

lemma own_keyId (h : IdsOwned b) (name : Name) {t : ℤ} {w : Writer}
    (hw : w ∈ b.writers (b.storage.keyId name) t) : w = b.writer name := by
  rcases keyId_cases h.counter_lt name with hk | hk
  · exact h.own name _ hk t w hw
  · have hle := h.written_le _ t (List.ne_nil_of_mem hw)
    rw [hk] at hle
    exact absurd hle (Nat.not_succ_le_self _)

/-- An add or a merge of `name`: its key gets an id of its own, the stored key may follow,
and the name signs what is written. -/
lemma of_write (h : IdsOwned b) {name : Name} {s' : Storage W} {replaces : Bool} {ds : List AggregatedInfo}
    (hid : b.storage.keyId name ≠ badKey)
    (hcounter : s'.keyCache.keyCounter =
      if (b.storage.keyCache.keyMap.find? name).isSome then b.storage.keyCache.keyCounter
      else b.storage.keyId name)
    (hheld : ∀ n id, Holds s' n id → Holds b.storage n id ∨ n = name ∧ id = b.storage.keyId name)
    (hpts : ∀ id, Noted (s'.dataStorage.point? id) (b.noteKey name replaces ds id))
    (hindexes : s'.keyCache.options.gcInterval ≠ 0 → s'.keyCache.IndexesAgree) :
    IdsOwned { b with storage := s', writers := b.noteKey name replaces ds } := by
  have hmax : s'.keyCache.keyCounter = max b.storage.keyCache.keyCounter (b.storage.keyId name) := by
    rw [hcounter, Storage.keyCounter_eq_max h.counter_lt (h.cached_le name)]
  have hmem : ∀ {id t w}, w ∈ b.noteKey name replaces ds id t →
      w ∈ b.writers id t ∨ id = b.storage.keyId name ∧ w = b.writer name := by
    intro id t w hw
    unfold noteKey at hw
    split_ifs at hw with hi
    · rcases mem_foldl_note hw with hw | hw
      · exact .inr ⟨hi, hw⟩
      · exact .inl hw
    · exact .inl hw
  refine ⟨?_, ?_, ?_, ?_, ?_, hpts, hindexes⟩
  · change s'.keyCache.keyCounter < badKey
    rw [hmax]
    exact max_lt h.counter_lt (lt_of_le_of_ne (Storage.keyId_le h.counter_lt (h.cached_le name)) hid)
  · intro n id hn
    change id ≤ s'.keyCache.keyCounter
    rw [hmax]
    rcases hheld n id hn with hn | ⟨_, rfl⟩
    · exact (h.held_le n id hn).trans (le_max_left _ _)
    · exact le_max_right _ _
  · intro n n' id hn hn'
    rcases hheld n id hn with hold | ⟨rfl, rfl⟩
    · rcases hheld n' id hn' with hold' | ⟨rfl, rfl⟩
      · exact h.held_inj n n' id hold hold'
      · exact h.holder_keyId hold
    · rcases hheld n' _ hn' with hold' | ⟨rfl, _⟩
      · exact (h.holder_keyId hold').symm
      · rfl
  · intro n id hn t w hw
    change w = b.writer n
    rcases hheld n id hn with hn | ⟨rfl, rfl⟩
    · rcases hmem hw with hw | ⟨rfl, rfl⟩
      · exact h.own n id hn t w hw
      · rw [h.holder_keyId hn]
    · rcases hmem hw with hw | ⟨_, hw⟩
      · exact h.own_keyId n hw
      · exact hw
  · intro id t hne
    change id ≤ s'.keyCache.keyCounter
    rw [hmax]
    obtain ⟨w, hw⟩ := List.exists_mem_of_ne_nil _ hne
    rcases hmem hw with hw | ⟨rfl, _⟩
    · exact (h.written_le id t (List.ne_nil_of_mem hw)).trans (le_max_left _ _)
    · exact le_max_right _ _

lemma add (h : IdsOwned b) {clock : ℤ} {name : Name} {data : AggregatedData}
    (hok : (b.storage.add clock allOk name data).1 = .ok ()) :
    IdsOwned { b with
      storage := (b.storage.add clock allOk name data).2
      writers := b.noteKey name ((b.storage.addKey name data).2.2 || b.storage.disableMerge)
        (b.storage.addKey name data).2.1 } := by
  have hid := (Storage.add_status_iff _ _ _ _).mp hok
  refine h.of_write hid (Storage.add_keyCounter _ _ _ _ _) ?_ ?_ ?_
  · rintro n id (⟨ka, hk, rfl⟩ | ⟨sk, hk, rfl⟩)
    · rw [Storage.add_find?] at hk
      split_ifs at hk with hn
      · rw [← Option.some.inj hk, Storage.addKey_getId]
        exact .inr ⟨hn, rfl⟩
      · exact .inl (.inl ⟨ka, hk, rfl⟩)
    · rw [Storage.add_key? hid] at hk
      split_ifs at hk with hn
      · rw [← Option.some.inj hk]
        exact .inr ⟨hn.1, Storage.addKey_getId _ _ _⟩
      · exact .inl (.inr ⟨sk, hk, rfl⟩)
  · intro id
    rw [Storage.add_point? hid]
    unfold noteKey
    by_cases hi : id = b.storage.keyId name
    · subst hi
      rw [if_pos rfl, if_pos rfl, writePoints]
      cases ((b.storage.addKey name data).2.2 || b.storage.disableMerge)
      · exact (h.noted _).foldl_inc _ _
      · exact (h.noted _).foldl_set _ _
    · rw [if_neg hi, if_neg hi]
      exact h.noted id
  · rw [Storage.add_keyCache, KeyCache.add_options]
    exact fun hg => (h.indexes hg).add hg _ _ _

lemma merge (h : IdsOwned b) {clock : ℤ} {name : Name} {data : List AggregatedInfo}
    (hok : (b.storage.merge clock allOk name data).1 = .ok ()) :
    IdsOwned { b with
      storage := (b.storage.merge clock allOk name data).2
      writers := b.noteKey name true (b.storage.mergeKey name data).2 } := by
  obtain ⟨hne, hid⟩ := (Storage.merge_status_iff _ _ _ _).mp hok
  refine h.of_write hid (Storage.merge_keyCounter _ allOk hne) ?_ ?_ ?_
  · rintro n id (⟨ka, hk, rfl⟩ | ⟨sk, hk, rfl⟩)
    · rw [Storage.merge_find? _ allOk hne] at hk
      split_ifs at hk with hn
      · rw [← Option.some.inj hk, Storage.mergeKey_getId]
        exact .inr ⟨hn, rfl⟩
      · exact .inl (.inl ⟨ka, hk, rfl⟩)
    · rw [Storage.merge_key? hok] at hk
      split_ifs at hk with hn
      · rw [← Option.some.inj hk]
        exact .inr ⟨hn, Storage.mergeKey_getId _ _ _⟩
      · exact .inl (.inr ⟨sk, hk, rfl⟩)
  · intro id
    rw [Storage.merge_point? hok]
    unfold noteKey
    by_cases hi : id = b.storage.keyId name
    · subst hi
      rw [if_pos rfl, if_pos rfl]
      exact (h.noted _).foldl_set _ _
    · rw [if_neg hi, if_neg hi]
      exact h.noted id
  · rw [Storage.merge_options _ allOk hne, Storage.merge_keyCache _ allOk hne]
    exact fun hg => (h.indexes hg).merge hg _ _ _

/-- Forgetting ids keeps the invariant. -/
lemma of_forget (h : IdsOwned b) {s' : Storage W}
    (hcounter : s'.keyCache.keyCounter = b.storage.keyCache.keyCounter)
    (hheld : ∀ n id, Holds s' n id → Holds b.storage n id)
    (hpts : s'.dataStorage = b.storage.dataStorage)
    (hindexes : s'.keyCache.options.gcInterval ≠ 0 → s'.keyCache.IndexesAgree) :
    IdsOwned { b with storage := s' } := by
  refine ⟨?_, ?_, ?_, ?_, ?_, ?_, hindexes⟩
  · change s'.keyCache.keyCounter < badKey
    rw [hcounter]
    exact h.counter_lt
  · intro n id hn
    change id ≤ s'.keyCache.keyCounter
    rw [hcounter]
    exact h.held_le n id (hheld n id hn)
  · exact fun n n' id hn hn' => h.held_inj n n' id (hheld n id hn) (hheld n' id hn')
  · exact fun n id hn => h.own n id (hheld n id hn)
  · intro id t hne
    change id ≤ s'.keyCache.keyCounter
    rw [hcounter]
    exact h.written_le id t hne
  · intro id
    change Noted (s'.dataStorage.point? id) _
    rw [hpts]
    exact h.noted id

lemma indexes_del (h : IdsOwned b) (name : Name) :
    (b.storage.keyCache.del name).2.options.gcInterval ≠ 0 → (b.storage.keyCache.del name).2.IndexesAgree := by
  rw [(KeyCache.del_keyCounter _ _).2]
  exact fun hg => (h.indexes hg).del hg name

lemma del_of_error (h : IdsOwned b) {name : Name} {e : StorageError}
    (herr : (b.storage.del allOk name).1 = .error e) :
    IdsOwned { b with storage := (b.storage.del allOk name).2 } := by
  have hbad : (b.storage.keyCache.del name).1 = badKey := by
    by_contra hne
    rw [(Storage.del_status_iff _ _).mpr hne] at herr
    exact absurd herr (by simp)
  have hdel := Storage.del_of_badKey hbad allOk
  rw [hdel]
  refine h.of_forget (KeyCache.del_keyCounter _ _).1 ?_ rfl (h.indexes_del name)
  rintro n id (⟨ka, hk, rfl⟩ | hk)
  · change (b.storage.keyCache.del name).2.keyMap.find? n = some ka at hk
    rw [KeyCache.del_find?] at hk
    split_ifs at hk
    exact .inl ⟨ka, hk, rfl⟩
  · exact .inr hk

/-- A successful del starts a new epoch of its name, which holds no id then. -/
lemma del (h : IdsOwned b) {name : Name} (hok : (b.storage.del allOk name).1 = .ok ()) :
    IdsOwned { b with
      storage := (b.storage.del allOk name).2
      epoch := fun n => if n = name then b.epoch n + 1 else b.epoch n
      writers := fun id t =>
        if id = (b.storage.keyCache.del name).1 ∧ 0 ≤ t then [] else b.writers id t } := by
  have hcounter : (b.storage.del allOk name).2.keyCache.keyCounter = b.storage.keyCache.keyCounter := by
    rw [Storage.del_keyCache]
    exact (KeyCache.del_keyCounter _ _).1
  have hheld : ∀ n id, Holds (b.storage.del allOk name).2 n id → n ≠ name ∧ Holds b.storage n id := by
    rintro n id (⟨ka, hk, rfl⟩ | ⟨sk, hk, rfl⟩)
    · rw [Storage.del_keyCache, KeyCache.del_find?] at hk
      split_ifs at hk with hn
      exact ⟨hn, .inl ⟨ka, hk, rfl⟩⟩
    · rw [Storage.del_key? hok] at hk
      split_ifs at hk with hn
      exact ⟨hn, .inr ⟨sk, hk, rfl⟩⟩
  refine ⟨?_, ?_, ?_, ?_, ?_, ?_, ?_⟩
  · change (b.storage.del allOk name).2.keyCache.keyCounter < badKey
    rw [hcounter]
    exact h.counter_lt
  · intro n id hn
    change id ≤ (b.storage.del allOk name).2.keyCache.keyCounter
    rw [hcounter]
    exact h.held_le n id (hheld n id hn).2
  · exact fun n n' id hn hn' => h.held_inj n n' id (hheld n id hn).2 (hheld n' id hn').2
  · intro n id hn t w hw
    obtain ⟨hne, hn⟩ := hheld n id hn
    have hw' : w ∈ b.writers id t := by
      dsimp only at hw
      split_ifs at hw
      · exact absurd hw List.not_mem_nil
      · exact hw
    rw [h.own n id hn t w hw']
    simp [writer, hne]
  · intro id t hne
    change id ≤ (b.storage.del allOk name).2.keyCache.keyCounter
    rw [hcounter]
    refine h.written_le id t fun hnil => hne ?_
    dsimp only
    rw [hnil, ite_self]
  · intro id t
    change ((b.storage.del allOk name).2.dataStorage.point? id t).isSome = true ↔ _
    rw [Storage.del_point? hok]
    dsimp only
    split_ifs
    · simp
    · exact h.noted id t
  · change (b.storage.del allOk name).2.keyCache.options.gcInterval ≠ 0 → _
    rw [Storage.del_keyCache]
    exact h.indexes_del name

lemma gc (h : IdsOwned b) (clock : ℤ) : IdsOwned { b with storage := (b.storage.gc clock).2 } := by
  refine h.of_forget (KeyCache.gc_keyCounter _ _) ?_ rfl ?_
  · rintro n id (⟨ka, hk, rfl⟩ | hk)
    · change (b.storage.keyCache.gc clock).2.keyMap.find? n = some ka at hk
      rw [KeyCache.gc_find?] at hk
      split_ifs at hk
      exact .inl ⟨ka, hk, rfl⟩
    · exact .inr hk
  · change (b.storage.keyCache.gc clock).2.options.gcInterval ≠ 0 → _
    rw [KeyCache.gc_options]
    exact fun hg => (h.indexes hg).gc clock

/-! ### Restarting -/

/-- What a storage leaves behind: the stored ids were held, and the points are signed by
their holders. -/
structure LeftBehind (b : Traced W) (ks : KeyStorage) (ds : DataStorage)
    (writers : KeyId → ℤ → List Writer) : Prop where
  held : ∀ name sk, ks.key? name = some sk → Holds b.storage name sk.id
  own : ∀ name id, Holds b.storage name id → ∀ t, ∀ w ∈ writers id t, w = b.writer name
  noted : ∀ id, Noted (ds.point? id) (writers id)

lemma leftBehind_dropped (h : IdsOwned b) :
    LeftBehind b b.storage.keyStorage b.storage.dataStorage b.writers where
  held _ sk hk := .inr ⟨sk, hk, rfl⟩
  own := h.own
  noted := h.noted

lemma mem_noteReleased {id : KeyId} {t : ℤ} {w : Writer} (hw : w ∈ b.noteReleased id t) :
    w ∈ b.writers id t ∨
      ∃ name, Holds b.storage name id ∧ w = b.writer name := by
  have hfold : ∀ (l : List (StoredName × List AggregatedInfo)) (ws : ℤ → List Writer),
      w ∈ l.foldl (fun ws kv => kv.2.foldl (note true (b.writer kv.1.name)) ws) ws t →
      w ∈ ws t ∨ ∃ kv ∈ l, w = b.writer kv.1.name := by
    intro l
    induction l with
    | nil => exact fun ws hw => .inl hw
    | cons kv rest ih =>
      intro ws hw
      rcases ih _ hw with hw | ⟨kv', hkv, hw⟩
      · rcases mem_foldl_note hw with hw | hw
        · exact .inr ⟨kv, List.mem_cons_self, hw⟩
        · exact .inl hw
      · exact .inr ⟨kv', List.mem_cons_of_mem _ hkv, hw⟩
  rcases hfold _ _ hw with hw | ⟨kv, hkv, hw⟩
  · exact .inl hw
  · obtain ⟨hmem, hgetId⟩ := List.mem_filter.mp hkv
    obtain ⟨⟨n, ka⟩, he, rfl⟩ := List.mem_map.mp hmem
    have hk : b.storage.keyCache.keyMap.find? n = some ka := (OrderedMap.mem_entries_iff _ _ _).mp he
    have hid : ka.getId = id := by
      rw [← KeyCache.getId_of_some hk]
      simpa using hgetId
    exact .inr ⟨n, .inl ⟨ka, hk, hid⟩, hw⟩

lemma leftBehind_closed (h : IdsOwned b) :
    LeftBehind b (b.storage.close allOk).2.keyStorage (b.storage.close allOk).2.dataStorage b.noteReleased where
  held name sk hk := by
    rw [Storage.close_key?] at hk
    cases hc : b.storage.keyCache.keyMap.find? name with
    | none =>
      rw [hc] at hk
      exact .inr ⟨sk, hk, rfl⟩
    | some ka =>
      rw [hc] at hk
      exact .inl ⟨ka, hc, congrArg StoredKey.id (Option.some.inj hk)⟩
  own name id hn t w hw := by
    rcases mem_noteReleased hw with hw | ⟨n, hn', rfl⟩
    · exact h.own name id hn t w hw
    · rw [h.held_inj name n id hn hn']
  noted id := by
    rw [Storage.close_point?]
    unfold noteReleased
    have hfold : ∀ (l : List (StoredName × List AggregatedInfo)) (pts : Points) (ws : ℤ → List Writer),
        Noted pts ws → Noted (l.foldl (fun pts kv => kv.2.foldl setPoint pts) pts)
          (l.foldl (fun ws kv => kv.2.foldl (note true (b.writer kv.1.name)) ws) ws) := by
      intro l
      induction l with
      | nil => exact fun _ _ hn => hn
      | cons kv rest ih => exact fun pts ws hn => ih _ _ (hn.foldl_set _ _)
    exact hfold _ _ _ (h.noted id)

/-- Opening again is safe when the largest stored id is not below an id with points. -/
lemma restart (h : IdsOwned b) {ks : KeyStorage} {ds : DataStorage} {writers : KeyId → ℤ → List Writer}
    (hleft : LeftBehind b ks ds writers) (opt : StorageOptions) (clock : ℤ)
    (hsafe : ∀ id t, (ds.point? id t).isSome → ∃ name sk, ks.key? name = some sk ∧ id ≤ sk.id) :
    IdsOwned ({ b with storage := Storage.openOn opt clock ks ds, writers := writers } : Traced W) := by
  have hheld : ∀ name id, Holds (Storage.openOn opt clock ks ds : Storage W) name id →
      ∃ sk, ks.key? name = some sk ∧ sk.id = id := by
    rintro name id (⟨ka, hk, rfl⟩ | hk)
    · obtain ⟨sk, hsk, rfl⟩ := Storage.openOn_find?_of_some hk
      exact ⟨sk, hsk, rfl⟩
    · exact hk
  have hheld' : ∀ name id, Holds (Storage.openOn opt clock ks ds : Storage W) name id →
      Holds b.storage name id := by
    intro name id hn
    obtain ⟨sk, hsk, rfl⟩ := hheld name id hn
    exact hleft.held name sk hsk
  have hle : ∀ name sk, ks.key? name = some sk →
      sk.id ≤ (Storage.openOn opt clock ks ds : Storage W).keyCache.keyCounter :=
    Storage.openOn_keyCounter_le.mp le_rfl
  refine ⟨?_, ?_, ?_, ?_, ?_, hleft.noted, ?_⟩
  · refine lt_of_le_of_lt (Storage.openOn_keyCounter_le.mpr fun name sk hsk => ?_) h.counter_lt
    exact h.held_le name _ (hleft.held name sk hsk)
  · intro name id hn
    obtain ⟨sk, hsk, rfl⟩ := hheld name id hn
    exact hle name sk hsk
  · exact fun n n' id hn hn' => h.held_inj n n' id (hheld' n id hn) (hheld' n' id hn')
  · exact fun n id hn => hleft.own n id (hheld' n id hn)
  · intro id t hne
    obtain ⟨name, sk, hsk, hid⟩ := hsafe id t ((hleft.noted id t).mpr hne)
    exact hid.trans (hle name sk hsk)
  · intro hg
    exact Storage.openOn_indexesAgree (by simpa using hg) _ _ _

/-- One step of a run. -/
lemma step (h : IdsOwned b) {e : Event} (he : NoErrors b e) (hids : RemembersIds b e) : IdsOwned (b.step e) := by
  cases e with
  | gc clock => exact h.gc clock
  | restart closed opt clock =>
    cases closed with
    | false => exact h.restart h.leftBehind_dropped opt clock hids
    | true => exact h.restart h.leftBehind_closed opt clock hids
  | request r =>
    rcases he with hok | ⟨name, rfl⟩ | ⟨clock, name, rfl⟩
    · cases r with
      | add clock name data =>
        have hstep : b.step (.request (.add clock name data)) = { b with
            storage := (b.storage.add clock allOk name data).2
            writers := b.noteKey name ((b.storage.addKey name data).2.2 || b.storage.disableMerge)
              (b.storage.addKey name data).2.1 } := by
          simp only [Traced.step, hok]
          rfl
        rw [hstep]
        exact h.add hok
      | merge clock name data =>
        have hstep : b.step (.request (.merge clock name data)) = { b with
            storage := (b.storage.merge clock allOk name data).2
            writers := b.noteKey name true (b.storage.mergeKey name data).2 } := by
          simp only [Traced.step, hok]
          rfl
        rw [hstep]
        exact h.merge hok
      | del name =>
        have hstep : b.step (.request (.del name)) = { b with
            storage := (b.storage.del allOk name).2
            epoch := fun n => if n = name then b.epoch n + 1 else b.epoch n
            writers := fun id t =>
              if id = (b.storage.keyCache.del name).1 ∧ 0 ≤ t then [] else b.writers id t } := by
          simp only [Traced.step, hok]
          rfl
        rw [hstep]
        exact h.del hok
    · cases hok : (b.storage.del allOk name).1 with
      | ok u =>
        have hstep : b.step (.request (.del name)) = { b with
            storage := (b.storage.del allOk name).2
            epoch := fun n => if n = name then b.epoch n + 1 else b.epoch n
            writers := fun id t =>
              if id = (b.storage.keyCache.del name).1 ∧ 0 ≤ t then [] else b.writers id t } := by
          simp only [Traced.step, Storage.serve, hok]
        rw [hstep]
        exact h.del hok
      | error e =>
        have hstep : b.step (.request (.del name)) = { b with storage := (b.storage.del allOk name).2 } := by
          simp only [Traced.step, Storage.serve, hok]
        rw [hstep]
        exact h.del_of_error hok
    · exact h

end IdsOwned

/-- A restart remembers the ids when the key that got the newest one is still stored. -/
lemma IdsOwned.remembersIds {b : Traced W} (h : IdsOwned b) {name : Name}
    (hk : (b.storage.keyStorage.key? name).map (·.id) = some b.storage.keyCache.keyCounter)
    (opt : StorageOptions) (clock : ℤ) : RemembersIds b (.restart false opt clock) := by
  obtain ⟨sk, hsk, hid⟩ := Option.map_eq_some_iff.mp hk
  intro id t ht
  exact ⟨name, sk, hsk, (h.written_le id t ((h.noted id t).mp ht)).trans hid.ge⟩

/-- As long as every restart remembers the ids that have points, `get` returns only what
was written under the name since its last del. -/
theorem get_returns_own_points (opt : StorageOptions) (clock : ℤ) (hashSize resultLimit : ℕ)
    (events : List Event)
    (hevents : RunMeets step (fun b e => NoErrors b e ∧ RemembersIds b e)
      (start W opt clock hashSize resultLimit) events)
    (clock' : ℤ) (name : Name) (ts : ℤ) (offset limit : ℕ) (points : List AggregatedInfo) :
    let b := events.foldl step (start W opt clock hashSize resultLimit)
    let id := b.storage.keyCache.getId name
    b.storage.get clock' name ts offset limit = .ok points →
    (∀ p ∈ points, ∃ t, b.storage.dataStorage.point? id t = some p) ∧
      ∀ t, (b.storage.dataStorage.point? id t).isSome →
        b.writers id t ≠ [] ∧ ∀ w ∈ b.writers id t, w = b.writer name := by
  intro b id hget
  have h : IdsOwned b := RunMeets.invariant (fun _ b => IdsOwned b)
    (idsOwned_start opt clock hashSize resultLimit) (fun _ b e hb he => hb.step he.1 he.2) hevents
  obtain ⟨hid, ts', hpoints⟩ := Storage.get_of_ok hget
  constructor
  · intro p hp
    rw [← hpoints] at hp
    exact DataStorage.point?_of_mem_get hp
  · intro t ht
    have hheld : Holds b.storage name id := by
      cases hk : b.storage.keyCache.keyMap.find? name with
      | some ka => exact .inl ⟨ka, hk, (KeyCache.getId_of_some hk).symm⟩
      | none => exact absurd (by simp [KeyCache.getId, hk]) hid
    exact ⟨(h.noted id t).mp ht, h.own name id hheld t⟩

/-- The options of the runs below. -/
def cleanedUp : StorageOptions := { keyCache := { aggregateLastPoint := true, gcInterval := 1, resolution := 1 } }

theorem get_returns_own_points_after_restart :
    let b := [Event.request (.add 1 [97] { ts := 5, count := 1 }), .restart false cleanedUp 1,
      .request (.add 100 [98] { ts := 7, count := 3 })].foldl step
      (start (Wrtstat.reference 1 false) cleanedUp 0 4 10)
    ∀ t, (b.storage.dataStorage.point? (b.storage.keyCache.getId [98]) t).isSome →
      ∀ w ∈ b.writers (b.storage.keyCache.getId [98]) t, w = b.writer [98] := by
  intro b t ht
  have hfirst : IdsOwned ((start (Wrtstat.reference 1 false) cleanedUp 0 4 10).step
      (.request (.add 1 [97] { ts := 5, count := 1 }))) :=
    (idsOwned_start cleanedUp 0 4 10).step (.inl rfl) trivial
  have hkept := hfirst.remembersIds (show Option.map _ (KeyStorage.key? _ [97]) = _ from rfl) cleanedUp 1
  have hevents : RunMeets step (fun b e => NoErrors b e ∧ RemembersIds b e)
      (start (Wrtstat.reference 1 false) cleanedUp 0 4 10)
      [Event.request (.add 1 [97] { ts := 5, count := 1 }), .restart false cleanedUp 1,
        .request (.add 100 [98] { ts := 7, count := 3 })] :=
    ⟨⟨.inl rfl, trivial⟩, ⟨trivial, hkept⟩, ⟨.inl rfl, trivial⟩, trivial⟩
  exact ((get_returns_own_points cleanedUp 0 4 10 _ hevents 100 [98] 1 0 0 _ rfl).2 t ht).2

/-- A key is evicted and comes back under a new id; its del clears that id only, and after
a restart the old one goes to another name, with the point that is still under it. -/
theorem get_returns_point_of_other_name :
    let events := [Event.request (.add 1 [97] { ts := 5, count := 1 }), .gc 100,
      .request (.add 100 [97] { ts := 6, count := 2 }), .request (.del [97]), .restart false cleanedUp 100,
      .request (.add 100 [98] { ts := 7, count := 3 })]
    let b := events.foldl step (start (Wrtstat.reference 1 false) cleanedUp 0 4 10)
    RunMeets step NoErrors (start (Wrtstat.reference 1 false) cleanedUp 0 4 10) events ∧
      (∃ points, b.storage.get 100 [98] 1 0 0 = .ok points ∧ points.map (·.count) = [1, 3]) ∧
      b.writers (b.storage.keyCache.getId [98]) 5 = [([97], 0)] := by
  refine ⟨⟨.inl rfl, trivial, .inl rfl, .inl rfl, trivial, .inl rfl, trivial⟩, ⟨_, rfl, rfl⟩, rfl⟩

end Traced

end WfcBtp
