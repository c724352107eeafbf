import WfcBtp.Library.Interleaving
import WfcBtp.Library.Runs
import WfcBtp.Model.Concurrency
import WfcBtp.Model.WrtstatReference
import WfcBtp.Proofs.Reopening

/-!
# Concurrent adds and dels of one name

The cache sees the calls one after another. What they still have to write takes key storage
and data storage to where the cache is, as long as no write overtakes an older one that it
does not commute with.
-/

namespace WfcBtp
open Library

variable {W : Wrtstat}

/-- What is stored of one name: the id in its stored key, and where there are points. -/
@[ext] structure Shelf where
  key : Option KeyId
  points : KeyId → ℤ → Prop

namespace Shelf

def apply (sh : Shelf) : StorageWrite → Shelf
  | .setKey upKey => { sh with key := some upKey.id }
  | .delKey => { sh with key := none }
  | .setData id ud => { sh with points := fun id' t => id' = id ∧ t = ud.ts ∨ sh.points id' t }
  | .incData id ud => { sh with points := fun id' t => id' = id ∧ t = ud.ts ∨ sh.points id' t }
  | .delData id => { sh with points := fun id' t => id' ≠ id ∧ sh.points id' t }

end Shelf

namespace StorageWrite

/-- The id of a write of a point. -/
def dataId? : StorageWrite → Option KeyId
  | .setData id _ => some id
  | .incData id _ => some id
  | _ => none

/-- Two writes that leave the same in either order: not a stored key against its removal or
against one with another id, and not a point against the removal of its id. -/
def Independent (w w' : StorageWrite) : Prop :=
  match w, w' with
  | .setKey k, .setKey k' => k.id = k'.id
  | .setKey _, .delKey => False
  | .delKey, .setKey _ => False
  | .delData id, w' => w'.dataId? ≠ some id
  | w, .delData id => w.dataId? ≠ some id
  | _, _ => True

instance (w w' : StorageWrite) : Decidable (w.Independent w') := by
  unfold Independent
  split <;> infer_instance

lemma Independent.commutes {w w' : StorageWrite} (h : w.Independent w') : Commutes Shelf.apply w w' := by
  intro sh
  apply Shelf.ext
  · cases w <;> cases w'
    all_goals simp_all [Shelf.apply, Independent]
  · funext id t
    apply propext
    cases w <;> cases w'
    all_goals simp only [Shelf.apply, Independent, dataId?] at h ⊢
    all_goals grind

end StorageWrite

/-- A `del` of the id finds every point of it: the scan starts at the time zero. -/
def DelFinds (ds : DataStorage) (id : KeyId) : Prop :=
  ∀ e ∈ (ds.getDb id).content.entries, (ofLex e.1).1 = id → 0 ≤ (ofLex e.1).2

instance (ds : DataStorage) (id : KeyId) : Decidable (DelFinds ds id) := by
  unfold DelFinds
  infer_instance

lemma DelFinds.le {ds : DataStorage} {id : KeyId} (h : DelFinds ds id) {t : ℤ} {p : AggregatedInfo}
    (hp : ds.point? id t = some p) : 0 ≤ t :=
  h (toLex (id, t), p) ((OrderedMap.mem_entries_iff _ _ _).mpr hp) rfl

namespace Storage

def shelf (name : Name) (s : Storage W) : Shelf where
  key := (s.keyStorage.key? name).map (·.id)
  points id t := s.dataStorage.point? id t ≠ none

/-- A write does to the storage what it does to the shelf. -/
lemma shelf_perform (name : Name) (s : Storage W) {w : StorageWrite}
    (hdel : ∀ id, w = .delData id → DelFinds s.dataStorage id) :
    (s.perform name w).shelf name = (s.shelf name).apply w := by
  cases w with
  | setKey upKey =>
    have hkey := KeyStorage.key?_set s.keyStorage name name upKey
    rw [if_pos rfl] at hkey
    simp only [shelf, perform, hkey, Shelf.apply]
    rfl
  | delKey =>
    have hkey := KeyStorage.key?_del s.keyStorage name name
    rw [if_pos rfl] at hkey
    simp only [shelf, perform, hkey, Shelf.apply]
    rfl
  | setData id ud =>
    apply Shelf.ext
    · rfl
    · funext id' t
      simp only [shelf, perform, Shelf.apply, DataStorage.point?_set]
      split_ifs with h <;> simp [h]
  | incData id ud =>
    apply Shelf.ext
    · rfl
    · funext id' t
      simp only [shelf, perform, Shelf.apply, DataStorage.point?_inc]
      split_ifs with h <;> simp [h]
  | delData id =>
    apply Shelf.ext
    · rfl
    · funext id' t
      simp only [shelf, perform, Shelf.apply, DataStorage.point?_del]
      by_cases hid : id' = id
      · subst hid
        have hnone : ¬0 ≤ t → s.dataStorage.point? id' t = none := by
          intro ht
          by_contra hne
          obtain ⟨p, hp⟩ := Option.ne_none_iff_exists'.mp hne
          exact ht ((hdel id' rfl).le hp)
        by_cases ht : 0 ≤ t
        · simp [ht]
        · simp [ht, hnone ht]
      · simp [hid]

lemma dataWrite_dataId? (s : Storage W) (isLast : Bool) (id : KeyId) (ud : AggregatedInfo) :
    (s.dataWrite isLast id ud).dataId? = some id := by
  unfold dataWrite
  split_ifs <;> rfl

end Storage

namespace Shelf

/-- Writes of points touch their own id only. -/
lemma foldl_data {id : KeyId} {writes : List StorageWrite} (h : ∀ w ∈ writes, w.dataId? = some id) (sh : Shelf) :
    (writes.foldl apply sh).key = sh.key ∧
      ∀ id' t, id' ≠ id → ((writes.foldl apply sh).points id' t ↔ sh.points id' t) := by
  induction writes generalizing sh with
  | nil => exact ⟨rfl, fun _ _ _ => Iff.rfl⟩
  | cons w rest ih =>
    obtain ⟨hkey, hpoints⟩ := ih (fun w' hw => h w' (List.mem_cons_of_mem _ hw)) (sh.apply w)
    have hw := h w List.mem_cons_self
    rw [List.foldl_cons]
    refine ⟨hkey.trans ?_, fun id' t hid => (hpoints id' t hid).trans ?_⟩
    · cases w
      all_goals simp [StorageWrite.dataId?] at hw
      all_goals rfl
    · cases w
      all_goals simp [StorageWrite.dataId?] at hw
      all_goals simp [apply, hw, hid]

/-- What an add writes in the end. -/
lemma foldl_addWrites (s : Storage W) {r : CacheResult W} (hid : r.id ≠ badKey) (sh : Shelf) :
    ((s.addWrites r).foldl apply sh).key = (if r.isLast then some r.upKey.id else sh.key) ∧
      ∀ id' t, id' ≠ r.id → (((s.addWrites r).foldl apply sh).points id' t ↔ sh.points id' t) := by
  have hdata : ∀ w ∈ r.upData.map (s.dataWrite r.isLast r.id), w.dataId? = some r.id := by
    intro w hw
    obtain ⟨ud, -, rfl⟩ := List.mem_map.mp hw
    exact s.dataWrite_dataId? r.isLast r.id ud
  rw [Storage.addWrites, if_neg hid, List.foldl_append]
  obtain ⟨hkey, hpoints⟩ := foldl_data hdata ((if r.isLast then [.setKey r.upKey] else []).foldl apply sh)
  cases hl : r.isLast with
  | true =>
    simp only [hl] at hkey hpoints
    exact ⟨hkey, hpoints⟩
  | false =>
    simp only [hl] at hkey hpoints
    exact ⟨hkey, hpoints⟩

end Shelf

namespace AddsAndDels

/-- No add runs out of ids, a del finds every point of its id, and no write overtakes one
that an earlier call is still to make and that it does not commute with. -/
def InOrder (name : Name) (c : AddsAndDels W) : Step → Prop
  | .add _ _ => c.storage.keyId name ≠ badKey
  | .del => True
  | .write i =>
    match c.calls[i]? with
    | some (w :: _) =>
      (∀ call ∈ c.calls.take i, ∀ w' ∈ call, w.Independent w') ∧
        match w with
        | .delData id => DelFinds c.storage.dataStorage id
        | _ => True
    | _ => True

instance (name : Name) (c : AddsAndDels W) (a : Step) : Decidable (InOrder name c a) := by
  unfold InOrder
  cases a with
  | add clock data => infer_instance
  | del => infer_instance
  | write i =>
    dsimp only
    split
    · rename_i w _ _
      cases w <;> infer_instance
    · infer_instance

/-- What is stored once everything pending is written. -/
def final (name : Name) (c : AddsAndDels W) : Shelf := flush Shelf.apply (c.storage.shelf name) c.calls

/-- The pending writes take what is stored to what is cached. -/
structure Settles (name : Name) (c : AddsAndDels W) : Prop where
  indexes : c.storage.keyCache.options.gcInterval ≠ 0 → c.storage.keyCache.IndexesAgree
  id_ne : ∀ ka, c.storage.keyCache.keyMap.find? name = some ka → ka.getId ≠ badKey
  key : (c.final name).key = (c.storage.keyCache.keyMap.find? name).map (·.getId)
  points : ∀ id, (∀ ka, c.storage.keyCache.keyMap.find? name = some ka → ka.getId ≠ id) →
    ∀ t, ¬(c.final name).points id t

namespace Settles

variable {name : Name} {c : AddsAndDels W}

lemma of_fresh (opt : StorageOptions) (clock : ℤ) (hashSize resultLimit : ℕ) (name : Name) :
    Settles (W := W) name { storage := Storage.fresh W opt clock hashSize resultLimit } := by
  refine ⟨fun hgc => ?_, fun ka hka => ?_, ?_, fun id _ t => ?_⟩
  · exact Storage.openOn_indexesAgree (by simpa using hgc) clock _ _
  · exact absurd hka (by simp)
  · rw [Storage.fresh_find?]
    rfl
  · exact fun h => h rfl

lemma add (hstart : W.StartsInTime) (h : Settles name c) (clock : ℤ) (data : AggregatedData)
    (hid : c.storage.keyId name ≠ badKey) : Settles name (c.step name (.add clock data)) := by
  let r := c.storage.keyCache.add clock name data
  have hr : r.id = c.storage.keyId name := by rw [KeyCache.add_id, Storage.keyOrNew_getId]
  have hfind : r.cache.keyMap.find? name = some (c.storage.addKey name data).1 := by
    rw [KeyCache.add_find?, if_pos rfl]
    rfl
  have hisLast : r.isLast = (c.storage.addKey name data).2.2 :=
    congrArg CacheResult.isLast (Storage.add_result c.storage clock name data)
  have hgetId : (c.storage.addKey name data).1.getId = c.storage.keyId name := Storage.addKey_getId _ _ _
  have hcached : ∀ ka, c.storage.keyCache.keyMap.find? name = some ka → ka.getId = c.storage.keyId name :=
    fun ka hka => (Storage.keyId_of_some hka).symm
  have hfinal : (c.step name (.add clock data)).final name =
      (c.storage.addWrites r).foldl Shelf.apply (c.final name) := flush_snoc _ _ _
  obtain ⟨hkey, hpoints⟩ := Shelf.foldl_addWrites c.storage (hr ▸ hid) (c.final name)
  rw [← hfinal, hr] at hpoints
  rw [← hfinal] at hkey
  constructor
  · intro hgc
    change r.cache.options.gcInterval ≠ 0 at hgc
    rw [KeyCache.add_options] at hgc
    exact (h.indexes hgc).add hgc clock name data
  · intro ka hka
    rw [← Option.some.inj (hfind.symm.trans hka), hgetId]
    exact hid
  · change _ = (r.cache.keyMap.find? name).map (·.getId)
    rw [hkey, hfind, Option.map_some, hgetId]
    have hupKey : r.isLast = true → r.upKey.id = c.storage.keyId name := by
      intro hlast
      have hup : r.upKey = if (c.storage.addKey name data).2.2 then (c.storage.addKey name data).1.getKeyInfo else {} :=
        congrArg CacheResult.upKey (Storage.add_result c.storage clock name data)
      rw [hup, if_pos (hisLast ▸ hlast)]
      exact hgetId
    cases hk : c.storage.keyCache.keyMap.find? name with
    | some ka =>
      have hbefore : (c.final name).key = some (c.storage.keyId name) := by
        rw [h.key, hk, Option.map_some, hcached ka hk]
      split_ifs with hlast
      · rw [hupKey hlast]
      · exact hbefore
    | none =>
      -- the add that creates the key is on time, so it writes the stored key
      have hlast : r.isLast = true := by
        have hon : ¬(c.storage.keyCache.keyOrNew name data.ts).isLate data.ts := by
          rw [KeyCache.keyOrNew_of_none _ hk]
          exact fun hlate => (hstart data.ts).not_gt hlate.2
        rw [hisLast, Storage.addKey, KeyAggregator.add_of_not_late hon]
      rw [if_pos hlast, hupKey hlast]
  · intro id hne t
    have hother : id ≠ c.storage.keyId name := fun heq => hne _ hfind (hgetId.trans heq.symm)
    rw [hpoints id t hother]
    exact h.points id (fun ka hka heq => hother (heq.symm.trans (hcached ka hka))) t

lemma del (h : Settles name c) : Settles name (c.step name .del) := by
  have hfinal : (c.step name .del).final name =
      (Storage.delWrites (c.storage.keyCache.del name).1).foldl Shelf.apply (c.final name) := flush_snoc _ _ _
  have hfind : (c.step name .del).storage.keyCache.keyMap.find? name = none := by
    change (c.storage.keyCache.del name).2.keyMap.find? name = none
    rw [KeyCache.del_find?, if_pos rfl]
  have hindexes : (c.step name .del).storage.keyCache.options.gcInterval ≠ 0 →
      (c.step name .del).storage.keyCache.IndexesAgree := by
    intro hgc
    change (c.storage.keyCache.del name).2.options.gcInterval ≠ 0 at hgc
    rw [(KeyCache.del_keyCounter _ _).2] at hgc
    exact (h.indexes hgc).del hgc name
  have hnone : ∀ id t, ¬((c.step name .del).final name).points id t ∧
      ((c.step name .del).final name).key = none := by
    intro id t
    cases hk : c.storage.keyCache.keyMap.find? name with
    | none =>
      have hsame : (c.step name .del).final name = c.final name := by
        rw [hfinal, KeyCache.del_of_none hk]
        rfl
      rw [hsame]
      exact ⟨h.points id (fun ka hka => absurd (hk.symm.trans hka) (by simp)) t, by rw [h.key, hk]; rfl⟩
    | some ka =>
      rw [hfinal, KeyCache.del_fst h.indexes hk, Storage.delWrites, if_neg (h.id_ne ka hk)]
      refine ⟨?_, rfl⟩
      rintro ⟨hid, hp⟩
      refine h.points id (fun kb hkb heq => ?_) t hp
      rw [hk] at hkb
      exact hid (heq.symm.trans (congrArg KeyAggregator.getId (Option.some.inj hkb)).symm)
  constructor
  · exact hindexes
  · intro ka hka
    exact absurd (hfind.symm.trans hka) (by simp)
  · rw [hfind]
    exact (hnone 0 0).2
  · intro id _ t
    exact (hnone id t).1

lemma write (h : Settles name c) {i : ℕ} (hc : InOrder name c (.write i)) :
    Settles name (c.step name (.write i)) := by
  rcases hi : c.calls[i]? with _ | _ | ⟨w, rest⟩
  · simpa [step, hi] using h
  · simpa [step, hi] using h
  simp only [InOrder, hi] at hc
  obtain ⟨horder, hdel⟩ := hc
  have hstep : c.step name (.write i) = { storage := c.storage.perform name w, calls := c.calls.set i rest } := by
    simp only [step, hi]
  have hfinal : (c.step name (.write i)).final name = c.final name := by
    rw [hstep, final, Storage.shelf_perform]
    · exact flush_write hi (fun call hcall w' hw => (horder call hcall w' hw).commutes) _
    · rintro id rfl
      exact hdel
  have hcache : (c.step name (.write i)).storage.keyCache = c.storage.keyCache := by
    rw [hstep, Storage.perform_keyCache]
  constructor
  · rw [hcache]
    exact h.indexes
  · rw [hcache]
    exact h.id_ne
  · rw [hfinal, hcache]
    exact h.key
  · rw [hfinal, hcache]
    exact h.points

lemma step (hstart : W.StartsInTime) (h : Settles name c) {a : Step} (hc : InOrder name c a) :
    Settles name (c.step name a) := by
  cases a with
  | add clock data => exact h.add hstart clock data hc
  | del => exact h.del
  | write i => exact h.write hc

end Settles

/-- However the steps of any number of adds and dels of one name are interleaved, if every
slot is written in the order of the calls into the cache, then once all have returned the
cache and key storage hold the name with one id, or neither does and no point is left. -/
theorem adds_and_dels_agree (hstart : W.StartsInTime) (opt : StorageOptions) (clock : ℤ)
    (hashSize resultLimit : ℕ) (name : Name) (steps : List Step)
    (hsteps : RunMeets (step name) (InOrder name)
      { storage := Storage.fresh W opt clock hashSize resultLimit } steps) :
    let c := steps.foldl (step name) { storage := Storage.fresh W opt clock hashSize resultLimit }
    c.Returned →
      (∃ ka sk, c.storage.keyCache.keyMap.find? name = some ka ∧
        c.storage.keyStorage.key? name = some sk ∧ sk.id = ka.getId) ∨
      (c.storage.keyCache.keyMap.find? name = none ∧ c.storage.keyStorage.key? name = none ∧
        ∀ id t, c.storage.dataStorage.point? id t = none) := by
  intro c hret
  have h : Settles name c := by
    refine RunMeets.invariant (fun _ c => Settles name c)
      (Settles.of_fresh opt clock hashSize resultLimit name) ?_ hsteps
    intro _ c a h hc
    exact h.step hstart hc
  have hfinal : c.final name = c.storage.shelf name := flush_of_empty hret _
  have hkey := h.key
  have hpoints := h.points
  rw [hfinal] at hkey hpoints
  cases hk : c.storage.keyCache.keyMap.find? name with
  | some ka =>
    rw [hk] at hkey
    obtain ⟨sk, hsk, hid⟩ := Option.map_eq_some_iff.mp hkey
    exact .inl ⟨ka, sk, rfl, hsk, hid⟩
  | none =>
    rw [hk] at hkey
    refine .inr ⟨rfl, Option.map_eq_none_iff.mp hkey, fun id t => ?_⟩
    by_contra hne
    exact hpoints id (fun ka hka => absurd (hk.symm.trans hka) (by simp)) t hne

/-- A del between the adds of two ids. -/
theorem adds_and_dels_agree_in_order :
    let steps : List Step := [.add 0 { ts := 5, count := 1 }, .add 0 { ts := 6, count := 2 }, .write 0, .write 1,
      .write 1, .write 0, .del, .write 2, .add 0 { ts := 7, count := 1 }, .write 3, .write 2, .write 3]
    let opt : StorageOptions := { keyCache := { aggregateLastPoint := true, resolution := 1 } }
    let c := steps.foldl (step [97]) { storage := Storage.fresh (Wrtstat.reference 5 false) opt 0 4 10 }
    (∃ ka sk, c.storage.keyCache.keyMap.find? [97] = some ka ∧
        c.storage.keyStorage.key? [97] = some sk ∧ sk.id = ka.getId) ∨
      (c.storage.keyCache.keyMap.find? [97] = none ∧ c.storage.keyStorage.key? [97] = none ∧
        ∀ id t, c.storage.dataStorage.point? id t = none) :=
  adds_and_dels_agree (Wrtstat.reference_startsInTime (by omega) false)
    { keyCache := { aggregateLastPoint := true, resolution := 1 } } 0 4 10 [97]
    [.add 0 { ts := 5, count := 1 }, .add 0 { ts := 6, count := 2 }, .write 0, .write 1,
      .write 1, .write 0, .del, .write 2, .add 0 { ts := 7, count := 1 }, .write 3, .write 2, .write 3]
    (by decide +kernel) (by decide +kernel)

/-- A whole del between the cache step of an add and its writes: the name is back in key
storage, with its point, and not cached. -/
theorem deleted_name_comes_back :
    let steps : List Step := [.add 0 { ts := 5, count := 1 }, .del, .write 1, .write 1, .write 0, .write 0]
    let opt : StorageOptions := { keyCache := { aggregateLastPoint := true, resolution := 1 } }
    let c := steps.foldl (step [97]) { storage := Storage.fresh (Wrtstat.reference 5 false) opt 0 4 10 }
    c.Returned ∧ c.storage.keyCache.getId [97] = badKey ∧
      (c.storage.keyStorage.key? [97]).map (·.id) = some 1 ∧
      (c.storage.dataStorage.point? 1 5).map (·.count) = some 1 :=
  ⟨by decide +kernel, by decide +kernel, by decide +kernel, by decide +kernel⟩

end AddsAndDels

end WfcBtp
