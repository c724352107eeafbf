import WfcBtp.Proofs.KeyIds

/-!
# A del that fails

`del` removes the cached key before it writes, and finds the id of a name in the cache
only. Once one of its writes has failed, calling it again finds nothing to delete.
-/

namespace WfcBtp
open Library

variable {W : Wrtstat}

/-! ### The time indexes, whatever writes fail -/

namespace KeyCache

/-- Popping the open periods keeps every name. -/
lemma IndexesAgree.release {c : KeyCache W} (h : c.IndexesAgree) : c.release.2.IndexesAgree where
  keys := (keys_eq_iff.mpr fun name => by
    rw [Storage.release_find?, Option.isSome_map]).trans h.keys
  times := h.times

end KeyCache

namespace Process

/-- With garbage collection on, the indexes of the cache agree. -/
def IndexesAgree (p : Process W) : Prop :=
  p.storage.keyCache.options.gcInterval ≠ 0 → p.storage.keyCache.IndexesAgree

lemma IndexesAgree.call {p : Process W} (h : p.IndexesAgree) (c : StorageCall) : (p.call c).2.IndexesAgree := by
  cases c with
  | add clock ok name data =>
    change (p.storage.add clock ok name data).2.keyCache.options.gcInterval ≠ 0 → _
    rw [Storage.add_options]
    intro hg
    change (p.storage.add clock ok name data).2.keyCache.IndexesAgree
    rw [Storage.add_keyCache]
    exact (h hg).add hg _ _ _
  | merge clock ok name data =>
    by_cases hd : data = []
    · subst hd
      exact h
    · change (p.storage.merge clock ok name data).2.keyCache.options.gcInterval ≠ 0 → _
      rw [Storage.merge_options _ ok hd]
      intro hg
      change (p.storage.merge clock ok name data).2.keyCache.IndexesAgree
      rw [Storage.merge_keyCache _ ok hd]
      exact (h hg).merge hg _ _ _
  | del ok name =>
    change (p.storage.del ok name).2.keyCache.options.gcInterval ≠ 0 →
      (p.storage.del ok name).2.keyCache.IndexesAgree
    rw [Storage.del_keyCache, (KeyCache.del_keyCounter _ _).2]
    exact fun hg => (h hg).del hg name
  | gc clock =>
    change (p.storage.keyCache.gc clock).2.options.gcInterval ≠ 0 → (p.storage.keyCache.gc clock).2.IndexesAgree
    rw [KeyCache.gc_options]
    exact fun hg => (h hg).gc clock
  | close ok =>
    unfold IndexesAgree
    rw [call_close_storage, Storage.close_keyCache]
    exact fun hg => (h hg).release
  | reopen opt clock =>
    intro hg
    have hopt : opt.keyCache.gcInterval ≠ 0 := by
      have hopen := Storage.openOn_options (W := W) opt clock p.storage.keyStorage p.storage.dataStorage
      rw [← hopen]
      exact hg
    exact Storage.openOn_indexesAgree hopt _ _ _

lemma IndexesAgree.run (calls : List StorageCall) {p : Process W} (h : p.IndexesAgree) :
    (calls.foldl step p).IndexesAgree :=
  run_of_call (fun _ c h => h.call c) h calls

lemma indexesAgree_start (opt : StorageOptions) (clock : ℤ) (hashSize resultLimit : ℕ) :
    (start W opt clock hashSize resultLimit).IndexesAgree := by
  intro hg
  have hopt : opt.keyCache.gcInterval ≠ 0 := by
    have hopen := Storage.fresh_options (W := W) opt clock hashSize resultLimit
    rw [← hopen]
    exact hg
  exact Storage.openOn_indexesAgree hopt _ _ _

end Process

/-! ### When a del fails -/

namespace Storage

/-- The points a del of an id goes through: those it has from time zero on. -/
def scanned (s : Storage W) (id : KeyId) : List (KeyTs × AggregatedInfo) :=
  ((s.dataStorage.getDb id).content.lowerBound (toLex (id, 0))).takeWhile fun e => (ofLex e.1).1 = id

/-- A del returns true exactly when its name is cached under a real id and no delete of
its stored key or of its points fails. -/
lemma del_ok_iff {s : Storage W} (h : s.keyCache.options.gcInterval ≠ 0 → s.keyCache.IndexesAgree)
    (ok : Outcomes) (name : Name) :
    (s.del ok name).1 = .ok () ↔
      ∃ ka, s.keyCache.keyMap.find? name = some ka ∧ ka.getId ≠ badKey ∧ ok 0 = true ∧
        ∀ j < (s.scanned ka.getId).length, ok (1 + j) = true := by
  cases hk : s.keyCache.keyMap.find? name with
  | none =>
    rw [del_of_badKey (by rw [KeyCache.del_of_none hk])]
    simp
  | some ka =>
    have hid := KeyCache.del_fst h hk
    by_cases hbad : ka.getId = badKey
    · rw [del_of_badKey (hid.trans hbad)]
      simp [hbad]
    · have hloop := @DataStorage.delLoop_ok_iff ka.getId ok
        ((s.dataStorage.getDb ka.getId).content.lowerBound (toLex (ka.getId, 0))) 1
        (s.dataStorage.getDb ka.getId)
      unfold del
      simp only [hid, hbad, if_false]
      cases hok : ok 0 with
      | false =>
        have hset : s.keyStorage.del false name = (.error (.keyDel name), s.keyStorage) := rfl
        rw [hset]
        simp
      | true =>
        have hset : s.keyStorage.del true name = (.ok (), (s.keyStorage.del true name).2) := rfl
        rw [hset]
        simp only [Option.some.injEq, exists_eq_left', ne_eq, hbad, not_false_eq_true, true_and]
        exact hloop

/-- After a del, the cache does not have the name, and another one finds nothing. -/
lemma del_again (s : Storage W) (ok ok' : Outcomes) (name : Name) :
    (s.del ok name).2.del ok' name = (.error .badKey, (s.del ok name).2) := by
  have hnone : (s.del ok name).2.keyCache.keyMap.find? name = none := by
    rw [del_keyCache, KeyCache.del_find?, if_pos rfl]
  have hdel := KeyCache.del_of_none hnone
  rw [del_of_badKey (by rw [hdel]), hdel]

end Storage

/-! ### Completing it -/

namespace Process

/-- If the del fails, the next one of the name after `calls`, with no failing writes,
returns true and leaves no key of the name and no point under an id it had. -/
def Completes (p : Process W) (ok : Outcomes) (name : Name) (calls : List StorageCall) : Prop :=
  (p.storage.del ok name).1 ≠ .ok () →
    let later := calls.foldl step { p with storage := (p.storage.del ok name).2 }
    let r := later.storage.del allOk name
    r.1 = .ok () ∧ r.2.keyCache.keyMap.find? name = none ∧ r.2.keyStorage.key? name = none ∧
      ∀ id, Traced.Holds p.storage name id → ∀ t, r.2.dataStorage.point? id t = none

/-- A failed del is completed by calling it again exactly when it does not fail: its name
is cached under a real id, and no delete of its stored key or of its points fails. -/
theorem failed_del_completed_iff (opt : StorageOptions) (clock : ℤ) (hashSize resultLimit : ℕ)
    (calls : List StorageCall) (name : Name) (ok : Outcomes) :
    let p := calls.foldl step (start W opt clock hashSize resultLimit)
    let deleted := ∃ ka, p.storage.keyCache.keyMap.find? name = some ka ∧ ka.getId ≠ badKey ∧ ok 0 = true ∧
      ∀ j < (p.storage.scanned ka.getId).length, ok (1 + j) = true
    (p.Completes ok name [] ↔ deleted) ∧ ((∀ between, p.Completes ok name between) ↔ deleted) := by
  intro p deleted
  have hagree : p.IndexesAgree := (indexesAgree_start opt clock hashSize resultLimit).run calls
  have hdel := Storage.del_ok_iff hagree ok name
  have hnow : p.Completes ok name [] → deleted := by
    intro h
    by_contra hnot
    have hstatus := (h fun hok => hnot (hdel.mp hok)).1
    change ((p.storage.del ok name).2.del allOk name).1 = .ok () at hstatus
    rw [Storage.del_again] at hstatus
    exact absurd hstatus (by simp)
  have hlater : deleted → ∀ between, p.Completes ok name between :=
    fun h between hfail => absurd (hdel.mpr h) hfail
  exact ⟨⟨hnow, fun h => hlater h []⟩, ⟨fun h => hnow (h []), hlater⟩⟩

/-- The delete of the stored key fails, and the second del returns Bad Key while the key
and its point are still stored. -/
theorem failed_del_not_completed :
    let calls := [StorageCall.add 1 allOk [97] { ts := 5, count := 1 }, .add 1 allOk [97] { ts := 6, count := 1 }]
    let p := calls.foldl step (start (Wrtstat.reference 1 false) { keyCache := { resolution := 1 } } 0 4 10)
    let first := p.storage.del (fun _ => false) [97]
    let second := first.2.del allOk [97]
    first.1 = .error (.keyDel [97]) ∧ second.1 = .error .badKey ∧
      (second.2.keyStorage.key? [97]).isSome ∧ (second.2.dataStorage.point? 1 5).isSome ∧
      ¬p.Completes (fun _ => false) [97] [] := by
  intro calls p first second
  have hfirst : first.1 = .error (.keyDel [97]) := rfl
  have hsecond : second.1 = .error .badKey := rfl
  refine ⟨hfirst, hsecond, rfl, rfl, fun h => ?_⟩
  have hok : second.1 = .ok () := (h (by rw [hfirst]; simp)).1
  rw [hsecond] at hok
  exact absurd hok (by simp)

end Process

end WfcBtp
