import WfcBtp.Model.KeyCacheSelect
import WfcBtp.Model.WrtstatReference
import WfcBtp.Proofs.Divisions
import WfcBtp.Proofs.KeysPersisted

/-!
# Queries after a restart

A storage that is opened over the databases of another one answers queries as the other
one would have.
-/

namespace WfcBtp
open Library

variable {W : Wrtstat}

/-- A cache restored from the stored keys has the infos of the running one. -/
lemma KeysPersisted.infos_reopened {s : Storage W} (h : KeysPersisted s) {opt : StorageOptions}
    (hgc : opt.keyCache.gcInterval = 0) (clock : ℤ) {ks : KeyStorage}
    (hks : ∀ name, ks.key? name = s.keyStorage.key? name) (ds : DataStorage) (power : Bool) :
    (Storage.openOn opt clock ks ds : Storage W).keyCache.infos power = s.keyCache.infos power := by
  apply OrderedMap.ext
  intro name
  simp only [KeyCache.infos, OrderedMap.find?_mapValues, Storage.openOn_find?_of_interval_zero hgc, hks,
    h.stored]
  cases hk : s.keyCache.keyMap.find? name with
  | none => rfl
  | some ka => exact congrArg some (KeyAggregator.getAggregatedInfo_restored (h.nonneg name ka hk) _ _)

/-- After any requests the storage may be closed or just dropped. Opening the same databases comes
to its end exactly if none of them holds a key or no option makes it divide by zero, and then
answers every query as the old storage would have. -/
theorem queries_survive_restart (hstart : W.StartsInTime) (opt : StorageOptions)
    (hgc : opt.keyCache.gcInterval = 0) (clock : ℤ) (hashSize resultLimit : ℕ) (requests : List Request)
    (hrequests : RunMeets (fun s r => (s.serve r).2) Storage.Served
      (Storage.fresh W opt clock hashSize resultLimit) requests)
    (closed : Bool) (opt' : StorageOptions) (hgc' : opt'.keyCache.gcInterval = 0) (clock' : ℤ)
    (sort : SortFunction) :
    let s := requests.foldl (fun s r => (s.serve r).2) (Storage.fresh W opt clock hashSize resultLimit)
    let reopened : Option (Storage W) :=
      Storage.openOn? opt' clock' (s.stop closed).keyStorage (s.stop closed).dataStorage
    (reopened.isSome ↔ (s.stop closed).keyStorage.names = [] ∨ KeyCache.Restores opt'.keyCache) ∧
      ∀ s', reopened = some s' →
        (∀ start ending offset limit by' power, s'.keyCache.select sort start ending offset limit by' power =
          s.keyCache.select sort start ending offset limit by' power) ∧
        ∀ start sep depth offset limit node by' power,
          s'.keyCache.tree sort start sep depth offset limit node by' power =
            s.keyCache.tree sort start sep depth offset limit node by' power := by
  intro s reopened
  have hrun : KeysPersisted s ∧ s.keyCache.options.gcInterval = 0 := by
    refine RunMeets.invariant (fun _ s => KeysPersisted s ∧ s.keyCache.options.gcInterval = 0) ?_ ?_ hrequests
    · refine ⟨KeysPersisted.of_fresh opt clock hashSize resultLimit, ?_⟩
      rw [Storage.fresh_options, hgc]
    · intro _ s r hs hr
      exact ⟨hs.1.serve hstart hs.2 hr, by rw [Storage.serve_options, hs.2]⟩
  have h := hrun.1
  have hks : ∀ name, (s.stop closed).keyStorage.key? name = s.keyStorage.key? name := by
    intro name
    cases closed with
    | false => rfl
    | true => exact h.close_key? name
  have hguarded := Storage.openOn?_guarded (W := W) opt' clock' (s.stop closed).keyStorage (s.stop closed).dataStorage
  refine ⟨hguarded.isSome_iff, fun s' hs' => ?_⟩
  obtain rfl := hguarded.eq_of_eq_some hs'
  have hinfos := h.infos_reopened hgc' clock' hks (s.stop closed).dataStorage
  exact ⟨fun start ending offset limit by' power => KeyCache.select_congr (hinfos power) sort _ _ _ _ _,
    fun start sep depth offset limit node by' power =>
      KeyCache.tree_congr (hinfos power) sort _ _ _ _ _ _ _⟩

theorem queries_survive_restart_after_close :
    let opt : StorageOptions := { keyCache := { resolution := 1 } }
    let s := [Request.add 0 [97] { ts := 5, count := 2 }, Request.add 0 [98] { ts := 7, count := 3 }].foldl
      (fun s r => (s.serve r).2) (Storage.fresh (Wrtstat.reference 5 false) opt 0 4 10)
    ∃ s' : Storage (Wrtstat.reference 5 false),
      Storage.openOn? opt 100 (s.stop true).keyStorage (s.stop true).dataStorage = some s' ∧
        ∀ start ending offset limit by' power,
          s'.keyCache.select (fun _ _ l => l) start ending offset limit by' power =
            s.keyCache.select (fun _ _ l => l) start ending offset limit by' power := by
  intro opt s
  have hopen : Storage.openOn? opt 100 (s.stop true).keyStorage (s.stop true).dataStorage =
      some (Storage.openOn opt 100 (s.stop true).keyStorage (s.stop true).dataStorage :
        Storage (Wrtstat.reference 5 false)) :=
    (Storage.openOn?_guarded opt 100 _ _).eq_some (.inr (by decide))
  obtain ⟨-, hqueries⟩ := queries_survive_restart (W := Wrtstat.reference 5 false)
    (Wrtstat.reference_startsInTime (by omega) false) opt rfl 0 4 10
    [Request.add 0 [97] { ts := 5, count := 2 }, Request.add 0 [98] { ts := 7, count := 3 }]
    ⟨.inl rfl, .inl rfl, trivial⟩ true opt rfl 100 fun _ _ l => l
  exact ⟨_, hopen, (hqueries _ hopen).1⟩

end WfcBtp
