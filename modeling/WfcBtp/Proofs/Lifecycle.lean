import WfcBtp.Library.Runs
import WfcBtp.Proofs.StorageParts

/-!
# Life cycles that use no missing database

The stages of a life cycle, told from its events alone, say which pointers of the storage
lead somewhere, so that a life cycle is sound as long as no event leaves the stages.
-/

namespace WfcBtp.Lifecycle
open Library Library.Owning

/-! ### The storage -/

namespace Storage

/-- The databases of every key are open. -/
structure Writable (s : Storage) : Prop where
  key : ∃ k r db, s.keyStorage = some k ∧ k.rocksdb = some r ∧ r.db = .assigned db
  data : ∃ d sh, s.dataStorage = some d ∧ d.db = some sh ∧ ShardRocksdb.AllOpen sh.dbs ∧
    ShardRocksdb.Complete sh.dbs

variable {s : Storage}

lemma setAll_triple (h : s.Writable) (ok : Outcomes) (id : KeyId) (n i : ℕ) :
    Triple [] (setAll ok s id n i) fun b o => o = [] ∧ b = allFrom ok i n := by
  obtain ⟨d, sh, hd, hsh, hopen, hall⟩ := h.data
  induction n generalizing i with
  | zero => exact Triple.pure ⟨rfl, rfl⟩
  | succ n ih =>
    unfold setAll DataStorage.set
    rw [Nat.add_comm n, allFrom_add, allFrom_one, hd, deref_bind, hsh, deref_bind]
    apply (ShardRocksdb.set_triple hopen hall (ok i) id).bind
    rintro _ _ ⟨rfl, rfl⟩
    cases ok i with
    | false => exact Triple.pure ⟨rfl, rfl⟩
    | true => exact ih (i + 1)

/-- How many writes `close` makes if all succeed. -/
def writes (keys : List (KeyId × ℕ)) : ℕ := (keys.map fun kv => 1 + kv.2).sum

lemma closeLoop_triple {keys : List (KeyId × ℕ)} (h : keys ≠ [] → s.Writable) (ok : Outcomes) (i : ℕ) :
    Triple [] (closeLoop ok s keys i) fun b o => o = [] ∧ b = allFrom ok i (writes keys) := by
  induction keys generalizing i with
  | nil => exact Triple.pure ⟨rfl, rfl⟩
  | cons kv rest ih =>
    have hs := h (List.cons_ne_nil _ _)
    obtain ⟨k, r, db, hk, hr, hdb⟩ := hs.key
    have hwrites : allFrom ok i (writes (kv :: rest)) =
        (ok i && (allFrom ok (i + 1) kv.2 && allFrom ok (i + 1 + kv.2) (writes rest))) := by
      rw [writes, List.map_cons, List.sum_cons, Nat.add_assoc, allFrom_add, allFrom_one, allFrom_add]
      rfl
    unfold closeLoop
    rw [hk, deref_bind, hwrites]
    apply (KeyStorage.set_triple hr hdb (ok i)).bind
    rintro _ _ ⟨rfl, rfl⟩
    cases ok i with
    | false => exact Triple.pure ⟨rfl, rfl⟩
    | true =>
      apply (setAll_triple hs ok kv.1 kv.2 (i + 1)).bind
      rintro _ _ ⟨rfl, rfl⟩
      cases allFrom ok (i + 1) kv.2 with
      | false => exact Triple.pure ⟨rfl, rfl⟩
      | true => exact ih (fun _ => hs) (i + 1 + kv.2)

/-- The parts that there are can be destroyed. -/
structure Droppable (s : Storage) : Prop where
  key : ∀ k, s.keyStorage = some k → ∃ r, k.rocksdb = some r ∧ r.db ≠ .neverAssigned
  data : ∀ d, s.dataStorage = some d → ∃ sh, d.db = some sh ∧ ShardRocksdb.AllOpen sh.dbs

/-- Nor does a `close` follow a pointer that leads nowhere; `keys` are in the cache. -/
structure Usable (s : Storage) (keys : List (KeyId × ℕ)) : Prop extends s.Droppable where
  cache : s.keyCache = some keys
  opened : ∃ k r, s.keyStorage = some k ∧ k.rocksdb = some r ∧ (r.db ≠ .absent → s.dataStorage ≠ none)
  writable : keys ≠ [] → s.Writable

/-- The key storage cannot even be destroyed. -/
def Stuck (s : Storage) : Prop := ∃ k, s.keyStorage = some k ∧ k.Dead

variable {keys : List (KeyId × ℕ)}

lemma droppable_new : Droppable {} := ⟨fun _ hk => (nomatch hk), fun _ hd => (nomatch hd)⟩

lemma Droppable.drop_data (h : s.Droppable) :
    Consumes (s.dataStorage.elim [] DataStorage.owned) (drop DataStorage.destroy s.dataStorage) := by
  refine drop_consumes fun d hd => ?_
  obtain ⟨sh, hsh, hopen⟩ := h.data d hd
  exact DataStorage.destroy_consumes hsh hopen

lemma Droppable.drop_key (h : s.Droppable) :
    Consumes (s.keyStorage.elim [] KeyStorage.owned) (drop KeyStorage.destroy s.keyStorage) := by
  refine drop_consumes fun k hk => ?_
  obtain ⟨r, hr, hdb⟩ := h.key k hk
  exact KeyStorage.destroy_consumes hr hdb

lemma Droppable.destroy_consumes (h : s.Droppable) : Consumes s.owned s.destroy := by
  apply h.drop_data.bind_frame
  rintro _ _ rfl
  exact h.drop_key

lemma Usable.close_triple (h : s.Usable keys) (ok : Outcomes) :
    Triple s.owned (s.close ok) fun p o => o = p.2.owned ∧
      if allFrom ok 0 (writes keys) then p.2.Stuck else p.2.Usable (released keys) := by
  have hwritable : keys ≠ [] → ({ s with keyCache := some (released keys) } : Storage).Writable :=
    fun hkeys => ⟨(h.writable hkeys).key, (h.writable hkeys).data⟩
  have hreleased : ({ s with keyCache := some (released keys) } : Storage).Usable (released keys) :=
    ⟨⟨h.key, h.data⟩, rfl, h.opened, fun hkeys => hwritable fun hnil => hkeys (by rw [hnil]; rfl)⟩
  obtain ⟨k, r, hk, hr, hdata⟩ := h.opened
  have hdb : r.db ≠ .neverAssigned := by
    obtain ⟨r', hr', hdb⟩ := h.key k hk
    rwa [Option.some.inj (hr.symm.trans hr')]
  unfold close
  rw [h.cache, deref_bind]
  apply (closeLoop_triple hwritable ok 0).bind_nil
  rintro _ _ ⟨rfl, rfl⟩
  cases allFrom ok 0 (writes keys) with
  | false => exact Triple.pure ⟨rfl, hreleased⟩
  | true =>
    change Triple (s.dataStorage.elim [] DataStorage.owned ++ s.keyStorage.elim [] KeyStorage.owned)
      (deref s.keyStorage >>= _) _
    rw [hk, deref_bind]
    apply ((KeyStorage.close_triple hr hdb).frame_left _).bind
    rintro _ _ ⟨_, rfl, rfl, rfl⟩
    by_cases hopen : r.db = .absent
    · rw [hopen]
      exact Triple.pure ⟨rfl, ⟨none⟩, rfl, fun r hr => nomatch hr⟩
    · obtain ⟨d, hd⟩ := Option.ne_none_iff_exists'.mp (hdata hopen)
      obtain ⟨sh, hsh, hall⟩ := h.data d hd
      rw [decide_eq_true hopen]
      change Triple (s.dataStorage.elim [] DataStorage.owned ++ []) (deref s.dataStorage >>= _) _
      rw [hd, deref_bind, List.append_nil]
      apply (DataStorage.close_triple hsh hall).bind
      rintro ⟨res, _⟩ _ ⟨rfl, rfl⟩
      exact Triple.pure ⟨rfl, ⟨none⟩, rfl, fun r hr => nomatch hr⟩

/-- The state once `open` has its data storage. -/
lemma usable_opened {r : KeyRocksdb} {sh : ShardRocksdb} {db : ℕ} (hdb : r.db = .assigned db)
    (hopen : ShardRocksdb.AllOpen sh.dbs) (hall : keys ≠ [] → ShardRocksdb.Complete sh.dbs) :
    Usable { keyCache := some keys, keyStorage := some ⟨some r⟩, dataStorage := some ⟨some sh⟩ } keys where
  key k hk := by
    cases hk
    exact ⟨r, rfl, by simp [hdb]⟩
  data d hd := by
    cases hd
    exact ⟨sh, rfl, hopen⟩
  cache := rfl
  opened := ⟨⟨some r⟩, r, rfl, rfl, fun _ => Option.some_ne_none _⟩
  writable hkeys := ⟨⟨⟨some r⟩, r, db, rfl, rfl, hdb⟩, ⟨⟨some sh⟩, sh, rfl, rfl, hopen, hall hkeys⟩⟩

lemma open_triple {failedOpen : DbPtr → DbPtr} (hnull : ∀ p, failedOpen p = .absent) (env : Env)
    (h : s.Droppable) :
    Triple s.owned (s.open_ failedOpen env) fun p o => o = p.2.owned ∧
      if env.keyReady then p.2.Usable (if env.ready then env.keys else []) else p.2.Stuck := by
  apply (h.drop_key.frame_left _).bind
  rintro _ _ ⟨_, rfl, rfl⟩
  apply ((KeyStorage.open_triple hnull env).frame_left _).bind
  rintro _ _ ⟨_, rfl, r, rfl, rfl, hassigned, hready⟩
  cases hkey : env.keyReady with
  | false =>
    refine Triple.pure ⟨by simp [owned, KeyStorage.owned], ⟨some r⟩, rfl, fun r' hr' => ?_⟩
    cases hr'
    exact hready.mpr hkey
  | true =>
    have hdb : r.db ≠ .neverAssigned := fun hnever => Bool.false_ne_true ((hready.mp hnever).symm.trans hkey)
    rw [hkey, Bool.true_and] at hassigned
    rw [Bool.true_and, Env.ready, hkey, Bool.true_and]
    cases hkeyDb : env.keyDb with
    | false =>
      have habsent : r.db = .absent := by
        cases hptr : r.db with
        | neverAssigned => exact absurd hptr hdb
        | absent => rfl
        | assigned d => exact absurd (hassigned.mpr ⟨d, hptr⟩) (by simp [hkeyDb])
      refine Triple.pure ⟨rfl, ⟨⟨fun k hk => ?_, h.data⟩, rfl, ?_, fun hkeys => absurd rfl hkeys⟩⟩
      · cases hk
        exact ⟨r, rfl, hdb⟩
      · exact ⟨⟨some r⟩, r, rfl, rfl, fun hne => absurd habsent hne⟩
    | true =>
      obtain ⟨db, hassigned⟩ := hassigned.mp hkeyDb
      apply h.drop_data.bind_frame
      rintro _ _ rfl
      apply (DataStorage.open_triple env).bind_nil
      rintro _ _ ⟨sh, rfl, rfl, hopen, hall⟩
      cases hdata : env.dataReady with
      | false => exact Triple.pure ⟨rfl, usable_opened hassigned hopen fun hkeys => absurd rfl hkeys⟩
      | true =>
        apply (KeyStorage.load_triple rfl hassigned env).bind_nil
        rintro _ _ ⟨rfl, rfl⟩
        cases env.keyIterator with
        | false => exact Triple.pure ⟨rfl, usable_opened hassigned hopen fun hkeys => absurd rfl hkeys⟩
        | true => exact Triple.pure ⟨rfl, usable_opened hassigned hopen fun _ => hall hdata⟩

lemma Stuck.faults (h : s.Stuck) (failedOpen : DbPtr → DbPtr) (e : Event) : Faults (step failedOpen s e) := by
  obtain ⟨k, hk, hdead⟩ := h
  cases e with
  | open_ env =>
    refine Faults.bind ?_ _
    unfold open_
    rw [hk]
    exact hdead.destroy_faults.bind _
  | close ok =>
    refine Faults.bind (Faults.of_forall fun keys => ?_) _
    cases keys with
    | nil =>
      change Faults (closeLoop ok _ [] 0 >>= _)
      rw [closeLoop, pure_bind]
      change Faults (deref s.keyStorage >>= _)
      rw [hk, deref_bind]
      exact hdead.close_faults.bind _
    | cons kv rest =>
      refine Faults.bind ?_ _
      unfold closeLoop
      rw [hk, deref_bind]
      exact (hdead.set_faults (ok 0)).bind _
  | destroy =>
    refine Faults.bind (Faults.of_forall fun _ => ?_) _
    rw [hk]
    exact hdead.destroy_faults

end Storage

/-! ### Life cycles -/

/-- Where a life cycle stands, told from its events alone: a storage is constructed; its
`open` got as far as the key database, with these keys in the cache; or no call at all is
possible any more. -/
inductive Stage
  | constructed
  | usable (keys : List (KeyId × ℕ))
  | stuck
  deriving DecidableEq, Repr

namespace Stage

/-- A `close` whose writes all succeed closes the key storage. -/
def step : Stage → Event → Stage
  | _, .destroy => .constructed
  | _, .open_ env =>
    if env.keyReady then .usable (if env.ready then env.keys else []) else .stuck
  | .usable keys, .close ok =>
    if allFrom ok 0 (Storage.writes keys) then .stuck else .usable (Storage.released keys)
  | st, .close _ => st

/-- A storage is closed only after it was opened, and nothing follows once it is stuck. -/
def Allows : Stage → Event → Prop
  | .constructed, .close _ => False
  | .stuck, _ => False
  | _, _ => True

/-- What a stage says of the storage. -/
def Describes (s : Storage) : Stage → Prop
  | .constructed => s = {}
  | .usable keys => s.Usable keys
  | .stuck => s.Stuck

end Stage

variable {failedOpen : DbPtr → DbPtr} {s : Storage} {st : Stage} {e : Event}

/-- A step that is not allowed goes wrong. -/
lemma step_faults (h : st.Describes s) (he : ¬st.Allows e) : Faults (step failedOpen s e) := by
  cases st with
  | constructed =>
    cases e with
    | open_ env => exact absurd trivial he
    | destroy => exact absurd trivial he
    | close ok =>
      obtain rfl : s = {} := h
      exact (faults_fault.bind _).bind _
  | usable keys => cases e <;> exact absurd trivial he
  | stuck => exact Storage.Stuck.faults h failedOpen e

/-- An allowed step does not go wrong, and keeps account of the databases. -/
lemma step_triple (hnull : ∀ p, failedOpen p = .absent) (h : st.Describes s) (he : st.Allows e) :
    Triple s.owned (step failedOpen s e) fun s' o => o = s'.owned ∧ (st.step e).Describes s' := by
  have hdrop : st ≠ .stuck → s.Droppable := by
    intro hst
    cases st with
    | constructed =>
      obtain rfl : s = {} := h
      exact Storage.droppable_new
    | usable keys => exact Storage.Usable.toDroppable h
    | stuck => exact absurd rfl hst
  have hst : st ≠ .stuck := by
    rintro rfl
    exact he
  cases e with
  | open_ env =>
    apply (Storage.open_triple hnull env (hdrop hst)).bind
    rintro ⟨res, s'⟩ _ ⟨rfl, hs'⟩
    refine Triple.pure ⟨rfl, ?_⟩
    change (if env.keyReady then Stage.usable _ else Stage.stuck).Describes s'
    cases hready : env.keyReady with
    | false => rwa [hready] at hs'
    | true => rwa [hready] at hs'
  | close ok =>
    cases st with
    | constructed => exact he.elim
    | stuck => exact he.elim
    | usable keys =>
      apply (Storage.Usable.close_triple h ok).bind
      rintro ⟨res, s'⟩ _ ⟨rfl, hs'⟩
      refine Triple.pure ⟨rfl, ?_⟩
      change (if allFrom ok 0 (Storage.writes keys) then Stage.stuck else Stage.usable _).Describes s'
      cases hwritten : allFrom ok 0 (Storage.writes keys) with
      | false => rwa [hwritten] at hs'
      | true => rwa [hwritten] at hs'
  | destroy =>
    apply (hdrop hst).destroy_consumes.bind
    rintro _ _ rfl
    exact Triple.pure ⟨rfl, rfl⟩

/-- No step goes wrong, and every database that was opened is either one that the storage
still has or was released, once. -/
def Sound (result : Option (Storage × Handles)) : Prop :=
  ∃ s h, result = some (s, h) ∧ h.Accounted s.owned

lemma run_sound_iff (hnull : ∀ p, failedOpen p = .absent) (events : List Event) {h : Handles}
    (hs : st.Describes s) (hacc : h.Accounted s.owned) :
    Sound (events.foldlM (step failedOpen) s h) ↔ RunMeets Stage.step Stage.Allows st events := by
  induction events generalizing s st h with
  | nil => exact iff_of_true ⟨s, h, rfl, hacc⟩ trivial
  | cons e rest ih =>
    rw [List.foldlM_cons, bind_apply, RunMeets]
    by_cases he : st.Allows e
    · obtain ⟨s', _, h', hrun, ⟨rfl, hs'⟩, hacc'⟩ := step_triple hnull hs he h [] (by rwa [List.append_nil])
      rw [hrun, and_iff_right he]
      rw [List.append_nil] at hacc'
      exact ih hs' hacc'
    · rw [step_faults hs he h]
      refine iff_of_false ?_ fun hmeets => he hmeets.1
      rintro ⟨_, _, hnone, _⟩
      cases hnone

/-- Once the last storage is destroyed every database was released, once. -/
lemma Sound.released_of_destroyed {events : List Event} (h : Sound (run failedOpen (events ++ [.destroy]))) :
    ∃ r, run failedOpen (events ++ [.destroy]) = some r ∧ r.2.released.Perm (List.range r.2.opened) := by
  obtain ⟨s, hd, hrun, hacc⟩ := h
  refine ⟨(s, hd), hrun, ?_⟩
  have hnew : s = {} := by
    rw [run, List.foldlM_append, bind_apply] at hrun
    obtain ⟨r, -, hrun⟩ := Option.bind_eq_some_iff.mp hrun
    rw [List.foldlM_cons, bind_apply] at hrun
    obtain ⟨r', hstep, hrun⟩ := Option.bind_eq_some_iff.mp hrun
    rw [step, bind_apply] at hstep
    obtain ⟨r'', -, hstep⟩ := Option.bind_eq_some_iff.mp hstep
    cases hstep
    cases hrun
    rfl
  rw [hnew] at hacc
  change (hd.released ++ []).Perm (List.range hd.opened) at hacc
  rwa [List.append_nil] at hacc

/-- If a failing `DBWithTTL::Open` stores null, a life cycle uses no missing database and
releases every database that was opened once exactly as long as it closes a storage only
after it was opened, and does nothing more with it, not even destroy it, once its `open`
has failed before the key database or a `close` has made all its writes. -/
theorem life_cycle_sound_iff (hnull : ∀ p, failedOpen p = .absent) (events : List Event) :
    Sound (run failedOpen events) ↔ RunMeets Stage.step Stage.Allows .constructed events :=
  run_sound_iff hnull events rfl (List.Perm.refl [])

theorem life_cycle_sound_of_failing_shard :
    Sound (run (fun _ => .absent)
      [.open_ { shardDb := fun i => i < 1, hashSize := 2 }, .destroy, .open_ {}, .destroy]) :=
  (life_cycle_sound_iff (fun _ => rfl) _).mpr ⟨trivial, trivial, trivial, trivial, trivial⟩

/-- A storage is opened, closed and destroyed: its destructor calls a method of
`key_rocksdb` through the pointer that `close` has reset. -/
theorem close_then_destroy_faults :
    run (fun _ => .absent) [.open_ { hashSize := 1 }, .close allOk, .destroy] = none ∧
      ¬Sound (run (fun _ => .absent) [.open_ { hashSize := 1 }, .close allOk, .destroy]) := by
  have hrun : run (fun _ => .absent) [.open_ { hashSize := 1 }, .close allOk, .destroy] = none := rfl
  refine ⟨hrun, ?_⟩
  rw [hrun]
  rintro ⟨_, _, hnone, _⟩
  cases hnone

end WfcBtp.Lifecycle
