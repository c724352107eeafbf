import WfcBtp.Model.DomainLife
import WfcBtp.Proofs.Lifecycle

/-!
# Lives of the domain object

Which calls of the domain follow a pointer that leads nowhere is told from the events before
them: whether a storage is open, was closed, or is not there.
-/

namespace WfcBtp.Lifecycle
open Library Library.Owning

lemma Triple.imp {α : Type} {owned : List ℕ} {m : Owning α} {post post' : α → List ℕ → Prop}
    (hm : Triple owned m post) (himp : ∀ a o, post a o → post' a o) : Triple owned m post' := by
  intro h rest hacc
  obtain ⟨a, o, h', hrun, hpost, hacc'⟩ := hm h rest hacc
  exact ⟨a, o, h', hrun, himp a o hpost, hacc'⟩

/-- What only returns something does not go wrong itself. -/
lemma Faults.of_bind_pure {α β : Type} {m : Owning α} {f : α → β} (h : Faults (m >>= fun a => pure (f a))) :
    Faults m := by
  intro s
  have hs := h s
  rw [bind_apply] at hs
  cases hm : m s with
  | none => rfl
  | some r =>
    rw [hm] at hs
    cases hs

/-- What follows a computation that goes through goes wrong. -/
lemma Triple.bind_faults {α β : Type} {owned : List ℕ} {m : Owning α} {f : α → Owning β}
    {post : α → List ℕ → Prop} (hm : Triple owned m post) (hf : ∀ a o, post a o → Faults (f a)) {h : Handles}
    {rest : List ℕ} (hacc : h.Accounted (owned ++ rest)) : (m >>= f) h = none := by
  obtain ⟨a, o, h', hrun, hpost, -⟩ := hm h rest hacc
  rw [bind_apply, hrun]
  exact hf a o hpost h'

lemma deref_eq_bind {α β : Type} {p : Option α} {a : α} (h : p = some a) (f : α → Owning β) :
    (deref p >>= f) = f a := by
  rw [h]
  rfl

namespace Storage

variable {s : Storage} {keys : List (KeyId × ℕ)}

/-- The storage is open. -/
structure Running (s : Storage) (keys : List (KeyId × ℕ)) : Prop extends s.Writable where
  cache : s.keyCache = some keys

/-- A `close` has made all its writes. -/
structure Closed (s : Storage) : Prop where
  key : s.keyStorage = some ⟨none⟩
  data : s.dataStorage = some ⟨none⟩
  cache : ∃ keys, s.keyCache = some keys

lemma Stuck.destroy_faults (h : s.Stuck) (failedOpen : DbPtr → DbPtr) : Faults s.destroy :=
  Faults.of_bind_pure (h.faults failedOpen .destroy)

lemma Closed.stuck (h : s.Closed) : s.Stuck := ⟨⟨none⟩, h.key, fun _ hr => nomatch hr⟩

lemma Running.droppable (h : s.Running keys) : s.Droppable where
  key k hk := by
    obtain ⟨k', r, db, hk', hr, hdb⟩ := h.key
    obtain rfl := Option.some.inj (hk.symm.trans hk')
    exact ⟨r, hr, by simp [hdb]⟩
  data d hd := by
    obtain ⟨d', sh, hd', hsh, hopen, -⟩ := h.data
    obtain rfl := Option.some.inj (hd.symm.trans hd')
    exact ⟨sh, hsh, hopen⟩

/-- The cache may have any keys. -/
lemma Running.withKeys (h : s.Running keys) (keys' : List (KeyId × ℕ)) :
    Running { s with keyCache := some keys' } keys' where
  key := h.key
  data := h.data
  cache := rfl

/-! ### Opening and closing -/

lemma new_open_triple {failedOpen : DbPtr → DbPtr} (hnull : ∀ p, failedOpen p = .absent) (env : Env) :
    Triple [] (Storage.open_ failedOpen env {}) fun p o => o = p.2.owned ∧ p.1 = env.ready ∧
      if env.ready then p.2.Running env.keys else if env.keyReady then p.2.Droppable else p.2.Stuck := by
  unfold open_
  rw [drop_none_bind]
  apply (KeyStorage.open_triple hnull env).bind
  rintro _ _ ⟨r, rfl, rfl, hassigned, hready⟩
  unfold Env.ready
  cases hkey : env.keyReady with
  | false =>
    refine Triple.pure ⟨by simp [owned, KeyStorage.owned], rfl, ⟨some r⟩, rfl, fun r' hr' => ?_⟩
    cases hr'
    exact hready.mpr hkey
  | true =>
    have hdb : r.db ≠ .neverAssigned := fun hnever => Bool.false_ne_true ((hready.mp hnever).symm.trans hkey)
    rw [hkey, Bool.true_and] at hassigned
    simp only [Bool.true_and]
    cases hkeyDb : env.keyDb with
    | false =>
      refine Triple.pure ⟨rfl, rfl, fun k hk => ?_, fun d hd => absurd hd.symm (Option.some_ne_none d)⟩
      cases hk
      exact ⟨r, rfl, hdb⟩
    | true =>
      obtain ⟨db, hassigned⟩ := hassigned.mp hkeyDb
      have hdroppable : ∀ sh : ShardRocksdb, ShardRocksdb.AllOpen sh.dbs → Storage.Droppable
          { keyCache := some [], keyStorage := some ⟨some r⟩, dataStorage := some ⟨some sh⟩ } :=
        fun sh hopen => (usable_opened hassigned hopen fun hkeys => absurd rfl hkeys : Usable _ []).toDroppable
      rw [drop_none_bind]
      apply (DataStorage.open_triple env).bind_nil
      rintro _ _ ⟨sh, rfl, rfl, hopen, hall⟩
      simp only [Bool.true_and]
      cases hdata : env.dataReady with
      | false => exact Triple.pure ⟨rfl, rfl, hdroppable sh hopen⟩
      | true =>
        apply (KeyStorage.load_triple rfl hassigned env).bind_nil
        rintro _ _ ⟨rfl, rfl⟩
        simp only [Bool.true_and]
        cases env.keyIterator with
        | false => exact Triple.pure ⟨rfl, rfl, hdroppable sh hopen⟩
        | true =>
          refine Triple.pure ⟨rfl, rfl, ⟨⟨?_, ?_⟩, rfl⟩⟩
          · exact ⟨⟨some r⟩, r, db, rfl, rfl, hassigned⟩
          · exact ⟨⟨some sh⟩, sh, rfl, rfl, hopen, hall hdata⟩

lemma Running.close_triple (h : s.Running keys) (ok : Outcomes) :
    Triple s.owned (s.close ok) fun p o => o = p.2.owned ∧
      if allFrom ok 0 (writes keys) then p.2.Closed else p.2.Running (released keys) := by
  have hreleased := h.withKeys (released keys)
  obtain ⟨k, r, db, hk, hr, hdb⟩ := h.key
  obtain ⟨d, sh, hd, hsh, hopen, -⟩ := h.data
  have hassigned : r.db ≠ .neverAssigned := by simp [hdb]
  unfold close
  rw [h.cache, deref_bind]
  apply (closeLoop_triple (fun _ => hreleased.toWritable) ok 0).bind_nil
  rintro _ _ ⟨rfl, rfl⟩
  cases allFrom ok 0 (writes keys) with
  | false => exact Triple.pure ⟨rfl, hreleased⟩
  | true =>
    change Triple (s.dataStorage.elim [] DataStorage.owned ++ s.keyStorage.elim [] KeyStorage.owned)
      (deref s.keyStorage >>= _) _
    rw [hk, deref_bind]
    apply ((KeyStorage.close_triple hr hassigned).frame_left _).bind
    rintro _ _ ⟨_, rfl, rfl, rfl⟩
    have hclosed : r.db ≠ .absent := by simp [hdb]
    rw [decide_eq_true hclosed]
    change Triple (s.dataStorage.elim [] DataStorage.owned ++ []) (deref s.dataStorage >>= _) _
    rw [hd, deref_bind, List.append_nil]
    apply (DataStorage.close_triple hsh hopen).bind
    rintro ⟨res, _⟩ _ ⟨rfl, rfl⟩
    exact Triple.pure ⟨rfl, rfl, rfl, released keys, rfl⟩

end Storage

/-! ### Requests -/

namespace Request

/-- Whether a database is used. -/
def needsDb : Request → Bool
  | .select => false
  | .add isLast _ points => isLast || points != 0
  | .merge _ _ => true
  | .get id => id.isSome
  | .del id => id.isSome
  | .compact => true

/-- The keys in the cache after the call. -/
def keysAfter (keys keys' : List (KeyId × ℕ)) : Request → List (KeyId × ℕ)
  | .add _ _ _ => keys'
  | .merge _ _ => keys'
  | .del _ => keys'
  | _ => keys

end Request

namespace Storage

variable {s : Storage} {keys : List (KeyId × ℕ)}

lemma useCache_bind {α : Type} (h : s.keyCache = some keys) (keys' : List (KeyId × ℕ)) (f : Storage → Owning α) :
    (s.useCache keys' >>= f) = f { s with keyCache := some keys' } := by
  unfold useCache
  rw [h]
  rfl

lemma setKeyAndData_triple (h : s.Writable) (ok : Outcomes) (id : KeyId) (points : ℕ) :
    Triple [] (setKeyAndData ok s id points) fun _ o => o = [] := by
  obtain ⟨k, r, db, hk, hr, hdb⟩ := h.key
  unfold setKeyAndData
  rw [hk, deref_bind]
  apply (KeyStorage.set_triple hr hdb (ok 0)).bind
  rintro _ _ ⟨rfl, rfl⟩
  cases ok 0 with
  | false => exact Triple.pure rfl
  | true => exact Triple.imp (setAll_triple h ok id points 1) fun _ _ hres => hres.1

lemma compactLoop_triple {dbs : List (Option DataRocksdb)} (hopen : ShardRocksdb.AllOpen dbs) (hnone : none ∉ dbs)
    (ok : Outcomes) (i : ℕ) : Triple [] (ShardRocksdb.compactLoop ok dbs i) fun _ o => o = [] := by
  induction dbs generalizing i with
  | nil => exact Triple.pure rfl
  | cons p rest ih =>
    cases p with
    | none => exact absurd List.mem_cons_self hnone
    | some r =>
      obtain ⟨d, hd⟩ := hopen r List.mem_cons_self
      unfold ShardRocksdb.compactLoop
      rw [deref_bind, hd, use_bind]
      cases ok i with
      | false => exact Triple.pure rfl
      | true =>
        exact ih (fun r hr => hopen r (List.mem_cons_of_mem _ hr)) (fun hr => hnone (List.mem_cons_of_mem _ hr)) (i + 1)

/-- A request to an open storage goes through. -/
lemma Running.call_triple (h : s.Running keys) (ok : Outcomes) (keys' : List (KeyId × ℕ)) (r : Request) :
    Triple s.owned (s.call ok keys' r) fun p o => o = p.2.owned ∧ p.2.Running (r.keysAfter keys keys') := by
  have hkeys := h.withKeys keys'
  obtain ⟨k, kr, db, hk, hr, hdb⟩ := h.key
  obtain ⟨d, sh, hd, hsh, hopen, hall⟩ := h.data
  have hset : ∀ (b : Bool) (id : KeyId), Triple [] (d.set b id) fun _ o => o = [] := by
    intro b id
    unfold DataStorage.set
    rw [deref_eq_bind hsh]
    exact Triple.imp (ShardRocksdb.set_triple hopen hall b id) fun _ _ hres => hres.1
  unfold call
  cases r with
  | select =>
    dsimp only
    rw [deref_eq_bind h.cache]
    exact Triple.pure ⟨rfl, h⟩
  | add isLast id points =>
    dsimp only
    rw [useCache_bind h.cache]
    have hwrites : Triple [] (if isLast then setKeyAndData ok { s with keyCache := some keys' } id points
        else setAll ok { s with keyCache := some keys' } id points 0) fun _ o => o = [] := by
      cases isLast with
      | true => exact setKeyAndData_triple hkeys.toWritable ok id points
      | false => exact Triple.imp (setAll_triple hkeys.toWritable ok id points 0) fun _ _ hres => hres.1
    apply hwrites.bind_nil
    rintro _ _ rfl
    exact Triple.pure ⟨rfl, hkeys⟩
  | merge id points =>
    dsimp only
    rw [useCache_bind h.cache]
    apply (setKeyAndData_triple hkeys.toWritable ok id points).bind_nil
    rintro _ _ rfl
    exact Triple.pure ⟨rfl, hkeys⟩
  | get id =>
    dsimp only
    rw [deref_eq_bind h.cache]
    cases id with
    | none => exact Triple.pure ⟨rfl, h⟩
    | some id =>
      dsimp only
      rw [deref_eq_bind hd]
      apply (hset (ok 0) id).bind_nil
      rintro _ _ rfl
      exact Triple.pure ⟨rfl, h⟩
  | del id =>
    dsimp only
    rw [useCache_bind h.cache]
    cases id with
    | none => exact Triple.pure ⟨rfl, hkeys⟩
    | some id =>
      dsimp only
      rw [deref_eq_bind hk]
      apply (KeyStorage.set_triple hr hdb (ok 0)).bind_nil
      rintro _ _ ⟨rfl, rfl⟩
      cases ok 0 with
      | false => exact Triple.pure ⟨rfl, hkeys⟩
      | true =>
        change Triple s.owned (deref s.dataStorage >>= _) _
        rw [deref_eq_bind hd]
        apply (hset (ok 1) id).bind_nil
        rintro _ _ rfl
        exact Triple.pure ⟨rfl, hkeys⟩
  | compact =>
    dsimp only
    rw [deref_eq_bind hk]
    apply (KeyStorage.set_triple hr hdb (ok 0)).bind_nil
    rintro _ _ ⟨rfl, rfl⟩
    cases ok 0 with
    | false => exact Triple.pure ⟨rfl, h⟩
    | true =>
      change Triple s.owned (deref s.dataStorage >>= _) _
      rw [deref_eq_bind hd]
      have hcompact : Triple [] (d.compact ok) fun _ o => o = [] := by
        unfold DataStorage.compact
        rw [deref_eq_bind hsh]
        exact compactLoop_triple hopen hall.2 ok 1
      apply hcompact.bind_nil
      rintro _ _ rfl
      exact Triple.pure ⟨rfl, h⟩

/-- A closed storage answers from its cache only. -/
lemma Closed.call_triple (h : s.Closed) (ok : Outcomes) (keys' : List (KeyId × ℕ)) {r : Request}
    (hr : r.needsDb = false) : Triple s.owned (s.call ok keys' r) fun p o => o = p.2.owned ∧ p.2.Closed := by
  obtain ⟨keys, hcache⟩ := h.cache
  have hkeys : Closed { s with keyCache := some keys' } := ⟨h.key, h.data, keys', rfl⟩
  unfold call
  cases r with
  | select =>
    dsimp only
    rw [deref_eq_bind hcache]
    exact Triple.pure ⟨rfl, h⟩
  | add isLast id points =>
    have hno : isLast = false ∧ points = 0 := by
      simpa [Request.needsDb] using hr
    obtain ⟨rfl, rfl⟩ := hno
    dsimp only
    rw [useCache_bind hcache]
    exact Triple.pure ⟨rfl, hkeys⟩
  | get id =>
    obtain rfl : id = none := by simpa [Request.needsDb] using hr
    dsimp only
    rw [deref_eq_bind hcache]
    exact Triple.pure ⟨rfl, h⟩
  | del id =>
    obtain rfl : id = none := by simpa [Request.needsDb] using hr
    dsimp only
    rw [useCache_bind hcache]
    exact Triple.pure ⟨rfl, hkeys⟩
  | merge id points => cases hr
  | compact => cases hr

lemma Closed.call_faults (h : s.Closed) (ok : Outcomes) (keys' : List (KeyId × ℕ)) {r : Request}
    (hr : r.needsDb = true) : Faults (s.call ok keys' r) := by
  obtain ⟨keys, hcache⟩ := h.cache
  have hdead : KeyStorage.Dead ⟨none⟩ := fun _ hr => nomatch hr
  have hset : ∀ id points, Faults (setKeyAndData ok { s with keyCache := some keys' } id points) := by
    intro id points
    unfold setKeyAndData
    rw [deref_eq_bind h.key]
    exact (hdead.set_faults (ok 0)).bind _
  unfold call
  cases r with
  | select => cases hr
  | add isLast id points =>
    dsimp only
    rw [useCache_bind hcache]
    apply Faults.bind
    cases isLast with
    | true => exact hset id points
    | false =>
      cases points with
      | zero => cases hr
      | succ n =>
        change Faults (setAll ok { s with keyCache := some keys' } id (n + 1) 0)
        unfold setAll
        rw [deref_eq_bind h.data]
        exact (faults_fault.bind _).bind _
  | merge id points =>
    dsimp only
    rw [useCache_bind hcache]
    exact (hset id points).bind _
  | get id =>
    cases id with
    | none => cases hr
    | some id =>
      dsimp only
      rw [deref_eq_bind hcache, deref_eq_bind h.data]
      exact (faults_fault.bind _).bind _
  | del id =>
    cases id with
    | none => cases hr
    | some id =>
      dsimp only
      rw [useCache_bind hcache, deref_eq_bind h.key]
      exact (hdead.set_faults (ok 0)).bind _
  | compact =>
    dsimp only
    rw [deref_eq_bind h.key]
    exact (hdead.set_faults (ok 0)).bind _

end Storage

/-! ### The domain -/

def Directories.made (dirs : Directories) : Bool := !dirs.hasGlobal || dirs.key && dirs.data

/-- Where the life of a domain stands, told from its events alone, and whether the timer is on:
there is no storage; it is open, with these keys in its cache; or a `stop` has closed it. -/
inductive DomainStage
  | idle (timer : Bool)
  | running (timer : Bool) (keys : List (KeyId × ℕ))
  | closed (timer : Bool)

namespace DomainStage

def timer : DomainStage → Bool
  | .idle t => t
  | .running t _ => t
  | .closed t => t

def step : DomainStage → DomainEvent → DomainStage
  | st, .start dirs env gcInterval =>
    if dirs.made then if env.ready then .running (gcInterval ≠ 0) env.keys else .idle st.timer else st
  | .running t keys, .stop ok =>
    if allFrom ok 0 (Storage.writes keys) then .closed t else .running t (Storage.released keys)
  | .running t keys, .request _ keys' r => .running t (r.keysAfter keys keys')
  | .running t keys, .timer keys' => .running t (if t then keys' else keys)
  | _, .destroy => .idle false
  | st, _ => st

/-- No storage is used before `start_` has opened one, or after it has failed to; a closed storage
answers from its cache only, and is not replaced or destroyed; and an `open` that fails comes as
far as the key database. -/
def Allows : DomainStage → DomainEvent → Prop
  | .closed _, .start dirs _ _ => dirs.made = false
  | _, .start dirs env _ => dirs.made = true → env.keyReady = true
  | .running _ _, .stop _ => True
  | _, .stop _ => False
  | .running _ _, .request _ _ _ => True
  | .closed _, .request _ _ r => r.needsDb = false
  | .idle _, .request _ _ _ => False
  | .idle t, .timer _ => t = false
  | _, .timer _ => True
  | .closed _, .compaction _ => False
  | _, .compaction _ => True
  | .closed _, .destroy => False
  | _, .destroy => True

/-- What a stage says of the domain. -/
def Describes (d : Domain) : DomainStage → Prop
  | .idle t => d.gcTimer = t ∧ d.storage = none
  | .running t keys => d.gcTimer = t ∧ ∃ s, d.storage = some s ∧ s.Running keys
  | .closed t => d.gcTimer = t ∧ ∃ s, d.storage = some s ∧ s.Closed

end DomainStage

namespace Domain

def owned (d : Domain) : List ℕ := d.storage.elim [] Storage.owned

variable {failedOpen : DbPtr → DbPtr} {d : Domain} {st : DomainStage} {e : DomainEvent}

lemma start_eq (dirs : Directories) (env : Env) (gcInterval : ℤ) :
    d.start_ failedOpen dirs env gcInterval =
      if dirs.made then do
        drop Storage.destroy d.storage
        let (res, s) ← Storage.open_ failedOpen env {}
        if !res then do
          s.destroy
          pure { d with storage := none }
        else pure { storage := some s, gcTimer := gcInterval ≠ 0 }
      else pure d := by
  unfold start_ Directories.made
  cases dirs.hasGlobal <;> cases dirs.key <;> cases dirs.data <;> rfl

/-- A new storage, once the old one is gone. -/
lemma start_triple (hnull : ∀ p, failedOpen p = .absent) {env : Env} (henv : env.keyReady = true) (gcInterval : ℤ)
    (hdrop : Consumes d.owned (drop Storage.destroy d.storage)) :
    Triple d.owned (do
        drop Storage.destroy d.storage
        let (res, s) ← Storage.open_ failedOpen env {}
        if !res then do
          s.destroy
          pure { d with storage := none }
        else pure { storage := some s, gcTimer := gcInterval ≠ 0 })
      fun d' o => o = d'.owned ∧
        (if env.ready then DomainStage.running (gcInterval ≠ 0) env.keys else .idle d.gcTimer).Describes d' := by
  apply hdrop.bind
  rintro _ _ rfl
  apply (Storage.new_open_triple hnull env).bind
  rintro ⟨_, s⟩ _ ⟨rfl, rfl, hs⟩
  dsimp only at hs ⊢
  cases hready : env.ready with
  | true =>
    rw [hready] at hs
    exact Triple.pure ⟨rfl, rfl, s, rfl, hs⟩
  | false =>
    rw [hready, henv] at hs
    apply (Storage.Droppable.destroy_consumes hs).bind
    rintro _ _ rfl
    exact Triple.pure ⟨rfl, rfl, rfl⟩

lemma drop_running {s : Storage} {keys : List (KeyId × ℕ)} (hs : d.storage = some s) (h : s.Running keys) :
    Consumes d.owned (drop Storage.destroy d.storage) := by
  unfold owned
  rw [hs]
  exact h.droppable.destroy_consumes

lemma owned_eq {s : Storage} (hs : d.storage = some s) : d.owned = s.owned := by
  unfold owned
  rw [hs]
  rfl

/-- A start that is made drops the storage of the domain first. -/
lemma step_triple_of_start (hnull : ∀ p, failedOpen p = .absent) (h : st.Describes d) {dirs : Directories} {env : Env}
    {gcInterval : ℤ} (hdrop : dirs.made = true → Consumes d.owned (drop Storage.destroy d.storage))
    (henv : dirs.made = true → env.keyReady = true) :
    Triple d.owned (d.step failedOpen (.start dirs env gcInterval)) fun d' o =>
      o = d'.owned ∧ (st.step (.start dirs env gcInterval)).Describes d' := by
  have htimer : st.timer = d.gcTimer := by
    cases st with
    | idle t => exact h.1.symm
    | running t keys => exact h.1.symm
    | closed t => exact h.1.symm
  change Triple d.owned (d.start_ failedOpen dirs env gcInterval) _
  rw [start_eq]
  cases hmade : dirs.made with
  | false =>
    refine Triple.pure ⟨rfl, ?_⟩
    rw [DomainStage.step, hmade]
    exact h
  | true =>
    simp only [DomainStage.step, hmade, if_true, htimer]
    exact start_triple hnull (henv hmade) gcInterval (hdrop hmade)

lemma step_triple_of_idle (hnull : ∀ p, failedOpen p = .absent) {t : Bool} (h : (DomainStage.idle t).Describes d)
    (he : (DomainStage.idle t).Allows e) : Triple d.owned (d.step failedOpen e) fun d' o =>
      o = d'.owned ∧ ((DomainStage.idle t).step e).Describes d' := by
  have hdescribes := h
  obtain ⟨rfl, hnone⟩ := h
  have hdrop : Consumes d.owned (drop Storage.destroy d.storage) := by
    unfold owned
    rw [hnone]
    exact Triple.pure rfl
  cases e with
  | start dirs env gcInterval => exact step_triple_of_start hnull hdescribes (fun _ => hdrop) he
  | stop ok => exact he.elim
  | request ok keys r => exact he.elim
  | timer keys =>
    have ht : d.gcTimer = false := he
    change Triple d.owned (d.timer keys) _
    unfold timer
    rw [ht]
    exact Triple.pure ⟨rfl, ht, hnone⟩
  | compaction ok =>
    change Triple d.owned (d.compaction ok) _
    unfold compaction
    rw [hnone]
    exact Triple.pure ⟨rfl, rfl, hnone⟩
  | destroy =>
    apply hdrop.bind
    rintro _ _ rfl
    exact Triple.pure ⟨rfl, rfl, rfl⟩

lemma step_triple_of_running (hnull : ∀ p, failedOpen p = .absent) {t : Bool} {keys : List (KeyId × ℕ)}
    (h : (DomainStage.running t keys).Describes d) (he : (DomainStage.running t keys).Allows e) :
    Triple d.owned (d.step failedOpen e) fun d' o =>
      o = d'.owned ∧ ((DomainStage.running t keys).step e).Describes d' := by
  have hdescribes := h
  obtain ⟨rfl, s, hs, hrunning⟩ := h
  have hdrop := drop_running hs hrunning
  cases e with
  | start dirs env gcInterval => exact step_triple_of_start hnull hdescribes (fun _ => hdrop) he
  | stop ok =>
    change Triple d.owned (d.stop ok) _
    unfold stop
    rw [owned_eq hs, deref_eq_bind hs]
    apply (hrunning.close_triple ok).bind
    rintro ⟨res, s'⟩ _ ⟨rfl, hs'⟩
    refine Triple.pure ⟨rfl, ?_⟩
    rw [DomainStage.step]
    cases hwritten : allFrom ok 0 (Storage.writes keys) with
    | false =>
      rw [hwritten] at hs'
      exact ⟨rfl, s', rfl, hs'⟩
    | true =>
      rw [hwritten] at hs'
      exact ⟨rfl, s', rfl, hs'⟩
  | request ok keys' r =>
    change Triple d.owned (d.request ok keys' r) _
    unfold request
    rw [owned_eq hs, deref_eq_bind hs]
    apply (hrunning.call_triple ok keys' r).bind
    rintro ⟨res, s'⟩ _ ⟨rfl, hs'⟩
    exact Triple.pure ⟨rfl, rfl, s', rfl, hs'⟩
  | timer keys' =>
    change Triple d.owned (d.timer keys') _
    unfold timer
    rw [DomainStage.step]
    cases ht : d.gcTimer with
    | false => exact Triple.pure ⟨rfl, ht, s, hs, hrunning⟩
    | true =>
      rw [owned_eq hs]
      change Triple s.owned (deref d.storage >>= _) _
      rw [deref_eq_bind hs, Storage.gc, Storage.useCache_bind hrunning.cache]
      exact Triple.pure ⟨rfl, rfl, _, rfl, hrunning.withKeys keys'⟩
  | compaction ok =>
    change Triple d.owned (d.compaction ok) _
    unfold compaction
    rw [owned_eq hs, hs]
    apply (hrunning.call_triple ok [] .compact).bind
    rintro ⟨res, s'⟩ _ ⟨rfl, hs'⟩
    exact Triple.pure ⟨rfl, rfl, s', rfl, hs'⟩
  | destroy =>
    apply hdrop.bind
    rintro _ _ rfl
    exact Triple.pure ⟨rfl, rfl, rfl⟩

lemma step_triple_of_closed (hnull : ∀ p, failedOpen p = .absent) {t : Bool} (h : (DomainStage.closed t).Describes d)
    (he : (DomainStage.closed t).Allows e) : Triple d.owned (d.step failedOpen e) fun d' o =>
      o = d'.owned ∧ ((DomainStage.closed t).step e).Describes d' := by
  have hdescribes := h
  obtain ⟨rfl, s, hs, hclosed⟩ := h
  cases e with
  | start dirs env gcInterval =>
    have hmade : ¬dirs.made = true := ne_of_eq_of_ne he Bool.false_ne_true
    exact step_triple_of_start hnull hdescribes (fun h => absurd h hmade) fun h => absurd h hmade
  | stop ok => exact he.elim
  | request ok keys' r =>
    change Triple d.owned (d.request ok keys' r) _
    unfold request
    rw [owned_eq hs, deref_eq_bind hs]
    apply (hclosed.call_triple ok keys' he).bind
    rintro ⟨res, s'⟩ _ ⟨rfl, hs'⟩
    exact Triple.pure ⟨rfl, rfl, s', rfl, hs'⟩
  | timer keys' =>
    obtain ⟨keys, hcache⟩ := hclosed.cache
    change Triple d.owned (d.timer keys') _
    unfold timer
    cases ht : d.gcTimer with
    | false => exact Triple.pure ⟨rfl, ht, s, hs, hclosed⟩
    | true =>
      rw [owned_eq hs]
      change Triple s.owned (deref d.storage >>= _) _
      rw [deref_eq_bind hs, Storage.gc, Storage.useCache_bind hcache]
      exact Triple.pure ⟨rfl, rfl, _, rfl, hclosed.key, hclosed.data, keys', rfl⟩
  | compaction ok => exact he.elim
  | destroy => exact he.elim

/-- An allowed step does not go wrong, and keeps account of the databases. -/
lemma step_triple (hnull : ∀ p, failedOpen p = .absent) (h : st.Describes d) (he : st.Allows e) :
    Triple d.owned (d.step failedOpen e) fun d' o => o = d'.owned ∧ (st.step e).Describes d' := by
  cases st with
  | idle t => exact step_triple_of_idle hnull h he
  | running t keys => exact step_triple_of_running hnull h he
  | closed t => exact step_triple_of_closed hnull h he

/-- The storage whose `open` failed before the key database cannot be dropped. -/
lemma start_none (hnull : ∀ p, failedOpen p = .absent) {dirs : Directories} {env : Env} (hmade : dirs.made = true)
    (henv : env.keyReady = false) (gcInterval : ℤ) (hdrop : Consumes d.owned (drop Storage.destroy d.storage))
    {handles : Handles} (hacc : handles.Accounted d.owned) :
    d.start_ failedOpen dirs env gcInterval handles = none := by
  have hready : env.ready = false := by
    unfold Env.ready
    rw [henv]
    rfl
  obtain ⟨_, _, handles', hrun, rfl, hacc'⟩ := hdrop handles [] (by rwa [List.append_nil])
  rw [start_eq, hmade, if_pos rfl, bind_apply, hrun]
  refine Triple.bind_faults (Storage.new_open_triple hnull env) (fun p o hp => ?_) hacc'
  obtain ⟨res, s⟩ := p
  obtain ⟨-, hres, hs⟩ := hp
  rw [hready] at hres hs
  rw [henv] at hs
  dsimp only at hres hs ⊢
  rw [hres]
  exact (Storage.Stuck.destroy_faults hs failedOpen).bind _

/-- A step that is not allowed goes wrong. -/
lemma step_none (hnull : ∀ p, failedOpen p = .absent) (h : st.Describes d) (he : ¬st.Allows e) {handles : Handles}
    (hacc : handles.Accounted d.owned) : d.step failedOpen e handles = none := by
  have hnotReady : ∀ {dirs : Directories} {env : Env}, ¬(dirs.made = true → env.keyReady = true) →
      dirs.made = true ∧ env.keyReady = false := by
    intro dirs env hnot
    rw [Classical.not_imp, Bool.not_eq_true] at hnot
    exact hnot
  cases st with
  | idle t =>
    obtain ⟨rfl, hnone⟩ := h
    have hderef : ∀ {α : Type} (f : Storage → Owning α), Faults (deref d.storage >>= f) := by
      intro α f
      rw [hnone]
      exact faults_fault.bind f
    cases e with
    | start dirs env gcInterval =>
      obtain ⟨hmade, henv⟩ := hnotReady he
      have hdrop : Consumes d.owned (drop Storage.destroy d.storage) := by
        unfold owned
        rw [hnone]
        exact Triple.pure rfl
      exact start_none hnull hmade henv gcInterval hdrop hacc
    | stop ok => exact hderef _ handles
    | request ok keys r => exact hderef _ handles
    | timer keys =>
      have ht : d.gcTimer = true := Bool.not_eq_false _ ▸ he
      change d.timer keys handles = none
      unfold timer
      rw [ht]
      exact hderef _ handles
    | compaction ok => exact absurd trivial he
    | destroy => exact absurd trivial he
  | running t keys =>
    obtain ⟨rfl, s, hs, hrunning⟩ := h
    cases e with
    | start dirs env gcInterval =>
      obtain ⟨hmade, henv⟩ := hnotReady he
      exact start_none hnull hmade henv gcInterval (drop_running hs hrunning) hacc
    | stop ok => exact absurd trivial he
    | request ok keys' r => exact absurd trivial he
    | timer keys' => exact absurd trivial he
    | compaction ok => exact absurd trivial he
    | destroy => exact absurd trivial he
  | closed t =>
    obtain ⟨rfl, s, hs, hclosed⟩ := h
    have hdrop : Faults (drop Storage.destroy d.storage) := by
      rw [hs]
      exact hclosed.stuck.destroy_faults failedOpen
    cases e with
    | start dirs env gcInterval =>
      have hmade : dirs.made = true := Bool.not_eq_false _ ▸ he
      change d.start_ failedOpen dirs env gcInterval handles = none
      rw [start_eq, hmade, if_pos rfl]
      exact hdrop.bind _ handles
    | stop ok =>
      have hclose : Faults (s.close ok) := Faults.of_bind_pure (hclosed.stuck.faults failedOpen (.close ok))
      change d.stop ok handles = none
      unfold stop
      rw [deref_eq_bind hs]
      exact hclose.bind _ handles
    | request ok keys' r =>
      have hneeds : r.needsDb = true := Bool.not_eq_false _ ▸ he
      change d.request ok keys' r handles = none
      unfold request
      rw [deref_eq_bind hs]
      exact (hclosed.call_faults ok keys' hneeds).bind _ handles
    | timer keys' => exact absurd trivial he
    | compaction ok =>
      change d.compaction ok handles = none
      unfold compaction
      rw [hs]
      exact (hclosed.call_faults ok [] (r := .compact) rfl).bind _ handles
    | destroy => exact hdrop.bind _ handles

/-- No step goes wrong, and every database that was opened is either one that the domain's storage
still has or was released, once. -/
def Sound (result : Option (Domain × Handles)) : Prop :=
  ∃ d h, result = some (d, h) ∧ h.Accounted d.owned

lemma run_sound_iff (hnull : ∀ p, failedOpen p = .absent) (events : List DomainEvent) {handles : Handles}
    (hd : st.Describes d) (hacc : handles.Accounted d.owned) :
    Sound (events.foldlM (step failedOpen) d handles) ↔ RunMeets DomainStage.step DomainStage.Allows st events := by
  induction events generalizing d st handles with
  | nil => exact iff_of_true ⟨d, handles, rfl, hacc⟩ trivial
  | cons e rest ih =>
    rw [List.foldlM_cons, bind_apply, RunMeets]
    by_cases he : st.Allows e
    · obtain ⟨d', _, handles', hrun, ⟨rfl, hd'⟩, hacc'⟩ :=
        step_triple hnull hd he handles [] (by rwa [List.append_nil])
      rw [hrun, and_iff_right he]
      rw [List.append_nil] at hacc'
      exact ih hd' hacc'
    · rw [step_none hnull hd he hacc]
      refine iff_of_false ?_ fun hmeets => he hmeets.1
      rintro ⟨_, _, hnone, _⟩
      cases hnone

end Domain

/-- If a failing `DBWithTTL::Open` stores null, a domain uses no missing storage or database, and
releases every database that was opened once, exactly as long as: nothing is asked of it and no
timer of an earlier storage fires while no storage is open; its `open` never fails before the key
database; and once a `stop` has made all its writes, only requests that need no database follow. -/
theorem domain_life_sound_iff {failedOpen : DbPtr → DbPtr} (hnull : ∀ p, failedOpen p = .absent)
    (events : List DomainEvent) :
    Domain.Sound (Domain.run failedOpen events) ↔
      RunMeets DomainStage.step DomainStage.Allows (.idle false) events :=
  Domain.run_sound_iff hnull events ⟨rfl, rfl⟩ (List.Perm.refl [])

/-- A domain that starts, is written and read, fails to start again, and starts once more. -/
theorem domain_life_sound_of_restart :
    Domain.Sound (Domain.run (fun _ => .absent)
      [.start {} { hashSize := 2 } 0, .request allOk [(7, 1)] (.add true 7 1), .request allOk [] (.get (some 7)),
        .start {} { keyDb := false } 0, .timer [], .start {} { hashSize := 2, keys := [(7, 0)] } 60, .timer [(7, 0)],
        .stop fun _ => false, .request allOk [] (.del (some 7)), .destroy]) :=
  (domain_life_sound_iff (fun _ => rfl) _).mpr
    ⟨fun _ => rfl, trivial, trivial, fun _ => rfl, rfl, fun _ => rfl, trivial, trivial, trivial, trivial, trivial⟩

end WfcBtp.Lifecycle
