import WfcBtp.Model.Lifecycle

/-!
# Opening, closing and destroying the parts of the storage

A triple for each call into key storage or data storage: from which state it goes through,
and which databases are owned after it. Where the key storage is dead every call goes wrong.
-/

namespace WfcBtp.Lifecycle
open Library Library.Owning

/-- The `n` calls from number `i` on all succeed. -/
def allFrom (ok : ℕ → Bool) (i n : ℕ) : Bool := (List.range n).all fun j => ok (i + j)

lemma allFrom_one (ok : ℕ → Bool) (i : ℕ) : allFrom ok i 1 = ok i := by simp [allFrom]

lemma allFrom_add (ok : ℕ → Bool) (i m n : ℕ) :
    allFrom ok i (m + n) = (allFrom ok i m && allFrom ok (i + m) n) := by
  unfold allFrom
  rw [List.range_add, List.all_append, List.all_map]
  congr 2
  funext j
  rw [Function.comp_apply, Nat.add_assoc]

/-- `open` gets as far as the key database. -/
def Env.keyReady (env : Env) : Bool := env.keyDirectory && env.keyOptions

/-- The data storage opens. -/
def Env.dataReady (env : Env) : Bool :=
  env.dataDirectory && env.dataOptions && allFrom env.shardDb 0 (if env.hashSize = 0 then 1 else env.hashSize)

/-- `open` gets to its end. -/
def Env.ready (env : Env) : Bool := env.keyReady && env.keyDb && env.dataReady && env.keyIterator

/-! ### What is owned -/

def DbPtr.owned : DbPtr → List ℕ
  | .assigned db => [db]
  | _ => []

def KeyStorage.owned (k : KeyStorage) : List ℕ := k.rocksdb.elim [] fun r => r.db.owned

def shardsOwned (dbs : List (Option DataRocksdb)) : List ℕ := dbs.flatMap fun p => p.elim [] fun r => r.db.owned

def DataStorage.owned (d : DataStorage) : List ℕ := d.db.elim [] fun s => shardsOwned s.dbs

def Storage.owned (s : Storage) : List ℕ :=
  s.dataStorage.elim [] DataStorage.owned ++ s.keyStorage.elim [] KeyStorage.owned

/-- It goes through, and gives back all that it owns. -/
def Consumes (owned : List ℕ) (m : Owning Unit) : Prop := Triple owned m fun _ o => o = []

lemma DbPtr.closeDb_triple {db : DbPtr} (h : db ≠ .neverAssigned) :
    Triple db.owned db.closeDb fun p o => o = [] ∧ p = (decide (db ≠ .absent), .absent) := by
  cases db with
  | neverAssigned => exact absurd rfl h
  | absent => exact Triple.pure ⟨rfl, rfl⟩
  | assigned d =>
    apply (Triple.release d).bind
    rintro _ _ rfl
    exact Triple.pure ⟨rfl, rfl⟩

lemma deref_bind {α β : Type} (a : α) (f : α → Owning β) : (deref (some a) >>= f) = f a := rfl

lemma use_bind {β : Type} (db : ℕ) (f : Unit → Owning β) : ((DbPtr.assigned db).use >>= f) = f () := rfl

lemma drop_none_bind {α β : Type} (destroy : α → Owning Unit) (f : Unit → Owning β) :
    (drop destroy none >>= f) = f () := rfl

lemma drop_consumes {α : Type} {destroy : α → Owning Unit} {owned : α → List ℕ} {p : Option α}
    (h : ∀ a, p = some a → Consumes (owned a) (destroy a)) : Consumes (p.elim [] owned) (drop destroy p) := by
  cases p with
  | none => exact Triple.pure rfl
  | some a => exact h a rfl

/-! ### Key storage -/

namespace KeyRocksdb

lemma close_triple {r : KeyRocksdb} (h : r.db ≠ .neverAssigned) :
    Triple r.db.owned r.close fun p o => o = [] ∧ p = (decide (r.db ≠ .absent), ⟨.absent⟩) := by
  apply (DbPtr.closeDb_triple h).bind
  rintro _ _ ⟨rfl, rfl⟩
  exact Triple.pure ⟨rfl, rfl⟩

lemma destroy_consumes {r : KeyRocksdb} (h : r.db ≠ .neverAssigned) : Consumes r.db.owned r.destroy := by
  apply (close_triple h).bind
  rintro _ _ ⟨rfl, rfl⟩
  exact Triple.pure rfl

/-- A new object is opened: its pointer stays unassigned if `open` fails before the
database. -/
lemma open_triple {failedOpen : DbPtr → DbPtr} (hnull : ∀ p, failedOpen p = .absent) (env : Env) :
    Triple [] (open_ failedOpen env {}) fun p o => o = p.2.db.owned ∧
      p.1 = (env.keyReady && env.keyDb) ∧ (p.1 = true ↔ ∃ d, p.2.db = .assigned d) ∧
        (p.2.db = .neverAssigned ↔ env.keyReady = false) := by
  unfold open_ Env.keyReady
  cases env.keyDirectory with
  | false => exact Triple.pure ⟨rfl, rfl, by simp, by simp⟩
  | true =>
    cases env.keyOptions with
    | false => exact Triple.pure ⟨rfl, rfl, by simp, by simp⟩
    | true =>
      cases env.keyDb with
      | false =>
        refine Triple.pure ?_
        rw [hnull]
        exact ⟨rfl, rfl, by simp, by simp⟩
      | true =>
        apply Triple.acquire.bind
        rintro d _ rfl
        exact Triple.pure ⟨rfl, rfl, iff_of_true rfl ⟨d, rfl⟩, by simp⟩

end KeyRocksdb

namespace KeyStorage

/-- Nothing can be called, and the destructor goes wrong: `close` has reset the pointer to
`key_rocksdb`, or `open` has not come to the pointer to the database. -/
def Dead (k : KeyStorage) : Prop := ∀ r, k.rocksdb = some r → r.db = .neverAssigned

variable {k : KeyStorage} {r : KeyRocksdb}

lemma close_triple (hk : k.rocksdb = some r) (h : r.db ≠ .neverAssigned) :
    Triple k.owned k.close fun p o => o = [] ∧ p = (decide (r.db ≠ .absent), ⟨none⟩) := by
  unfold owned close
  rw [hk, deref_bind]
  apply (KeyRocksdb.close_triple h).bind
  rintro _ _ ⟨rfl, rfl⟩
  apply (KeyRocksdb.destroy_consumes (r := ⟨.absent⟩) (by simp)).bind
  rintro _ _ rfl
  exact Triple.pure ⟨rfl, rfl⟩

lemma destroy_consumes (hk : k.rocksdb = some r) (h : r.db ≠ .neverAssigned) : Consumes k.owned k.destroy := by
  apply (close_triple hk h).bind
  rintro _ _ ⟨rfl, rfl⟩
  exact Triple.pure rfl

lemma open_triple {failedOpen : DbPtr → DbPtr} (hnull : ∀ p, failedOpen p = .absent) (env : Env) :
    Triple [] (open_ failedOpen env {}) fun p o => ∃ r, p = (env.keyReady && env.keyDb, ⟨some r⟩) ∧
      o = r.db.owned ∧ (p.1 = true ↔ ∃ d, r.db = .assigned d) ∧
        (r.db = .neverAssigned ↔ env.keyReady = false) := by
  unfold open_
  rw [drop_none_bind]
  apply (KeyRocksdb.open_triple hnull env).bind
  rintro ⟨res, r⟩ _ ⟨rfl, rfl, hdb, hready⟩
  exact Triple.pure ⟨r, rfl, rfl, hdb, hready⟩

lemma set_triple {d : ℕ} (hk : k.rocksdb = some r) (h : r.db = .assigned d) (ok : Bool) :
    Triple [] (k.set ok) fun b o => o = [] ∧ b = ok := by
  unfold set
  rw [hk, deref_bind, h, use_bind]
  exact Triple.pure ⟨rfl, rfl⟩

lemma load_triple {d : ℕ} (hk : k.rocksdb = some r) (h : r.db = .assigned d) (env : Env) :
    Triple [] (k.load env) fun b o => o = [] ∧ b = env.keyIterator := by
  unfold load
  rw [hk, deref_bind, h, use_bind]
  exact Triple.pure ⟨rfl, rfl⟩

lemma Dead.deref_faults (hk : k.Dead) {α : Type} {f : KeyRocksdb → Owning α}
    (hf : ∀ r : KeyRocksdb, r.db = .neverAssigned → Faults (f r)) : Faults (deref k.rocksdb >>= f) := by
  cases hr : k.rocksdb with
  | none => exact faults_fault.bind f
  | some r => exact hf r (hk r hr)

lemma Dead.close_faults (hk : k.Dead) : Faults k.close := by
  refine hk.deref_faults fun r hr => ?_
  unfold KeyRocksdb.close
  rw [hr]
  exact faults_fault

lemma Dead.destroy_faults (hk : k.Dead) : Faults k.destroy := hk.close_faults.bind _

lemma Dead.set_faults (hk : k.Dead) (ok : Bool) : Faults (k.set ok) := by
  refine hk.deref_faults fun r hr => ?_
  rw [hr]
  exact faults_fault

end KeyStorage

/-! ### Data storage -/

lemma shardsOwned_cons (p : Option DataRocksdb) (rest : List (Option DataRocksdb)) :
    shardsOwned (p :: rest) = (p.elim [] fun r => r.db.owned) ++ shardsOwned rest := List.flatMap_cons

lemma DataRocksdb.close_triple {r : DataRocksdb} {d : ℕ} (h : r.db = .assigned d) :
    Triple r.db.owned r.close fun p o => o = [] ∧ p = (true, ⟨.absent⟩) := by
  apply (DbPtr.closeDb_triple (by simp [h])).bind
  rintro _ _ ⟨rfl, rfl⟩
  exact Triple.pure ⟨rfl, by simp [h]⟩

namespace ShardRocksdb

/-- Every shard that there is has its database. -/
def AllOpen (dbs : List (Option DataRocksdb)) : Prop := ∀ r, some r ∈ dbs → ∃ d, r.db = .assigned d

def AllClosed (dbs : List (Option DataRocksdb)) : Prop := ∀ r, some r ∈ dbs → r.db = .absent

lemma closeLoop_triple {dbs : List (Option DataRocksdb)} (h : AllOpen dbs) :
    Triple (shardsOwned dbs) (closeLoop dbs) fun p o => o = [] ∧ p.1 = true ∧ AllClosed p.2 := by
  induction dbs with
  | nil => exact Triple.pure ⟨rfl, rfl, fun _ hr => absurd hr List.not_mem_nil⟩
  | cons p rest ih =>
    have ih := ih fun r hr => h r (List.mem_cons_of_mem _ hr)
    rw [shardsOwned_cons]
    cases p with
    | none =>
      apply ih.bind
      rintro ⟨res, dbs⟩ _ ⟨rfl, rfl, hclosed⟩
      refine Triple.pure ⟨rfl, rfl, fun r hr => ?_⟩
      rcases List.mem_cons.mp hr with hr | hr
      · cases hr
      · exact hclosed r hr
    | some r =>
      obtain ⟨d, hd⟩ := h r List.mem_cons_self
      apply (DataRocksdb.close_triple hd).bind_frame
      rintro _ _ ⟨rfl, rfl⟩
      apply ih.bind
      rintro ⟨res, dbs⟩ _ ⟨rfl, rfl, hclosed⟩
      refine Triple.pure ⟨rfl, rfl, fun r hr => ?_⟩
      rcases List.mem_cons.mp hr with hr | hr
      · cases hr
        rfl
      · exact hclosed r hr

lemma clear_consumes {dbs : List (Option DataRocksdb)} (h : AllClosed dbs) : Consumes [] (clear dbs) := by
  induction dbs with
  | nil => exact Triple.pure rfl
  | cons p rest ih =>
    have ih := ih fun r hr => h r (List.mem_cons_of_mem _ hr)
    cases p with
    | none => exact ih
    | some r =>
      have hr := h r List.mem_cons_self
      cases r
      subst hr
      exact ih

lemma close_triple {s : ShardRocksdb} (h : AllOpen s.dbs) :
    Triple (shardsOwned s.dbs) s.close fun p o => o = [] ∧ p.2.dbs = [] := by
  unfold close
  cases hdbs : s.dbs with
  | nil => exact Triple.pure ⟨rfl, hdbs⟩
  | cons p rest =>
    rw [hdbs] at h
    apply (closeLoop_triple h).bind
    rintro ⟨res, dbs⟩ _ ⟨rfl, rfl, hclosed⟩
    apply (clear_consumes hclosed).bind
    rintro _ _ rfl
    exact Triple.pure ⟨rfl, rfl⟩

lemma destroy_consumes {s : ShardRocksdb} (h : AllOpen s.dbs) : Consumes (shardsOwned s.dbs) s.destroy := by
  apply (close_triple h).bind
  rintro ⟨res, s'⟩ _ ⟨rfl, hs'⟩
  change Consumes [] (clear s'.dbs)
  rw [hs']
  exact Triple.pure rfl

/-- A shard for every key. -/
def Complete (dbs : List (Option DataRocksdb)) : Prop := dbs ≠ [] ∧ none ∉ dbs

lemma openLoop_triple (env : Env) (n i : ℕ) :
    Triple [] (openLoop env n i) fun p o => o = shardsOwned p.2 ∧ AllOpen p.2 ∧ p.2.length = n ∧
      p.1 = allFrom env.shardDb i n ∧ (p.1 = true → none ∉ p.2) := by
  induction n generalizing i with
  | zero => exact Triple.pure ⟨rfl, fun _ hr => absurd hr List.not_mem_nil, rfl, rfl, fun _ => List.not_mem_nil⟩
  | succ n ih =>
    have hall : allFrom env.shardDb i (n + 1) = (env.shardDb i && allFrom env.shardDb (i + 1) n) := by
      rw [Nat.add_comm n, allFrom_add, allFrom_one]
    unfold openLoop
    cases hi : env.shardDb i with
    | false =>
      refine Triple.pure ⟨?_, ?_, List.length_replicate, ?_, fun h => absurd h Bool.false_ne_true⟩
      · simp [shardsOwned]
      · intro r hr
        exact absurd (List.eq_of_mem_replicate hr) (by simp)
      · rw [hall, hi, Bool.false_and]
    | true =>
      apply Triple.acquire.bind
      rintro d _ rfl
      apply ((ih (i + 1)).frame_left [d]).bind
      rintro ⟨res, rest⟩ _ ⟨_, rfl, rfl, hopen, hlen, hres, hnone⟩
      refine Triple.pure ⟨rfl, ?_, by simp [hlen], by rw [hall, hi, Bool.true_and, ← hres], ?_⟩
      · intro r hr
        rcases List.mem_cons.mp hr with hr | hr
        · cases hr
          exact ⟨d, rfl⟩
        · exact hopen r hr
      · intro h hmem
        exact hnone h ((List.mem_cons.mp hmem).resolve_left (by simp))

lemma open_triple (env : Env) :
    Triple [] (open_ env) fun p o => o = shardsOwned p.2.dbs ∧ AllOpen p.2.dbs ∧ p.1 = env.dataReady ∧
      (p.1 = true → Complete p.2.dbs) := by
  have hempty : AllOpen [] := fun _ hr => absurd hr List.not_mem_nil
  unfold open_ Env.dataReady
  cases env.dataDirectory with
  | false => exact Triple.pure ⟨rfl, hempty, rfl, fun h => absurd h Bool.false_ne_true⟩
  | true =>
    cases env.dataOptions with
    | false => exact Triple.pure ⟨rfl, hempty, rfl, fun h => absurd h Bool.false_ne_true⟩
    | true =>
      apply (openLoop_triple env _ 0).bind
      rintro ⟨res, dbs⟩ _ ⟨rfl, hopen, hlen, hres, hnone⟩
      refine Triple.pure ⟨rfl, hopen, hres, fun h => ⟨?_, hnone h⟩⟩
      rintro rfl
      rw [List.length_nil] at hlen
      split at hlen <;> omega

/-- Every shard can be written. -/
lemma set_triple {s : ShardRocksdb} (hopen : AllOpen s.dbs) (hall : Complete s.dbs) (ok : Bool) (id : KeyId) :
    Triple [] (s.set ok id) fun b o => o = [] ∧ b = ok := by
  have hlt : id % s.dbs.length < s.dbs.length := Nat.mod_lt _ (List.length_pos_iff.mpr hall.1)
  have hget : s.dbs[id % s.dbs.length]? = some s.dbs[id % s.dbs.length] := List.getElem?_eq_getElem hlt
  cases hp : s.dbs[id % s.dbs.length] with
  | none => exact absurd (hp ▸ List.getElem_mem hlt) hall.2
  | some r =>
    obtain ⟨d, hd⟩ := hopen r (hp ▸ List.getElem_mem hlt)
    unfold set getDb
    rw [hget, hp, Option.join_some, deref_bind, hd, use_bind]
    exact Triple.pure ⟨rfl, rfl⟩

end ShardRocksdb

namespace DataStorage

variable {d : DataStorage} {s : ShardRocksdb}

lemma destroy_consumes (hd : d.db = some s) (h : ShardRocksdb.AllOpen s.dbs) : Consumes d.owned d.destroy := by
  unfold owned destroy
  rw [hd]
  exact ShardRocksdb.destroy_consumes h

lemma close_triple (hd : d.db = some s) (h : ShardRocksdb.AllOpen s.dbs) :
    Triple d.owned d.close fun p o => o = [] ∧ p.2 = ⟨none⟩ := by
  unfold owned close
  rw [hd, deref_bind]
  apply (ShardRocksdb.close_triple h).bind
  rintro ⟨res, s'⟩ _ ⟨rfl, hs'⟩
  have hclosed : ShardRocksdb.AllOpen s'.dbs := by
    rw [hs']
    exact fun _ hr => absurd hr List.not_mem_nil
  have hdestroy := ShardRocksdb.destroy_consumes hclosed
  rw [hs'] at hdestroy
  refine Triple.bind hdestroy ?_
  rintro _ _ rfl
  exact Triple.pure ⟨rfl, rfl⟩

lemma open_triple (env : Env) :
    Triple [] (open_ env {}) fun p o => ∃ s, p = (env.dataReady, ⟨some s⟩) ∧ o = shardsOwned s.dbs ∧
      ShardRocksdb.AllOpen s.dbs ∧ (env.dataReady = true → ShardRocksdb.Complete s.dbs) := by
  unfold open_
  rw [drop_none_bind]
  apply (ShardRocksdb.open_triple env).bind
  rintro ⟨res, s⟩ _ ⟨rfl, hopen, rfl, hall⟩
  exact Triple.pure ⟨s, rfl, rfl, hopen, hall⟩

end DataStorage

end WfcBtp.Lifecycle
