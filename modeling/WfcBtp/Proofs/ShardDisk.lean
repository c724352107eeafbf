import WfcBtp.Library.Unwinding
import WfcBtp.Model.ShardDisk
import WfcBtp.Proofs.CallWrites
import WfcBtp.Proofs.Isolation

/-!
# Changing the number of shards

Under another `hash_size` a key may be in another directory. A process then finds there what
those before it have written that looked in the same directory, and nothing else.
-/

namespace WfcBtp
open Library

variable {W : Wrtstat}

/-! ### Rows on disk -/

namespace ShardDisk

/-- The points of an id in a directory, by their times. -/
def row (disk : ShardDisk) (i : ℕ) (id : KeyId) (t : ℤ) : Option AggregatedInfo :=
  (disk.content i).find? (toLex (id, t))

lemma content_update (disk : ShardDisk) (i : ℕ) (content : OrderedMap KeyTs AggregatedInfo) (j : ℕ) :
    ShardDisk.content (Function.update disk i (some content)) j = if j = i then content else disk.content j := by
  unfold ShardDisk.content
  rw [Function.update_apply]
  split_ifs <;> rfl

/-- A database that is created is empty. -/
lemma content_create (disk : ShardDisk) (i : ℕ) : (disk.create i).content = disk.content := by
  funext j
  rw [create, content_update]
  split_ifs with h
  · rw [h]
  · rfl

lemma content_openLoop (createIfMissing : Bool) (opening : ℕ → Opening) (l : List ℕ) (disk : ShardDisk) :
    (openLoop createIfMissing opening l disk).2.content = disk.content := by
  induction l generalizing disk with
  | nil => rfl
  | cons i rest ih =>
    rw [openLoop]
    split_ifs
    · rfl
    · cases opening i with
      | opened =>
        dsimp only
        rw [ih, content_create]
      | failed created =>
        cases created with
        | false => rfl
        | true => exact content_create disk i

/-- If databases are created, what is on disk does not matter for whether all open. -/
lemma openLoop_fst (opening : ℕ → Opening) (l : List ℕ) (disk disk' : ShardDisk) :
    (openLoop true opening l disk).1 = (openLoop true opening l disk').1 := by
  induction l generalizing disk disk' with
  | nil => rfl
  | cons i rest ih =>
    simp only [openLoop, Bool.not_true, Bool.false_and, Bool.false_eq_true, if_false]
    cases opening i with
    | opened => exact ih _ _
    | failed created => rfl

end ShardDisk

/-! ### What a call does to the rows -/

namespace DataRocksdb

/-- A call under one id leaves the rows of others. -/
lemma find?_set_of_ne (db : DataRocksdb) (ok : Bool) {id id' : KeyId} (h : id' ≠ id) (data : AggregatedInfo) (t : ℤ) :
    (db.set ok id data).2.content.find? (toLex (id', t)) = db.content.find? (toLex (id', t)) := by
  have hne : toLex (id', t) ≠ toLex (id, data.ts) := fun heq => h (congrArg (fun k => (ofLex k).1) heq)
  unfold set
  split_ifs
  · rw [OrderedMap.find?_set, if_neg hne]
  · rfl

lemma find?_inc_of_ne (db : DataRocksdb) (ok : Bool) {id id' : KeyId} (h : id' ≠ id) (data : AggregatedInfo) (t : ℤ) :
    (db.inc W ok id data).2.content.find? (toLex (id', t)) = db.content.find? (toLex (id', t)) := by
  have hne : toLex (id', t) ≠ toLex (id, data.ts) := fun heq => h (congrArg (fun k => (ofLex k).1) heq)
  unfold inc
  split_ifs
  · rw [OrderedMap.find?_set, if_neg hne]
  · rfl

lemma find?_del_of_ne (db : DataRocksdb) (ok : Outcomes) (i : ℕ) {id id' : KeyId} (h : id' ≠ id) (t : ℤ) :
    (db.del ok i id).2.content.find? (toLex (id', t)) = db.content.find? (toLex (id', t)) := by
  rw [del, DataStorage.find?_delLoop_erased, if_neg fun hid => h hid.1]

end DataRocksdb

namespace DataStorage

/-- Only the directory of the id changes. -/
lemma onDisk_putDb (s : DataStorage) (disk : ShardDisk) (id : KeyId) (db : DataRocksdb) :
    (s.putDb id db).onDisk disk = Function.update (s.onDisk disk) (id % s.hashSize) (some db.content) := by
  funext j
  have hlt : id % s.hashSize < s.hashSize := Nat.mod_lt _ s.hashSize_pos
  simp only [onDisk, putDb, Function.update_apply]
  by_cases hj : j = id % s.hashSize
  · subst hj
    have hshard : (⟨id % s.hashSize, hlt⟩ : Fin s.hashSize) = s.shard id := rfl
    rw [dif_pos hlt, if_pos hshard, if_pos rfl]
  · rw [if_neg hj]
    split_ifs with h heq
    · exact absurd (congrArg Fin.val heq) hj
    · rfl
    · rfl

lemma content_onDisk_getDb (s : DataStorage) (disk : ShardDisk) (id : KeyId) :
    (s.onDisk disk).content (id % s.hashSize) = (s.getDb id).content := by
  have hlt : id % s.hashSize < s.hashSize := Nat.mod_lt _ s.hashSize_pos
  rw [ShardDisk.content, onDisk, dif_pos hlt]
  rfl

/-- What a storage has under an id is in the directory of the id. -/
lemma row_onDisk (s : DataStorage) (disk : ShardDisk) (id : KeyId) :
    (s.onDisk disk).row (id % s.hashSize) id = s.point? id := by
  funext t
  rw [ShardDisk.row, content_onDisk_getDb]
  rfl

@[simp] lemma reply_hashSize (s : DataStorage) (c : DataCall) : (s.reply W c).2.hashSize = s.hashSize := by
  cases c <;> rfl

@[simp] lemma afterInputs_hashSize (s : DataStorage) (calls : List DataCall) :
    (afterInputs (reply W) s calls).hashSize = s.hashSize := by
  induction calls generalizing s with
  | nil => rfl
  | cons c rest ih =>
    rw [← reply_hashSize s c]
    exact ih _

/-- A write under one id leaves the rows of others, in its directory and in all others, and
its own row in other directories. -/
lemma row_onDisk_putDb_of_ne (s : DataStorage) (disk : ShardDisk) {id id' : KeyId} {db : DataRocksdb} {i : ℕ}
    (hdb : id' ≠ id → ∀ t, db.content.find? (toLex (id', t)) = (s.getDb id).content.find? (toLex (id', t)))
    (h : id' ≠ id ∨ i ≠ id % s.hashSize) :
    ((s.putDb id db).onDisk disk).row i id' = (s.onDisk disk).row i id' := by
  funext t
  rw [onDisk_putDb, ShardDisk.row, ShardDisk.content_update]
  split_ifs with hi
  · subst hi
    rw [hdb (h.resolve_right fun hne => hne rfl), ShardDisk.row, content_onDisk_getDb]
  · rfl

lemma row_onDisk_reply (s : DataStorage) (disk : ShardDisk) (c : DataCall) {id : KeyId} {i : ℕ}
    (h : id ≠ c.id ∨ i ≠ c.id % s.hashSize) :
    ((s.reply W c).2.onDisk disk).row i id = (s.onDisk disk).row i id := by
  cases c with
  | set ok id' data => exact s.row_onDisk_putDb_of_ne disk (fun hne => (s.getDb id').find?_set_of_ne ok hne data) h
  | inc ok id' data => exact s.row_onDisk_putDb_of_ne disk (fun hne => (s.getDb id').find?_inc_of_ne ok hne data) h
  | del ok id' => exact s.row_onDisk_putDb_of_ne disk (fun hne => (s.getDb id').find?_del_of_ne ok 0 hne) h
  | get id' ts offset limit => rfl

/-- The calls of a process leave what an id has in another directory than its own. -/
lemma row_onDisk_afterInputs (s : DataStorage) (disk : ShardDisk) (calls : List DataCall) {id : KeyId} {i : ℕ}
    (h : i ≠ id % s.hashSize) :
    ((afterInputs (reply W) s calls).onDisk disk).row i id = (s.onDisk disk).row i id := by
  induction calls generalizing s with
  | nil => rfl
  | cons c rest ih =>
    have hrest := ih (s.reply W c).2 (by rwa [reply_hashSize])
    have hfirst : ((s.reply W c).2.onDisk disk).row i id = (s.onDisk disk).row i id := by
      apply row_onDisk_reply
      by_cases hid : id = c.id
      · exact .inr (hid ▸ h)
      · exact .inl hid
    exact hrest.trans hfirst

/-! ### What a call is answered -/

/-- Both have the same points under an id, and return as many of them. -/
structure ReadsAlike (id : KeyId) (s s' : DataStorage) : Prop where
  row : SameRow s id s' id
  resultLimit : (s.getDb id).resultLimit = (s'.getDb id).resultLimit

namespace ReadsAlike

variable {id : KeyId} {s s' : DataStorage}

lemma write (h : ReadsAlike id s s') (w : DataWrite) : ReadsAlike id (s.write W w) (s'.write W w) where
  row := by
    by_cases hid : w.id = id
    · subst hid
      have hsame : w.withId w.id = w := by cases w <;> rfl
      have hrow : SameRow (s.write W w) w.id (s'.write W (w.withId w.id)) w.id := h.row.write
      rwa [hsame] at hrow
    · intro t
      rw [s.point?_write_of_ne hid, s'.point?_write_of_ne hid]
      exact h.row t
  resultLimit := by
    rw [write_resultLimit, write_resultLimit]
    exact h.resultLimit

lemma reply (h : ReadsAlike id s s') (c : DataCall) : ReadsAlike id (s.reply W c).2 (s'.reply W c).2 := by
  cases c with
  | set ok id' data => exact h.write (W := W) (.set ok id' data)
  | inc ok id' data => exact h.write (.inc ok id' data)
  | del ok id' => exact h.write (W := W) (.del ok 0 id')
  | get id' ts offset limit => exact h

lemma answer (h : ReadsAlike id s s') {c : DataCall} (hc : c.id = id) : (s.reply W c).1 = (s'.reply W c).1 := by
  have hpoints := h.row.points
  cases c with
  | set ok id' data => cases ok <;> rfl
  | inc ok id' data => cases ok <;> rfl
  | del ok id' =>
    obtain rfl : id' = id := hc
    simp only [DataStorage.reply, del_status_eq, hpoints]
  | get id' ts offset limit =>
    obtain rfl : id' = id := hc
    simp only [DataStorage.reply, (get_eq _ _ _ _ _).1, hpoints, h.resultLimit]

end ReadsAlike

end DataStorage

/-! ### What a process is answered -/

namespace DataSession

/-- The answers to the calls under an id. -/
def answersOn (id : KeyId) : List DataCall → List DataAnswer → List DataAnswer
  | c :: calls, a :: rest => if c.id = id then a :: answersOn id calls rest else answersOn id calls rest
  | _, _ => []

lemma answersOn_eq {id : KeyId} {s s' : DataStorage} (h : s.ReadsAlike id s') (calls : List DataCall) :
    answersOn id calls (answers (DataStorage.reply W) s calls) =
        answersOn id calls (answers (DataStorage.reply W) s' calls) ∧
      (afterInputs (DataStorage.reply W) s calls).ReadsAlike id (afterInputs (DataStorage.reply W) s' calls) := by
  induction calls generalizing s s' with
  | nil => exact ⟨rfl, h⟩
  | cons c rest ih =>
    obtain ⟨hanswers, hafter⟩ := ih (h.reply c)
    refine ⟨?_, hafter⟩
    simp only [answers, answersOn, hanswers]
    split_ifs with hc
    · rw [h.answer hc]
    · rfl

/-- The process has the points of an id in this directory. -/
def looksIn (i : ℕ) (id : KeyId) (p : DataSession) : Bool := p.options.shard id == i

lemma content_ofDisk (opt : DataStorageOptions) (disk : ShardDisk) :
    ((DataStorage.ofDisk opt disk).onDisk disk).content = disk.content := by
  funext j
  unfold ShardDisk.content DataStorage.onDisk
  split_ifs <;> rfl

lemma row_run_of_not_looksIn (p : DataSession) (disk : ShardDisk) {i : ℕ} {id : KeyId} (h : p.looksIn i id = false) :
    (p.run W disk).2.row i id = disk.row i id := by
  have hne : i ≠ p.options.shard id := fun heq => ne_of_beq_false h heq.symm
  have hopen := ShardDisk.content_openLoop p.options.createIfMissing p.opening (List.range p.options.size) disk
  unfold run
  dsimp only
  split_ifs
  · dsimp only
    rw [DataStorage.row_onDisk_afterInputs _ _ _ hne]
    funext t
    rw [ShardDisk.row, content_ofDisk, hopen]
    rfl
  · funext t
    rw [ShardDisk.row, hopen]
    rfl

/-- What the process is answered under the id depends on the row of the id in the directory. -/
lemma run_of_looksIn {p : DataSession} {disk disk' : ShardDisk} {i : ℕ} {id : KeyId}
    (hcreate : p.options.createIfMissing = true) (h : p.looksIn i id = true) (hrow : disk.row i id = disk'.row i id) :
    (p.run W disk).1.map (answersOn id p.calls) = (p.run W disk').1.map (answersOn id p.calls) ∧
      (p.run W disk).2.row i id = (p.run W disk').2.row i id := by
  obtain rfl : p.options.shard id = i := eq_of_beq h
  have hopen := ShardDisk.content_openLoop p.options.createIfMissing p.opening (List.range p.options.size)
  have hopened : ∀ d : ShardDisk, (d.openLoop p.options.createIfMissing p.opening (List.range p.options.size)).2.row
      (p.options.shard id) id = d.row (p.options.shard id) id := by
    intro d
    funext t
    rw [ShardDisk.row, hopen]
    rfl
  have hfst := ShardDisk.openLoop_fst p.opening (List.range p.options.size) disk disk'
  rw [← hcreate] at hfst
  unfold run
  dsimp only
  rw [hfst]
  split_ifs
  · have halike : (DataStorage.ofDisk p.options (disk.openLoop p.options.createIfMissing p.opening
        (List.range p.options.size)).2).ReadsAlike id (DataStorage.ofDisk p.options
        (disk'.openLoop p.options.createIfMissing p.opening (List.range p.options.size)).2) := by
      refine ⟨fun t => ?_, rfl⟩
      have hsame := (hopened disk).trans (hrow.trans (hopened disk').symm)
      exact congrFun hsame t
    obtain ⟨hanswers, hafter⟩ := answersOn_eq (W := W) halike p.calls
    refine ⟨congrArg some hanswers, ?_⟩
    have hread : ∀ d : ShardDisk, ((afterInputs (DataStorage.reply W) (DataStorage.ofDisk p.options d) p.calls).onDisk
        d).row (p.options.shard id) id =
          (afterInputs (DataStorage.reply W) (DataStorage.ofDisk p.options d) p.calls).point? id := by
      intro d
      rw [← DataStorage.row_onDisk _ d, DataStorage.afterInputs_hashSize]
      rfl
    dsimp only
    rw [hread, hread]
    exact funext hafter.row
  · exact ⟨rfl, (hopened disk).trans (hrow.trans (hopened disk').symm)⟩

/-- Processes that look elsewhere are not noticed. -/
lemma unwinds (W : Wrtstat) (i : ℕ) (id : KeyId) :
    Unwinds (run W) (fun p => p.options.createIfMissing = true) (looksIn i id) (fun p a => a.map (answersOn id p.calls))
      (fun _ _ => True) (fun disk disk' => disk.row i id = disk'.row i id) where
  next _ _ _ _ := trivial
  fewer _ _ _ := trivial
  seen _ _ _ _ hcreate _ _ hrow hp := run_of_looksIn hcreate hp hrow
  unseen _ disk _ p _ _ hrow hp := (p.row_run_of_not_looksIn disk hp).trans hrow

end DataSession

/-- Whatever `hash_size` the processes have that open data storage one after another, whatever they
call, and whichever of their opens and writes fail: those that look for the points of an id in one
directory are answered under it as if there were no others. -/
theorem shards_shared_by_directory (W : Wrtstat) (disk : ShardDisk) (processes : List DataSession)
    (hcreate : ∀ p ∈ processes, p.options.createIfMissing = true) (i : ℕ) (id : KeyId) :
    seenAnswers (DataSession.run W) (DataSession.looksIn i id) (fun p a => a.map (DataSession.answersOn id p.calls))
        disk processes =
      seenAnswers (DataSession.run W) (DataSession.looksIn i id) (fun p a => a.map (DataSession.answersOn id p.calls))
        disk (processes.filter (DataSession.looksIn i id)) :=
  (DataSession.unwinds W i id).seenAnswers_filter hcreate trivial trivial rfl

/-- Of two shards the third key is in the second one, of four in the fourth: the points are gone,
and are back with two shards. -/
theorem shards_shared_by_directory_after_change :
    let W := Wrtstat.reference 5 false
    let processes : List DataSession :=
      [{ options := { hashSize := 2 }, calls := [.set true 3 { ts := 5, count := 1 }, .get 3 0 0 0] },
        { options := { hashSize := 4 },
          calls := [.get 3 0 0 0, .inc true 3 { ts := 5, count := 2 }, .del allOk 1, .get 3 0 0 0] },
        { options := { hashSize := 2 }, calls := [.inc true 3 { ts := 5, count := 4 }, .get 3 0 0 0] }]
    let answered : List DataSession → List (Option (List DataAnswer)) :=
      seenAnswers (DataSession.run W) (DataSession.looksIn 1 3) (fun p a => a.map (DataSession.answersOn 3 p.calls))
        fun _ => none
    answered processes = [some [.status (.ok ()), .points [{ ts := 5, count := 1 }]],
        some [.status (.ok ()), .points [{ ts := 5, count := 5 }]]] ∧
      answered processes = answered (processes.filter (DataSession.looksIn 1 3)) := by
  intro W processes answered
  constructor
  · decide +kernel
  · exact shards_shared_by_directory W (fun _ => none) processes (by decide) 1 3

end WfcBtp
