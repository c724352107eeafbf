import WfcBtp.Library.Rows
import WfcBtp.Model.Calls
import WfcBtp.Model.Reserving
import WfcBtp.Model.WrtstatReference

/-!
# The points of one key

A read goes through the points of one id from a time on, in whatever shard they are. A del
goes through those from time zero on, and deletes what it comes by.
-/

namespace WfcBtp
open Library

variable {W : Wrtstat}

namespace DataStorage

/-- The points stored under an id from a time on, with their times. -/
def points (s : DataStorage) (id : KeyId) (ts : ℤ) : List (ℤ × AggregatedInfo) := row (s.getDb id).content id ts

lemma mem_points_iff (s : DataStorage) (id : KeyId) (ts t : ℤ) (p : AggregatedInfo) :
    (t, p) ∈ s.points id ts ↔ ts ≤ t ∧ s.point? id t = some p :=
  mem_row_iff _ _ _ _ _

lemma points_ascending (s : DataStorage) (id : KeyId) (ts : ℤ) :
    (s.points id ts).Pairwise (fun a b => a.1 < b.1) :=
  row_sorted _ _ _

lemma points_congr {s s' : DataStorage} {id : KeyId} (h : ∀ t, s.point? id t = s'.point? id t) (ts : ℤ) :
    s.points id ts = s'.points id ts :=
  row_congr h ts

/-! ### Reading -/

/-- The loop counts the offset down, then the limit, over the points of the id. -/
lemma getLoop_eq (id : KeyId) (l : List (KeyTs × AggregatedInfo)) (offset limit : ℕ)
    (result : List AggregatedInfo) :
    DataRocksdb.getLoop id l offset limit result =
      result ++ (((l.takeWhile fun e => (ofLex e.1).1 = id).drop offset).take limit).map Prod.snd := by
  induction l generalizing offset limit result with
  | nil => simp [DataRocksdb.getLoop]
  | cons e rest ih =>
    rw [DataRocksdb.getLoop]
    by_cases hid : (ofLex e.1).1 = id
    · rw [List.takeWhile_cons_of_pos (by simpa using hid), if_neg (not_not.mpr hid)]
      cases offset with
      | succ offset =>
        rw [if_neg (Nat.succ_ne_zero offset), Nat.add_sub_cancel, ih, List.drop_succ_cons]
      | zero =>
        rw [if_pos rfl]
        cases limit with
        | zero => simp
        | succ limit =>
          simp only [ne_eq, Nat.succ_ne_zero, not_false_eq_true, if_true, Nat.add_sub_cancel, ih,
            List.drop_zero, List.take_succ_cons, List.map_cons, List.append_assoc, List.singleton_append]
          split_ifs with hl
          · rw [hl, List.take_zero, List.map_nil]
          · rfl
    · rw [if_pos hid, List.takeWhile_cons_of_neg (by simpa using hid)]
      simp

/-- How many points a read returns at most. -/
def window (limit resultLimit : ℕ) : ℕ := if limit = 0 then resultLimit else min limit resultLimit

lemma window_le (limit resultLimit : ℕ) : window limit resultLimit ≤ resultLimit := by
  unfold window
  split_ifs <;> omega

lemma limit_eq_window (limit resultLimit : ℕ) :
    (if limit = 0 ∨ limit > resultLimit then resultLimit else limit) = window limit resultLimit := by
  unfold window
  split_ifs <;> omega

/-- What the loop reads is not trimmed. -/
lemma get_eq (s : DataStorage) (id : KeyId) (ts : ℤ) (offset limit : ℕ) :
    s.get id ts offset limit =
        (((s.points id ts).drop offset).take (window limit (s.getDb id).resultLimit)).map Prod.snd ∧
      s.get id ts offset limit = DataRocksdb.getLoop id ((s.getDb id).content.lowerBound (toLex (id, ts))) offset
        (window limit (s.getDb id).resultLimit) [] := by
  have hloop := getLoop_eq id ((s.getDb id).content.lowerBound (toLex (id, ts))) offset
    (window limit (s.getDb id).resultLimit) []
  have huncut : s.get id ts offset limit =
      DataRocksdb.getLoop id ((s.getDb id).content.lowerBound (toLex (id, ts))) offset
        (window limit (s.getDb id).resultLimit) [] := by
    have hle := window_le limit (s.getDb id).resultLimit
    unfold get DataRocksdb.get
    rw [limit_eq_window]
    refine if_neg (not_lt.mpr ?_)
    rw [hloop, List.nil_append, List.length_map, List.length_take]
    omega
  refine ⟨?_, huncut⟩
  rw [huncut, hloop, List.nil_append, points, row, ← List.map_drop, ← List.map_take, List.map_map]
  rfl

/-- What `get` returns is stored under the id. -/
lemma point?_of_mem_get {s : DataStorage} {id : KeyId} {ts : ℤ} {offset limit : ℕ} {p : AggregatedInfo}
    (h : p ∈ s.get id ts offset limit) : ∃ t, s.point? id t = some p := by
  rw [(get_eq s id ts offset limit).1] at h
  obtain ⟨e, he, rfl⟩ := List.mem_map.mp h
  have hmem : e ∈ s.points id ts := List.mem_of_mem_drop (List.mem_of_mem_take he)
  exact ⟨e.1, ((mem_points_iff s id ts e.1 e.2).mp hmem).2⟩

/-! ### Deleting -/

lemma delLoop_ok_iff {id : KeyId} {ok : Outcomes} (l : List (KeyTs × AggregatedInfo)) (i : ℕ)
    (db : DataRocksdb) :
    (DataRocksdb.delLoop id ok l i db).1 = .ok () ↔
      ∀ j < (l.takeWhile fun e => (ofLex e.1).1 = id).length, ok (i + j) = true := by
  induction l generalizing i db with
  | nil => simp [DataRocksdb.delLoop]
  | cons e rest ih =>
    by_cases he : (ofLex e.1).1 = id
    · rw [List.takeWhile_cons_of_pos (by simpa using he), List.length_cons, DataRocksdb.delLoop,
        if_neg (not_not.mpr he)]
      constructor
      · intro h j hj
        split_ifs at h with hok
        cases j with
        | zero => exact hok
        | succ j =>
          have hrest := (ih _ _).mp h j (Nat.lt_of_succ_lt_succ hj)
          rwa [show i + (j + 1) = i + 1 + j by omega]
      · intro h
        have hok : ok i = true := h 0 (Nat.zero_lt_succ _)
        rw [if_pos hok, ih]
        intro j hj
        rw [show i + 1 + j = i + (j + 1) by omega]
        exact h (j + 1) (Nat.succ_lt_succ hj)
    · rw [List.takeWhile_cons_of_neg (by simpa using he), DataRocksdb.delLoop, if_pos he]
      simp

/-- The times whose points a del gets to before a write fails. -/
def erased (ok : Outcomes) : List ℤ → ℕ → List ℤ
  | [], _ => []
  | t :: rest, i => if ok i then t :: erased ok rest (i + 1) else []

lemma erased_of_ok {ok : Outcomes} {l : List ℤ} {i : ℕ} (h : ∀ j < l.length, ok (i + j) = true) :
    erased ok l i = l := by
  induction l generalizing i with
  | nil => rfl
  | cons t rest ih =>
    have hrest : ∀ j < rest.length, ok (i + 1 + j) = true := by
      intro j hj
      rw [show i + 1 + j = i + (j + 1) by omega]
      exact h (j + 1) (Nat.succ_lt_succ hj)
    have hfirst : ok i = true := h 0 (Nat.zero_lt_succ _)
    rw [erased, if_pos hfirst, ih hrest]

lemma find?_delLoop_erased (id : KeyId) (ok : Outcomes) (l : List (KeyTs × AggregatedInfo)) (i : ℕ)
    (db : DataRocksdb) (t : ℤ) (id' : KeyId) :
    (DataRocksdb.delLoop id ok l i db).2.content.find? (toLex (id', t)) =
      if id' = id ∧ t ∈ erased ok ((l.takeWhile fun e => (ofLex e.1).1 = id).map fun e => (ofLex e.1).2) i then none
      else db.content.find? (toLex (id', t)) := by
  induction l generalizing i db with
  | nil => simp [DataRocksdb.delLoop, erased]
  | cons e rest ih =>
    rw [DataRocksdb.delLoop]
    by_cases hid : (ofLex e.1).1 = id
    · rw [if_neg (not_not.mpr hid), List.takeWhile_cons_of_pos (by simpa using hid), List.map_cons, erased]
      cases hok : ok i with
      | false => simp
      | true =>
        have hkey : toLex (id', t) = e.1 ↔ id' = id ∧ t = (ofLex e.1).2 := by
          rw [← hid]
          exact Prod.ext_iff
        simp only [if_true, ih, OrderedMap.find?_erase, hkey, List.mem_cons]
        by_cases ht : id' = id ∧ t = (ofLex e.1).2
        · simp [ht]
        · simp only [ht, if_false]
          exact if_congr (by tauto) rfl rfl
    · rw [if_pos hid, List.takeWhile_cons_of_neg (by simpa using hid)]
      simp [erased]

lemma point?_del_erased (s : DataStorage) (ok : Outcomes) (i : ℕ) (id id' : KeyId) (t : ℤ) :
    (s.del ok i id).2.point? id' t =
      if id' = id ∧ t ∈ erased ok ((s.points id 0).map Prod.fst) i then none else s.point? id' t := by
  have hloop := find?_delLoop_erased id ok ((s.getDb id).content.lowerBound (toLex (id, 0))) i (s.getDb id) t id'
  have htimes : ((s.points id 0).map Prod.fst) =
      (((s.getDb id).content.lowerBound (toLex (id, 0))).takeWhile fun e => (ofLex e.1).1 = id).map
        fun e => (ofLex e.1).2 := by
    rw [points, row, List.map_map]
    rfl
  change (s.putDb id (DataRocksdb.delLoop id ok _ i _).2).point? id' t = _
  rw [point?_putDb, hloop, htimes]
  by_cases hid : id' = id
  · subst hid
    rw [if_pos rfl]
    rfl
  · simp only [hid, false_and, if_false]
    split_ifs with hshard
    · simp only [point?, getDb, hshard]
    · rfl

/-- A del that returns true deletes what is stored under the id from time zero on. -/
lemma point?_del_of_ok {s : DataStorage} {ok : Outcomes} {i : ℕ} {id : KeyId} (h : (s.del ok i id).1 = .ok ())
    (id' : KeyId) (t : ℤ) :
    (s.del ok i id).2.point? id' t = if id' = id ∧ 0 ≤ t then none else s.point? id' t := by
  have hok := (delLoop_ok_iff _ _ _).mp h
  have hall : erased ok ((s.points id 0).map Prod.fst) i = (s.points id 0).map Prod.fst := by
    apply erased_of_ok
    rw [points, row, List.map_map, List.length_map]
    exact hok
  rw [point?_del_erased, hall]
  by_cases hid : id' = id
  · subst hid
    have hmem : t ∈ (s.points id' 0).map Prod.fst ↔ 0 ≤ t ∧ (s.point? id' t).isSome := by
      simp only [List.mem_map, Prod.exists, exists_and_right, exists_eq_right, mem_points_iff, exists_and_left,
        Option.isSome_iff_exists]
    simp only [hmem, true_and]
    by_cases ht : 0 ≤ t
    · cases hp : s.point? id' t <;> simp [ht]
    · simp [ht]
  · simp [hid]

@[simp] lemma del_status (s : DataStorage) (i : ℕ) (id : KeyId) : (s.del allOk i id).1 = .ok () :=
  (delLoop_ok_iff _ _ _).mpr fun _ _ => rfl

lemma point?_del (s : DataStorage) (id : KeyId) (i : ℕ) (id' : KeyId) (t : ℤ) :
    (s.del allOk i id).2.point? id' t = if id' = id ∧ 0 ≤ t then none else s.point? id' t :=
  point?_del_of_ok (s.del_status i id) id' t

/-- No point is left under the id, and those of other ids are what they were. -/
structure DeletesOnly (s : DataStorage) (ok : Outcomes) (i : ℕ) (id : KeyId) : Prop where
  own : ∀ t, (s.del ok i id).2.point? id t = none
  others : ∀ id', id' ≠ id → ∀ t, (s.del ok i id).2.point? id' t = s.point? id' t

/-- A del that returns true leaves no point of the id, and the points of all others, exactly
if none is stored under the id at a time before zero. -/
theorem del_deletes_points_iff (s : DataStorage) (ok : Outcomes) (i : ℕ) (id : KeyId)
    (h : (s.del ok i id).1 = .ok ()) : s.DeletesOnly ok i id ↔ ∀ t < 0, s.point? id t = none := by
  have hpoint := point?_del_of_ok h
  constructor
  · intro hdel t ht
    have hown := hdel.own t
    rwa [hpoint, if_neg fun hle => absurd hle.2 (not_le.mpr ht)] at hown
  · intro hnone
    refine ⟨fun t => ?_, fun id' hid t => ?_⟩
    · rw [hpoint]
      split_ifs with ht
      · rfl
      · exact hnone t (not_le.mp fun hle => ht ⟨rfl, hle⟩)
    · rw [hpoint, if_neg fun hid' => hid hid'.1]

/-- The data storage after an on-time add and a late one of a name, which gets the id 1. -/
def afterLateAdd (ts : ℤ) : DataStorage :=
  ([StorageCall.add 1 allOk [97] { ts := 20, count := 1 }, .add 1 allOk [97] { ts := ts, count := 1 }].foldl
    Process.step (Process.start (Wrtstat.reference 1 false) { keyCache := { resolution := 1 } } 0 4 10)).storage.dataStorage

theorem del_deletes_points_after_late_add : (afterLateAdd 3).DeletesOnly allOk 0 1 := by
  have hkeys : ((afterLateAdd 3).getDb 1).content.keys = [toLex (1, 3)] := rfl
  refine (del_deletes_points_iff (afterLateAdd 3) allOk 0 1 (del_status _ _ _)).mpr fun t ht => ?_
  by_contra hpoint
  have hmem := (OrderedMap.mem_keys_iff _ _).mpr (Option.isSome_iff_ne_none.mpr hpoint)
  rw [hkeys, List.mem_singleton] at hmem
  have htime : t = 3 := congrArg (fun k => (ofLex k).2) hmem
  omega

/-- A late point at a negative time stays behind. -/
theorem del_leaves_negative_time :
    (afterLateAdd (-3)).point? 1 (-3) ≠ none ∧ ((afterLateAdd (-3)).del allOk 0 1).1 = .ok () ∧
      ((afterLateAdd (-3)).del allOk 0 1).2.point? 1 (-3) ≠ none ∧ ¬(afterLateAdd (-3)).DeletesOnly allOk 0 1 := by
  have hleft : ((afterLateAdd (-3)).del allOk 0 1).2.point? 1 (-3) ≠ none := by decide +kernel
  exact ⟨by decide +kernel, del_status _ _ _, hleft, fun h => hleft (h.own (-3))⟩

/-! ### The number of shards -/

end DataStorage

/-- A write to data storage, with the outcomes of the database writes it makes. -/
inductive DataWrite
  | set (ok : Bool) (id : KeyId) (data : AggregatedInfo)
  | inc (ok : Bool) (id : KeyId) (data : AggregatedInfo)
  | del (ok : Outcomes) (i : ℕ) (id : KeyId)

namespace DataStorage

def write (W : Wrtstat) (s : DataStorage) : DataWrite → DataStorage
  | .set ok id data => (s.set ok id data).2
  | .inc ok id data => (s.inc W ok id data).2
  | .del ok i id => (s.del ok i id).2

/-- Both have the same points under every id, and return as many of them. -/
structure SamePoints (s s' : DataStorage) : Prop where
  point? : ∀ id t, s.point? id t = s'.point? id t
  resultLimit : ∀ id, (s.getDb id).resultLimit = (s'.getDb id).resultLimit

lemma getDb_putDb (s : DataStorage) (id : KeyId) (db : DataRocksdb) (id' : KeyId) :
    (s.putDb id db).getDb id' = if s.shard id' = s.shard id then db else s.getDb id' := by
  have hs : (s.putDb id db).shard id' = s.shard id' := rfl
  rw [getDb, hs]
  exact Function.update_apply _ _ _ _

lemma delLoop_resultLimit (id : KeyId) (ok : Outcomes) (l : List (KeyTs × AggregatedInfo)) (i : ℕ)
    (db : DataRocksdb) : (DataRocksdb.delLoop id ok l i db).2.resultLimit = db.resultLimit := by
  induction l generalizing i db with
  | nil => rfl
  | cons e rest ih =>
    rw [DataRocksdb.delLoop]
    split_ifs
    · rfl
    · exact ih _ _
    · rfl

lemma write_resultLimit (s : DataStorage) (w : DataWrite) (id : KeyId) :
    ((s.write W w).getDb id).resultLimit = (s.getDb id).resultLimit := by
  have hput : ∀ id' db, db.resultLimit = (s.getDb id').resultLimit →
      ((s.putDb id' db).getDb id).resultLimit = (s.getDb id).resultLimit := by
    intro id' db h
    rw [getDb_putDb]
    split_ifs with hshard
    · rw [h, getDb, getDb, hshard]
    · rfl
  cases w with
  | set ok id' data =>
    apply hput
    cases ok <;> rfl
  | inc ok id' data =>
    apply hput
    cases ok <;> rfl
  | del ok i id' =>
    apply hput
    exact delLoop_resultLimit _ _ _ _ _

lemma SamePoints.write {s s' : DataStorage} (h : SamePoints s s') (w : DataWrite) :
    SamePoints (s.write W w) (s'.write W w) := by
  refine ⟨fun id t => ?_, fun id => by rw [write_resultLimit, write_resultLimit, h.resultLimit]⟩
  cases w with
  | set ok id' data =>
    cases ok with
    | false => simp only [DataStorage.write, set_false, h.point?]
    | true => simp only [DataStorage.write, point?_set, h.point?]
  | inc ok id' data =>
    cases ok with
    | false => simp only [DataStorage.write, inc_false, h.point?]
    | true => simp only [DataStorage.write, point?_inc, h.point?]
  | del ok i id' =>
    simp only [DataStorage.write, point?_del_erased, points_congr (h.point? id'), h.point?]

lemma SamePoints.run {s s' : DataStorage} (h : SamePoints s s') (ws : List DataWrite) :
    SamePoints (ws.foldl (DataStorage.write W) s) (ws.foldl (DataStorage.write W) s') := by
  induction ws generalizing s s' with
  | nil => exact h
  | cons w ws ih => exact ih (h.write w)

lemma SamePoints.create (hashSize hashSize' resultLimit : ℕ) :
    SamePoints (.create hashSize resultLimit) (.create hashSize' resultLimit) :=
  ⟨fun _ _ => rfl, fun _ => rfl⟩

lemma SamePoints.get_eq {s s' : DataStorage} (h : SamePoints s s') (id : KeyId) (ts : ℤ) (offset limit : ℕ) :
    s.get id ts offset limit = s'.get id ts offset limit := by
  rw [(DataStorage.get_eq s _ _ _ _).1, (DataStorage.get_eq s' _ _ _ _).1, points_congr (h.point? id), h.resultLimit]

/-- The times and points of an id from a time on, ascending. -/
structure IsRow (s : DataStorage) (id : KeyId) (ts : ℤ) (l : List (ℤ × AggregatedInfo)) : Prop where
  ascending : l.Pairwise (fun a b => a.1 < b.1)
  mem_iff : ∀ t p, (t, p) ∈ l ↔ ts ≤ t ∧ s.point? id t = some p

/-- What a read is to return: the points of its id from its time on in ascending order, less the
offset and up to the limits. The trim of the result does nothing. -/
structure ReadsWindow (s : DataStorage) (id : KeyId) (ts : ℤ) (offset limit : ℕ) (result : List AggregatedInfo) :
    Prop where
  window : ∃ l, s.IsRow id ts l ∧
    result = ((l.drop offset).take (window limit (s.getDb id).resultLimit)).map Prod.snd
  untrimmed : result = DataRocksdb.getLoop id ((s.getDb id).content.lowerBound (toLex (id, ts))) offset
    (DataStorage.window limit (s.getDb id).resultLimit) []

lemma get_readsWindow (s : DataStorage) (id : KeyId) (ts : ℤ) (offset limit : ℕ) :
    s.ReadsWindow id ts offset limit (s.get id ts offset limit) := by
  have hget := get_eq s id ts offset limit
  exact ⟨⟨s.points id ts, ⟨s.points_ascending id ts, s.mem_points_iff id ts⟩, hget.1⟩, hget.2⟩

lemma getReserving_congr (room : ℕ) {s s' : DataStorage} {id : KeyId}
    (hlimit : (s.getDb id).resultLimit = (s'.getDb id).resultLimit) {ts : ℤ} {offset limit : ℕ}
    (hget : s.get id ts offset limit = s'.get id ts offset limit) :
    s.getReserving room id ts offset limit = s'.getReserving room id ts offset limit := by
  have h := s.getReserving_guarded room id ts offset limit
  have h' := s'.getReserving_guarded room id ts offset limit
  by_cases hroom : (s.getDb id).resultLimit ≤ room
  · rw [h.eq_some hroom, h'.eq_some (hlimit ▸ hroom), hget]
  · rw [h.eq_none hroom, h'.eq_none (hlimit ▸ hroom)]

/-- A read returns its window exactly if there is room for as many points as the result limit
says. After the same writes any number of shards gives the same answer. -/
theorem get_reads_window_iff (room : ℕ) (s : DataStorage) (id : KeyId) (ts : ℤ) (offset limit : ℕ) :
    ((∃ result, s.getReserving room id ts offset limit = some result ∧ s.ReadsWindow id ts offset limit result) ↔
        (s.getDb id).resultLimit ≤ room) ∧
      ∀ (W : Wrtstat) (ws : List DataWrite) (hashSize hashSize' resultLimit : ℕ),
        (ws.foldl (DataStorage.write W) (.create hashSize resultLimit)).getReserving room id ts offset limit =
          (ws.foldl (DataStorage.write W) (.create hashSize' resultLimit)).getReserving room id ts offset limit := by
  have hguarded := s.getReserving_guarded room id ts offset limit
  refine ⟨⟨?_, fun hroom => ⟨_, hguarded.eq_some hroom, s.get_readsWindow id ts offset limit⟩⟩, ?_⟩
  · rintro ⟨result, hresult, -⟩
    rw [← hguarded.isSome_iff, hresult]
    rfl
  · intro W ws hashSize hashSize' resultLimit
    have hsame := (SamePoints.create hashSize hashSize' resultLimit).run (W := W) ws
    exact getReserving_congr room (hsame.resultLimit id) (hsame.get_eq id ts offset limit)

/-- One point is asked for, and room for the largest limit, which no vector has. -/
theorem get_throws_at_largest_limit :
    let s := ((DataStorage.create 1 (2 ^ 64 - 1)).set true 1 { ts := 5, count := 1 }).2
    (s.point? 1 5).map (·.count) = some 1 ∧ s.getReserving (2 ^ 63 - 1) 1 5 0 1 = none ∧
      ¬∃ result, s.getReserving (2 ^ 63 - 1) 1 5 0 1 = some result ∧ s.ReadsWindow 1 5 0 1 result := by
  intro s
  have hnone : s.getReserving (2 ^ 63 - 1) 1 5 0 1 = none := by decide +kernel
  refine ⟨by decide +kernel, hnone, ?_⟩
  rintro ⟨result, hresult, -⟩
  rw [hnone] at hresult
  cases hresult

end DataStorage

end WfcBtp
