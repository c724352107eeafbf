import Mathlib.Data.List.Induction
import WfcBtp.Proofs.KeyCacheIndexes

/-!
# How late and how early names are evicted

The time recorded for a name is refreshed only when it is older than the interval of the
garbage collection. It lags behind the last access by less than that, and is always the
time of some access or the one taken from the stored key.
-/

namespace WfcBtp
open Library

namespace KeyCache

variable {W : Wrtstat}

/-! ### One call -/

/-- The time recorded for a name after it was touched at `now`. -/
def refreshed (interval : ℤ) (old : Option ℤ) (now : ℤ) : ℤ :=
  match old with
  | some t => if t > now - interval then t else now
  | none => now

lemma lt_refreshed {interval : ℤ} (h : 0 < interval) (old : Option ℤ) (now : ℤ) :
    now - interval < refreshed interval old now := by
  unfold refreshed
  cases old with
  | none => dsimp only; omega
  | some t => dsimp only; split_ifs <;> omega

lemma le_refreshed {interval : ℤ} (h : 0 < interval) (t now : ℤ) : t ≤ refreshed interval (some t) now := by
  unfold refreshed
  dsimp only
  split_ifs <;> omega

lemma refreshed_cases (interval : ℤ) (old : Option ℤ) (now : ℤ) :
    old = some (refreshed interval old now) ∨ refreshed interval old now = now := by
  unfold refreshed
  cases old with
  | none => exact .inr rfl
  | some t =>
    dsimp only
    split_ifs
    · exact .inl rfl
    · exact .inr rfl

lemma updateTime_keyTime {c : KeyCache W} (hg : c.options.gcInterval ≠ 0) (clock : ℤ) (name : Name) (now : ℤ)
    (name' : Name) :
    (c.updateTime clock name now).keyTimeMap.find? name' =
      if name' = name then
        some (refreshed c.options.gcInterval (c.keyTimeMap.find? name) (if now = 0 then clock else now))
      else c.keyTimeMap.find? name' := by
  rw [updateTime, if_neg hg]
  dsimp only
  generalize (if now = 0 then clock else now) = now'
  cases ht : c.keyTimeMap.find? name with
  | none => simp [refreshed, OrderedMap.find?_set]
  | some t =>
    by_cases hn : name' = name
    · subst hn
      simp only [refreshed, if_true]
      split_ifs
      · exact ht
      · exact OrderedMap.find?_set_self _ _ _
    · simp only [refreshed, if_neg hn]
      split_ifs
      · rfl
      · simp [OrderedMap.find?_set, OrderedMap.find?_erase, hn]

lemma getOrCreate_keyTime {c : KeyCache W} (hg : c.options.gcInterval ≠ 0) (clock : ℤ) (name : Name)
    (nowTs : ℤ) (name' : Name) :
    (c.getOrCreate clock name nowTs).2.keyTimeMap.find? name' =
      if name' = name then some (refreshed c.options.gcInterval (c.keyTimeMap.find? name) clock)
      else c.keyTimeMap.find? name' := by
  unfold getOrCreate
  cases c.keyMap.find? name with
  | some ka => exact updateTime_keyTime hg clock name 0 name'
  | none =>
    let id := (c.keyCounter + 1) % 2 ^ 64
    let ka : KeyAggregator W := KeyAggregator.create (c.getMutex id) id nowTs c.options
    exact updateTime_keyTime (c := { c with keyCounter := id, keyMap := c.keyMap.set name ka }) hg clock name 0 name'

/-- The time that restoring a stored key records. -/
def initTime (resolution : ℤ) (info : StoredName) : ℤ :=
  if info.lastUpdate.tdiv resolution ≠ 0 then info.lastUpdate.tdiv resolution else 1

lemma init_keyTime {c : KeyCache W} (hg : c.options.gcInterval ≠ 0) (clock : ℤ) (info : StoredName)
    (name : Name) :
    (c.init clock info).2.keyTimeMap.find? name =
      if name = info.name then
        some (refreshed c.options.gcInterval (c.keyTimeMap.find? info.name)
          (initTime c.options.resolution info))
      else c.keyTimeMap.find? name := by
  have hne : initTime c.options.resolution info ≠ 0 := by
    unfold initTime
    split_ifs with h
    · exact h
    · exact one_ne_zero
  by_cases hlt : c.keyCounter < info.id
  · have htime := updateTime_keyTime (c := { c with keyCounter := info.id }) hg clock info.name
      (initTime c.options.resolution info) name
    rw [if_neg hne] at htime
    simp only [init, if_pos hlt]
    exact htime
  · have htime := updateTime_keyTime hg clock info.name (initTime c.options.resolution info) name
    rw [if_neg hne] at htime
    simp only [init, if_neg hlt]
    exact htime

lemma gcLoop_keyTime (l : List (ℤ ×ₗ Name)) (c : KeyCache W) (count : ℕ) (name : Name) :
    (c.gcLoop l count).2.keyTimeMap.find? name =
      if name ∈ l.map (fun p => (ofLex p).2) then none else c.keyTimeMap.find? name := by
  induction l generalizing c count with
  | nil => simp [gcLoop]
  | cons p rest ih =>
    simp only [gcLoop, ih, OrderedMap.find?_erase, List.map_cons, List.mem_cons]
    by_cases hp : name = (ofLex p).2
    · simp [hp]
    · rw [if_neg hp]
      exact if_congr (or_iff_right hp).symm rfl rfl

/-- What `gc` finds expired are the names with a time before the death time. -/
lemma IndexesAgree.mem_expired_iff {c : KeyCache W} (h : c.IndexesAgree) (hg : c.options.gcInterval ≠ 0)
    (clock : ℤ) (name : Name) :
    name ∈ (c.expired clock).map (fun p => (ofLex p).2) ↔
      ∃ t, c.keyTimeMap.find? name = some t ∧ t < clock - c.options.ttl := by
  have hmem : ∀ p : ℤ ×ₗ Name, p ∈ c.expired clock ↔
      c.keyTimeMap.find? (ofLex p).2 = some (ofLex p).1 ∧ (ofLex p).1 < clock - c.options.ttl := by
    intro p
    rw [expired, if_neg hg, OrderedMultiset.mem_below_iff, h.elems_perm.mem_iff, Prod.Lex.lt_iff]
    refine and_congr ?_ ?_
    · rw [← OrderedMap.mem_entries_iff, List.mem_map]
      constructor
      · rintro ⟨e, he, rfl⟩
        exact he
      · exact fun he => ⟨_, he, rfl⟩
    · simp
  rw [List.mem_map]
  constructor
  · rintro ⟨p, hp, rfl⟩
    exact ⟨_, (hmem p).mp hp⟩
  · rintro ⟨t, ht⟩
    exact ⟨toLex (t, name), (hmem _).mpr ht, rfl⟩

/-- `gc` removes exactly the names with a time before the death time. -/
lemma IndexesAgree.gc_removes_iff {c : KeyCache W} (h : c.IndexesAgree) (hg : c.options.gcInterval ≠ 0)
    (clock : ℤ) (name : Name) :
    name ∈ c.keyMap.keys ∧ name ∉ (c.gc clock).2.keyMap.keys ↔
      ∃ t, c.keyTimeMap.find? name = some t ∧ t < clock - c.options.ttl := by
  rw [← h.mem_expired_iff hg, OrderedMap.mem_keys_iff, OrderedMap.mem_keys_iff, gc_find?]
  constructor
  · rintro ⟨hin, hout⟩
    by_contra hexp
    rw [if_neg hexp] at hout
    exact hout hin
  · intro hexp
    refine ⟨?_, by rw [if_pos hexp]; simp⟩
    rw [← OrderedMap.mem_keys_iff]
    exact (h.expired_names clock).2 name hexp

/-! ### Runs -/

/-- The clock of a call that uses a name. A merge of an empty list is refused. -/
def Op.access? (name : Name) : Op → Option ℤ
  | .create clock n _ => if n = name then some clock else none
  | .add clock n _ => if n = name then some clock else none
  | .merge clock n data => if n = name ∧ data ≠ [] then some clock else none
  | .init _ _ => none
  | .del _ => none
  | .gc _ => none

/-- The time a call restores a name with. -/
def Op.restore? (resolution : ℤ) (name : Name) : Op → Option ℤ
  | .init _ info => if info.name = name then some (initTime resolution info) else none
  | .create _ _ _ => none
  | .add _ _ _ => none
  | .merge _ _ _ => none
  | .del _ => none
  | .gc _ => none

/-- The clock a call reads. -/
def Op.clock? : Op → Option ℤ
  | .create clock _ _ => some clock
  | .add clock _ _ => some clock
  | .merge clock _ _ => some clock
  | .gc clock => some clock
  | .init _ _ => none
  | .del _ => none

def Op.deletes (name : Name) : Op → Prop
  | .del n => n = name
  | .create _ _ _ => False
  | .add _ _ _ => False
  | .merge _ _ _ => False
  | .init _ _ => False
  | .gc _ => False

instance (name : Name) (op : Op) : Decidable (op.deletes name) := by
  cases op <;> unfold Op.deletes <;> infer_instance

/-- The last access after the call, if no del of the name came behind it. -/
def Op.nextAccess (name : Name) (last : Option ℤ) (op : Op) : Option ℤ :=
  if op.deletes name then none else (op.access? name).or last

/-- The clock of the last access to a name since its last del. -/
def lastAccess (name : Name) (ops : List Op) : Option ℤ := ops.foldl (Op.nextAccess name) none

/-- The time a call records for a name, unless the recorded one is recent enough. -/
def Op.touch? (resolution : ℤ) (name : Name) (op : Op) : Option ℤ :=
  (op.access? name).or (op.restore? resolution name)

/-- What the calls do that touch a name; there are three others. -/
lemma run_cases {c : KeyCache W} (hg : c.options.gcInterval ≠ 0) (op : Op) :
    (∃ n t, ∀ name, op.touch? c.options.resolution name = (if n = name then some t else none) ∧
      (c.run op).keyTimeMap.find? name =
        if name = n then some (refreshed c.options.gcInterval (c.keyTimeMap.find? n) t)
        else c.keyTimeMap.find? name) ∨
    (∃ clock n, op = .merge clock n []) ∨ (∃ n, op = .del n) ∨ ∃ clock, op = .gc clock := by
  cases op with
  | create clock n nowTs =>
    exact .inl ⟨n, clock, fun name => ⟨by simp [Op.touch?, Op.access?, Op.restore?],
      getOrCreate_keyTime hg clock n nowTs name⟩⟩
  | add clock n data =>
    exact .inl ⟨n, clock, fun name => ⟨by simp [Op.touch?, Op.access?, Op.restore?],
      getOrCreate_keyTime hg clock n data.ts name⟩⟩
  | merge clock n data =>
    by_cases hne : data = []
    · subst hne
      exact .inr (.inl ⟨clock, n, rfl⟩)
    · refine .inl ⟨n, clock, fun name => ⟨by simp [Op.touch?, Op.access?, Op.restore?, hne], ?_⟩⟩
      rw [run, merge_of_getLast? (List.getLast?_eq_some_getLast hne)]
      exact getOrCreate_keyTime hg clock n _ name
  | init clock info =>
    exact .inl ⟨info.name, initTime c.options.resolution info, fun name =>
      ⟨by simp [Op.touch?, Op.access?, Op.restore?], init_keyTime hg clock info name⟩⟩
  | del n => exact .inr (.inr (.inl ⟨n, rfl⟩))
  | gc clock => exact .inr (.inr (.inr ⟨clock, rfl⟩))

/-- A call that uses or restores a name refreshes its time. -/
lemma run_keyTime_of_touch {c : KeyCache W} (hg : c.options.gcInterval ≠ 0) {op : Op} {name : Name} {t : ℤ}
    (ht : op.touch? c.options.resolution name = some t) :
    (c.run op).keyTimeMap.find? name =
      some (refreshed c.options.gcInterval (c.keyTimeMap.find? name) t) := by
  rcases run_cases hg op with ⟨n, t', htouch⟩ | ⟨clock, n, rfl⟩ | ⟨n, rfl⟩ | ⟨clock, rfl⟩
  · obtain ⟨hop, hfind⟩ := htouch name
    rw [hop, Option.ite_none_right_eq_some, Option.some.injEq] at ht
    obtain ⟨rfl, rfl⟩ := ht
    rw [hfind, if_pos rfl]
  · simp [Op.touch?, Op.access?, Op.restore?] at ht
  · simp [Op.touch?, Op.access?, Op.restore?] at ht
  · simp [Op.touch?, Op.access?, Op.restore?] at ht

/-- Any other call leaves its time alone, or deletes it, or evicts it. -/
lemma IndexesAgree.run_keyTime_of_not_touch {c : KeyCache W} (h : c.IndexesAgree) (hg : c.options.gcInterval ≠ 0)
    {op : Op} {name : Name} (ht : op.touch? c.options.resolution name = none) :
    (c.run op).keyTimeMap.find? name = c.keyTimeMap.find? name ∨
      (c.run op).keyTimeMap.find? name = none ∧ (op.deletes name ∨
        ∃ clock, op = .gc clock ∧ ∃ t, c.keyTimeMap.find? name = some t ∧ t < clock - c.options.ttl) := by
  rcases run_cases hg op with ⟨n, t', htouch⟩ | ⟨clock, n, rfl⟩ | ⟨n, rfl⟩ | ⟨clock, rfl⟩
  · obtain ⟨hop, hfind⟩ := htouch name
    rw [hop] at ht
    have hn : n ≠ name := by simpa using ht
    exact .inl (by rw [hfind, if_neg hn.symm])
  · exact .inl rfl
  · change (c.del n).2.keyTimeMap.find? name = _ ∨ (c.del n).2.keyTimeMap.find? name = _ ∧ _
    have hagree := h.del hg n
    by_cases hn : n = name
    · subst hn
      have hnone := keys_eq_iff.mp hagree.keys n
      rw [del_find?, if_pos rfl, Option.isSome_none, eq_comm, Option.isSome_eq_false_iff,
        Option.isNone_iff_eq_none] at hnone
      exact .inr ⟨hnone, .inl rfl⟩
    · left
      unfold KeyCache.del
      cases c.keyMap.find? n with
      | none => rfl
      | some ka =>
        simp only [hg, ne_eq, not_false_eq_true, if_true]
        cases c.keyTimeMap.find? n with
        | none => rfl
        | some t => simp [OrderedMap.find?_erase, Ne.symm hn]
  · have hfind : (c.gc clock).2.keyTimeMap.find? name =
        if name ∈ (c.expired clock).map (fun p => (ofLex p).2) then none else c.keyTimeMap.find? name := by
      rw [(c.gc_eq clock).1]
      exact gcLoop_keyTime _ _ _ _
    by_cases hexp : name ∈ (c.expired clock).map (fun p => (ofLex p).2)
    · rw [if_pos hexp] at hfind
      exact .inr ⟨hfind, .inr ⟨clock, rfl, (h.mem_expired_iff hg clock name).mp hexp⟩⟩
    · rw [if_neg hexp] at hfind
      exact .inl hfind

/-- What the recorded times of a run say about its accesses: a name's time is one it was
used or restored at, and lags behind its last access by less than the interval, unless the
name was evicted since. -/
structure TimesTrack (c : KeyCache W) (ops : List Op) : Prop where
  recorded : ∀ name t, c.keyTimeMap.find? name = some t →
    ∃ op ∈ ops, op.touch? c.options.resolution name = some t
  lag : ∀ name a, lastAccess name ops = some a →
    (∃ t, c.keyTimeMap.find? name = some t ∧ a - c.options.gcInterval < t) ∨
      ∃ clock ∈ ops.filterMap Op.clock?, a - c.options.gcInterval < clock - c.options.ttl

lemma lastAccess_concat (name : Name) (ops : List Op) (op : Op) :
    lastAccess name (ops ++ [op]) = op.nextAccess name (lastAccess name ops) := by
  rw [lastAccess, List.foldl_append]
  rfl

lemma TimesTrack.run {c : KeyCache W} {ops : List Op} (h : c.TimesTrack ops) (hagree : c.IndexesAgree)
    (hg : 0 < c.options.gcInterval) (op : Op) : (c.run op).TimesTrack (ops ++ [op]) := by
  constructor
  · intro name t hfind
    rw [run_options]
    cases ht : op.touch? c.options.resolution name with
    | some now =>
      rw [run_keyTime_of_touch hg.ne' ht, Option.some.injEq] at hfind
      rcases refreshed_cases c.options.gcInterval (c.keyTimeMap.find? name) now with hold | hnow
      · rw [hfind] at hold
        obtain ⟨op', hop', ht'⟩ := h.recorded name t hold
        exact ⟨op', List.mem_append_left _ hop', ht'⟩
      · exact ⟨op, List.mem_append_right _ List.mem_cons_self, by rw [ht, ← hnow, hfind]⟩
    | none =>
      rcases hagree.run_keyTime_of_not_touch hg.ne' ht with hsame | ⟨hnone, -⟩
      · obtain ⟨op', hop', ht'⟩ := h.recorded name t (hsame ▸ hfind)
        exact ⟨op', List.mem_append_left _ hop', ht'⟩
      · rw [hnone] at hfind
        cases hfind
  · intro name a hlast
    rw [run_options]
    rw [lastAccess_concat, Op.nextAccess] at hlast
    have hdel : ¬op.deletes name := fun hd => by simp [hd] at hlast
    rw [if_neg hdel] at hlast
    cases ha : op.access? name with
    | some now =>
      rw [ha, Option.some_or, Option.some.injEq] at hlast
      subst hlast
      have ht : op.touch? c.options.resolution name = some now := by rw [Op.touch?, ha, Option.some_or]
      exact .inl ⟨_, run_keyTime_of_touch hg.ne' ht, lt_refreshed hg _ _⟩
    | none =>
      rw [ha, Option.none_or] at hlast
      rcases h.lag name a hlast with ⟨t, hfind, hlt⟩ | ⟨clock, hclock, hlt⟩
      · cases ht : op.touch? c.options.resolution name with
        | some now =>
          refine .inl ⟨_, run_keyTime_of_touch hg.ne' ht, ?_⟩
          rw [hfind]
          exact hlt.trans_le (le_refreshed hg t now)
        | none =>
          rcases hagree.run_keyTime_of_not_touch hg.ne' ht with hsame | ⟨-, hdeleted | ⟨clock, rfl, t', ht', hexp⟩⟩
          · exact .inl ⟨t, hsame.trans hfind, hlt⟩
          · exact absurd hdeleted hdel
          · rw [hfind, Option.some.injEq] at ht'
            subst ht'
            exact .inr ⟨clock, by simp [Op.clock?], hlt.trans hexp⟩
      · exact .inr ⟨clock, by rw [List.filterMap_append]; exact List.mem_append_left _ hclock, hlt⟩

lemma timesTrack_foldl (opt : KeyCacheOptions) (hg : 0 < opt.gcInterval) (ops : List Op) :
    let c : KeyCache W := ops.foldl run (new opt)
    c.IndexesAgree ∧ c.options = opt ∧ c.TimesTrack ops := by
  induction ops using List.reverseRecOn with
  | nil =>
    refine ⟨indexesAgree_new opt, rfl, fun name t hfind => ?_, fun name a hlast => ?_⟩
    · cases hfind
    · cases hlast
  | append_singleton ops op ih =>
    obtain ⟨hagree, hopt, htrack⟩ := ih
    rw [List.foldl_append]
    have hg' : 0 < (ops.foldl run (new opt : KeyCache W)).options.gcInterval := by rwa [hopt]
    exact ⟨hagree.run hg'.ne' op, (run_options _ op).trans hopt, htrack.run hagree hg' op⟩

/-- The clock of a call that names a name, also when it was refused or the name deleted since. -/
def Op.call? (name : Name) : Op → Option ℤ
  | .create clock n _ => if n = name then some clock else none
  | .add clock n _ => if n = name then some clock else none
  | .merge clock n _ => if n = name then some clock else none
  | .init _ _ => none
  | .del _ => none
  | .gc _ => none

end KeyCache

end WfcBtp
