import WfcBtp.Proofs.FailedDel
import WfcBtp.Proofs.TellingApart

/-!
# Adding again after a failure

Adding the same data again counts them twice if the aggregator took them in the call that
failed. Late data are counted once, unless the failed call has refreshed the time of the
name, which lets a cleanup evict it in one run and not in the other.
-/

namespace WfcBtp
open Library

variable {W : Wrtstat} {opened : W.Aggregator → Option ℕ}

/-! ### The time of a name -/

namespace KeyCache

/-- A use of the name at `clock` leaves the time it is kept under as it is. -/
def KeepsTime (c : KeyCache W) (clock : ℤ) (name : Name) : Prop :=
  c.options.gcInterval = 0 ∨
    ∃ t, c.keyTimeMap.find? name = some t ∧ (clock - c.options.gcInterval < t ∨ t = clock)

variable {c : KeyCache W} {clock : ℤ} {name : Name}

lemma updateTime_of_keepsTime (hagree : c.options.gcInterval ≠ 0 → c.IndexesAgree)
    (h : c.KeepsTime clock name) : c.updateTime clock name 0 = c := by
  by_cases hg : c.options.gcInterval = 0
  · rw [updateTime, if_pos hg]
  · obtain ⟨t, ht, hkeep⟩ := h.resolve_left hg
    rw [updateTime, if_neg hg]
    simp only [if_true, ht]
    by_cases hlt : clock - c.options.gcInterval < t
    · rw [if_pos hlt]
    · -- the same pair is taken out and put back
      obtain rfl := hkeep.resolve_left hlt
      have hmap : (c.keyTimeMap.erase name).set name t = c.keyTimeMap := by
        apply OrderedMap.ext
        intro n
        rw [OrderedMap.find?_set, OrderedMap.find?_erase]
        split_ifs with hn
        · rw [hn, ht]
        · rfl
      have hset : (c.timeKeySet.erase (toLex (t, name))).insert (toLex (t, name)) = c.timeKeySet := by
        apply OrderedMultiset.ext
        intro q
        rw [OrderedMultiset.count_insert, OrderedMultiset.count_erase]
        split_ifs with hq
        · rw [hq, (hagree hg).times t name, if_pos ht]
        · rfl
      rw [if_neg hlt, hmap, hset]

lemma getOrCreate_of_keepsTime (hagree : c.options.gcInterval ≠ 0 → c.IndexesAgree) {ka : KeyAggregator W}
    (hk : c.keyMap.find? name = some ka) (h : c.KeepsTime clock name) (nowTs : ℤ) :
    c.getOrCreate clock name nowTs = (ka, c) := by
  rw [getOrCreate, hk]
  dsimp only
  rw [updateTime_of_keepsTime hagree h]

lemma putKey_self {ka : KeyAggregator W} (hk : c.keyMap.find? name = some ka) : c.putKey name ka = c := by
  have hmap : c.keyMap.set name ka = c.keyMap := by
    apply OrderedMap.ext
    intro n
    rw [OrderedMap.find?_set]
    split_ifs with hn
    · rw [hn, hk]
    · rfl
  rw [putKey, hmap]

end KeyCache

namespace Storage

/-! ### Late data -/

/-- A failed add of late data changes nothing where the time of its name is kept. -/
lemma failed_add_of_late {s : Storage W} {clock : ℤ} {ok : Outcomes} {name : Name} {d : AggregatedData}
    (hagree : s.keyCache.options.gcInterval ≠ 0 → s.keyCache.IndexesAgree) {ka : KeyAggregator W}
    (hk : s.keyCache.keyMap.find? name = some ka) (hlate : ka.isLate d.ts) (hkeep : s.keyCache.KeepsTime clock name)
    (hfail : Status.writeFailed (s.add clock ok name d).1 = true) : (s.add clock ok name d).2 = s := by
  have hcache : (s.keyCache.add clock name d).cache = s.keyCache := by
    simp only [KeyCache.add, KeyCache.getOrCreate_of_keepsTime hagree hk hkeep, KeyAggregator.add_of_late hlate]
    exact KeyCache.putKey_self hk
  have hkey : s.addKey name d = (ka, [KeyAggregator.latePoint W d], false) := by
    rw [addKey, KeyCache.keyOrNew_of_some _ hk, KeyAggregator.add_of_late hlate, List.nil_append]
  have hid := keyId_of_writeFailed hfail
  unfold add at hfail ⊢
  rw [add_result, hkey] at hfail ⊢
  rw [hcache] at hfail ⊢
  simp only [hid, Bool.false_eq_true, if_false] at hfail ⊢
  cases hm : s.disableMerge with
  | true =>
    simp only [hm, if_true, setAll_cons] at hfail ⊢
    split_ifs at hfail ⊢
    · exact absurd hfail (by simp [setAll, Status.writeFailed])
    · rw [← hm]
  | false =>
    simp only [hm, Bool.false_eq_true, if_false, incAll_singleton] at hfail ⊢
    split_ifs at hfail ⊢
    · exact absurd hfail (by simp [Status.writeFailed])
    · rw [← hm]

/-! ### Retrying -/

/-- Data of `later` belong to a later period than the one the key of `name` is in. -/
def IsCompletedBy (s : Storage W) (name : Name) (later : AggregatedData) : Prop :=
  W.currentTime (s.keyCache.keyOrNew name later.ts).aggregator < W.getTs later.ts

instance (s : Storage W) (name : Name) (later : AggregatedData) : Decidable (s.IsCompletedBy name later) := by
  unfold IsCompletedBy
  infer_instance

/-- The condition for a failed add at a time to be repeated without a trace: the data are late
for their key, and the name stays under the time it was used at. -/
def RetryHarmless (s : Storage W) (clock : ℤ) (name : Name) (ts : ℤ) : Prop :=
  (s.keyCache.keyOrNew name ts).isLate ts ∧ s.keyCache.KeepsTime clock name

/-- The data count nothing and belong to a period that their key has open already. -/
def AddsNothing (opened : W.Aggregator → Option ℕ) (s : Storage W) (name : Name) (d : AggregatedData) : Prop :=
  d.count = 0 ∧ W.getTs d.ts = W.currentTime (s.keyCache.keyOrNew name d.ts).aggregator ∧
    (opened (s.keyCache.keyOrNew name d.ts).aggregator).isSome

lemma exists_isCompletedBy (hU : W.PeriodsGoOn) {s s' : Storage W} {name : Name} {ka ka' : KeyAggregator W}
    (hk : s.keyCache.keyMap.find? name = some ka) (hk' : s'.keyCache.keyMap.find? name = some ka') (t : ℤ) :
    ∃ later : AggregatedData, s.IsCompletedBy name later ∧ s'.IsCompletedBy name later ∧ t < W.getTs later.ts := by
  obtain ⟨u, hu⟩ := hU (max t (max (W.currentTime ka.aggregator) (W.currentTime ka'.aggregator)))
  obtain ⟨ht, hu⟩ := max_lt_iff.mp hu
  obtain ⟨hlt, hlt'⟩ := max_lt_iff.mp hu
  refine ⟨{ ts := u }, ?_, ?_, ht⟩
  · rwa [IsCompletedBy, KeyCache.keyOrNew_of_some _ hk]
  · rwa [IsCompletedBy, KeyCache.keyOrNew_of_some _ hk']

end Storage

namespace Process

/-- After any further calls the same add returns true, and after any more an add of later data
completes its period. The counts in data storage are those of a process that has not made the
failed call. -/
def CountsOnce (p : Process W) (clock : ℤ) (ok : Outcomes) (name : Name) (d : AggregatedData) : Prop :=
  ∀ (between : List StorageCall) (clock₂ : ℤ) (ok' : Outcomes) (after : List StorageCall) (clock₃ : ℤ)
    (later : AggregatedData),
    let q := between.foldl step { p with storage := (p.storage.add clock ok name d).2 }
    let q' := between.foldl step p
    let retried := q.storage.add clock₂ ok' name d
    let first := q'.storage.add clock₂ allOk name d
    let r := after.foldl step { q with storage := retried.2 }
    let r' := after.foldl step { q' with storage := first.2 }
    q.closed = false → q'.closed = false → retried.1 = .ok () → r.closed = false → r'.closed = false →
      r.storage.IsCompletedBy name later → r'.storage.IsCompletedBy name later →
      ∀ id t, (r.storage.add clock₃ allOk name later).2.dataStorage.count id t =
        (r'.storage.add clock₃ allOk name later).2.dataStorage.count id t

variable {p : Process W} {clock : ℤ} {ok : Outcomes} {name : Name} {d : AggregatedData}

lemma run_cons_of_accepts {c : StorageCall} (h : p.Accepts c) (rest : List StorageCall) :
    (c :: rest).foldl step p = rest.foldl step (p.call c).2 := by
  rw [List.foldl_cons, step, if_pos h]

/-- The add repeated at once gives other counts. -/
lemma not_countsOnce (hopen : p.closed = false) (later : AggregatedData) (id : KeyId) (t : ℤ)
    (hok : ((p.storage.add clock ok name d).2.add 0 allOk name d).1 = .ok ())
    (hretried : ((p.storage.add clock ok name d).2.add 0 allOk name d).2.IsCompletedBy name later)
    (hfirst : (p.storage.add 0 allOk name d).2.IsCompletedBy name later)
    (hne : (((p.storage.add clock ok name d).2.add 0 allOk name d).2.add 0 allOk name later).2.dataStorage.count id t ≠
      ((p.storage.add 0 allOk name d).2.add 0 allOk name later).2.dataStorage.count id t) :
    ¬p.CountsOnce clock ok name d :=
  fun h => hne (h [] 0 allOk [] 0 later hopen hopen hok hopen hopen hretried hfirst id t)

lemma countsOnce_of_harmless (hS : W.SumsCounts opened) (hA : W.AlignsTime) (hagree : p.IndexesAgree)
    (hfail : Status.writeFailed (p.storage.add clock ok name d).1 = true)
    (h : p.storage.RetryHarmless clock name d.ts) : p.CountsOnce clock ok name d := by
  intro between clock₂ ok' after clock₃ later q q' retried first r r' _ _ hok _ _ _ _
  obtain ⟨hlate, hkeep⟩ := h
  obtain ⟨ka, hk, hlate⟩ := Storage.exists_of_isLate hA hS hlate
  have hsame : (p.storage.add clock ok name d).2 = p.storage :=
    Storage.failed_add_of_late hagree hk hlate hkeep hfail
  have hq : q = q' := congrArg (fun s => between.foldl step { p with storage := s }) hsame
  have hretried : retried = first := by
    change q.storage.add clock₂ ok' name d = q'.storage.add clock₂ allOk name d
    rw [← hq]
    exact Storage.add_of_ok hok
  have hr : r = r' := by
    change after.foldl step { q with storage := retried.2 } = after.foldl step { q' with storage := first.2 }
    rw [hq, hretried]
  intro id t
  rw [hr]

/-- Data that are not late are counted twice. -/
lemma isLate_of_countsOnce (hA : W.AlignsTime) (hS : W.SumsCounts opened) (hU : W.PeriodsGoOn)
    (haligned : p.storage.AllAligned) (hopen : p.closed = false) (hts : d.ts ≠ 0) (hcount : d.count ≠ 0)
    (hfail : Status.writeFailed (p.storage.add clock ok name d).1 = true) (h : p.CountsOnce clock ok name d) :
    (p.storage.keyCache.keyOrNew name d.ts).isLate d.ts := by
  by_contra hon
  let s := p.storage
  let failed := (s.add clock ok name d).2
  have hid : s.keyId name ≠ badKey := Storage.keyId_of_writeFailed hfail
  have hid' : failed.keyId name = s.keyId name := s.add_keyId clock ok name d
  have hkey : failed.keyCache.keyOrNew name d.ts = (s.addKey name d).1 :=
    KeyCache.keyOrNew_of_some _ (s.add_find?_self clock ok name d)
  have hle : W.currentTime (s.keyCache.keyOrNew name d.ts).aggregator ≤ W.getTs d.ts :=
    haligned.le_of_not_late hA hS hts hon
  obtain ⟨later, hretried, hfirst, hlater⟩ := Storage.exists_isCompletedBy hU
    (failed.add_find?_self 0 allOk name d) (s.add_find?_self 0 allOk name d) (W.getTs d.ts)
  have hok : (failed.add 0 allOk name d).1 = .ok () := (Storage.add_status_iff _ _ _ _).mpr (by rwa [hid'])
  refine not_countsOnce hopen later (s.keyId name) (W.getTs d.ts) hok hretried hfirst (fun hcounts => hcount ?_) h
  have hwith := Storage.two_adds_points (s := failed) (by rwa [hid']) 0 0 d later
  have hwithout := Storage.two_adds_points hid 0 0 d later
  rw [hid', hkey] at hwith
  change (countAt? (((failed.add 0 allOk name d).2.add 0 allOk name later).2.dataStorage.point? (s.keyId name))
    (W.getTs d.ts)).getD 0 = (countAt? (((s.add 0 allOk name d).2.add 0 allOk name later).2.dataStorage.point?
    (s.keyId name)) (W.getTs d.ts)).getD 0 at hcounts
  rw [hwith, hwithout] at hcounts
  exact KeyAggregator.count_eq_zero_of_twoAdds hA hS hon hle hlater hcounts

/-! ### Nothing added -/

lemma run_endPeriod (hopen : p.closed = false) (name : Name) (t x y : ℤ) :
    [.merge 0 allOk name (Storage.mark t 1), .add 0 allOk name { ts := x }, .merge 0 allOk name (Storage.mark y 0),
        .reopen Storage.reopenOptions 0].foldl step p =
      { storage := (p.storage.endPeriod name t x y).reopened, closed := false } := by
  have hmark : p.Accepts (.merge 0 allOk name (Storage.mark t 1)) := hopen
  let p₁ := (p.call (.merge 0 allOk name (Storage.mark t 1))).2
  have hend : p₁.Accepts (.add 0 allOk name { ts := x }) := hopen
  let p₂ := (p₁.call (.add 0 allOk name { ts := x })).2
  have hlast : p₂.Accepts (.merge 0 allOk name (Storage.mark y 0)) := hopen
  have hreopen : (p₂.call (.merge 0 allOk name (Storage.mark y 0))).2.Accepts (.reopen Storage.reopenOptions 0) :=
    trivial
  rw [run_cons_of_accepts hmark, run_cons_of_accepts hend, run_cons_of_accepts hlast, run_cons_of_accepts hreopen]
  rfl

/-- A period that the failed call has opened is stored when it ends, with a count of zero. -/
lemma addsNothing_of_countsOnce (hA : W.AlignsTime) (hS : W.SumsCounts opened) (hC : W.CombinesCounts) {addsOld : Bool}
    (hR : W.AddsReduced opened addsOld) (hU : W.PeriodsGoOn) (haligned : p.storage.AllAligned)
    (hopen : p.closed = false) (hts : d.ts ≠ 0) (hon : ¬(p.storage.keyCache.keyOrNew name d.ts).isLate d.ts)
    (hcount : d.count = 0) (hfail : Status.writeFailed (p.storage.add clock ok name d).1 = true)
    (h : p.CountsOnce clock ok name d) : p.storage.AddsNothing opened name d := by
  let s := p.storage
  let failed := (s.add clock ok name d).2
  have hid : s.keyId name ≠ badKey := Storage.keyId_of_writeFailed hfail
  have hid' : failed.keyId name = s.keyId name := s.add_keyId clock ok name d
  have hkey : failed.keyCache.keyOrNew name d.ts = (s.addKey name d).1 :=
    KeyCache.keyOrNew_of_some _ (s.add_find?_self clock ok name d)
  have hle : W.currentTime (s.keyCache.keyOrNew name d.ts).aggregator ≤ W.getTs d.ts :=
    haligned.le_of_not_late hA hS hts hon
  have hfailed := KeyAggregator.add_on_time hS hon hle
  obtain ⟨x, hx⟩ := hU (W.getTs d.ts)
  let info := fun s : Storage W => ((s.merge 0 allOk name (Storage.mark d.ts 1)).2.addKey name { ts := x }).1.keyInfo
  obtain ⟨y, hy⟩ := hU (max (W.getTs d.ts) (max (info s).count.ts (info failed).count.ts))
  obtain ⟨hy, hinfo⟩ := max_lt_iff.mp hy
  obtain ⟨hinfo, hinfo'⟩ := max_lt_iff.mp hinfo
  let r := (s.endPeriod name d.ts x y).reopened
  let r' := (failed.endPeriod name d.ts x y).reopened
  have hidr : r'.keyId name = s.keyId name := by
    obtain ⟨ka, hk, hkid, -⟩ := Storage.reopened_endPeriod_find? hA hS hR (by rwa [hid']) hinfo'
    exact (Storage.keyId_of_some hk).trans (hkid.trans hid')
  obtain ⟨later, hretried, hfirst, hlater⟩ := Storage.exists_isCompletedBy hU
    (r'.add_find?_self 0 allOk name d) (r.add_find?_self 0 allOk name d) (W.getTs y)
  have hok : (r'.add 0 allOk name d).1 = .ok () := (Storage.add_status_iff _ _ _ _).mpr (by rwa [hidr])
  have hrun := h [.merge 0 allOk name (Storage.mark d.ts 1), .add 0 allOk name { ts := x },
    .merge 0 allOk name (Storage.mark y 0), .reopen Storage.reopenOptions 0] 0 allOk [] 0 later
  rw [run_endPeriod hopen, run_endPeriod (p := { p with storage := failed }) hopen] at hrun
  have hcounts := hrun rfl rfl hok rfl rfl hretried hfirst (s.keyId name) (W.getTs d.ts)
  have hwith := Storage.reopened_endPeriod_count (s := failed) hA hS hC hR (by rwa [hid']) hts
    (by rw [hkey]; exact hfailed.1.le) hx hy hinfo' hlater
  have hwithout := Storage.reopened_endPeriod_count hA hS hC hR hid hts hle hx hy hinfo hlater
  rw [hid', hkey] at hwith
  change ((r'.add 0 allOk name d).2.add 0 allOk name later).2.dataStorage.count (s.keyId name) (W.getTs d.ts) =
    ((r.add 0 allOk name d).2.add 0 allOk name later).2.dataStorage.count (s.keyId name) (W.getTs d.ts) at hcounts
  rw [hwith, hwithout, Storage.addKey, if_pos hfailed.1.symm, hfailed.2.1, KeyAggregator.periodSum, hcount] at hcounts
  -- the mark of one shows through where the period was not open before the failed call
  refine ⟨hcount, ?_⟩
  by_cases hcur : W.getTs d.ts = W.currentTime (s.keyCache.keyOrNew name d.ts).aggregator
  · refine ⟨hcur, ?_⟩
    by_contra hnone
    rw [if_pos hcur, if_pos hcur, Option.not_isSome_iff_eq_none.mp hnone] at hcounts
    exact absurd hcounts (by decide)
  · rw [if_neg hcur, if_neg hcur] at hcounts
    exact absurd hcounts (by decide)

/-! ### Two times of one name -/

lemma run_gc_merge (hopen : p.closed = false) (clock clock' : ℤ) (name : Name) (data : List AggregatedInfo) :
    [.gc clock, .merge clock' allOk name data].foldl step p =
      { p with storage := ((p.storage.gc clock).2.merge clock' allOk name data).2 } := by
  have hgc : p.Accepts (.gc clock) := hopen
  have hmerge : (p.call (.gc clock)).2.Accepts (.merge clock' allOk name data) := hopen
  rw [run_cons_of_accepts hgc, run_cons_of_accepts hmerge]
  rfl

/-- A cleanup and a mark that tell the two runs apart. -/
lemma not_countsOnce_of_mark (hU : W.PeriodsGoOn) (hopen : p.closed = false) {g z : ℤ} {m : ℕ} {id : KeyId}
    (hbad : ((p.storage.add clock ok name d).2.gc g).2.keyId name ≠ badKey)
    (hne : ∀ later : AggregatedData, W.getTs z < W.getTs later.ts →
      (((p.storage.add clock ok name d).2.gc g).2.markAndRetry name z m d later).dataStorage.count id (W.getTs z) ≠
        ((p.storage.gc g).2.markAndRetry name z m d later).dataStorage.count id (W.getTs z)) :
    ¬p.CountsOnce clock ok name d := by
  intro h
  let failed := (p.storage.add clock ok name d).2
  let retried := ((failed.gc g).2.merge 0 allOk name (Storage.mark z m)).2.add 0 allOk name d
  obtain ⟨later, hretried, hfirst, hlater⟩ := Storage.exists_isCompletedBy hU
    (Storage.add_find?_self ((failed.gc g).2.merge 0 allOk name (Storage.mark z m)).2 0 allOk name d)
    (Storage.add_find?_self ((p.storage.gc g).2.merge 0 allOk name (Storage.mark z m)).2 0 allOk name d) (W.getTs z)
  have hstatus : retried.1 = .ok () := by
    rw [Storage.add_status_iff, Storage.merge_keyId _ 0 allOk name (Storage.mark_ne_nil z m)]
    exact hbad
  have hrun := h [.gc g, .merge 0 allOk name (Storage.mark z m)] 0 allOk [] 0 later
  rw [run_gc_merge hopen, run_gc_merge (p := { p with storage := failed }) hopen] at hrun
  exact hne later hlater (hrun hopen hopen hstatus hopen hopen hretried hfirst id (W.getTs z))

/-- If the failed call has moved the time of the name, a cleanup evicts it in one run only. -/
lemma keepsTime_of_countsOnce (hA : W.AlignsTime) (hS : W.SumsCounts opened) (hC : W.CombinesCounts)
    (hU : W.PeriodsGoOn) (hagree : p.IndexesAgree) (hnext : p.storage.keyCache.keyCounter + 1 < badKey)
    {ka : KeyAggregator W} (hk : p.storage.keyCache.keyMap.find? name = some ka)
    (hid : ka.getId ≤ p.storage.keyCache.keyCounter) (hopen : p.closed = false) (hts : d.ts ≠ 0)
    (hlate : ka.isLate d.ts) (hfail : Status.writeFailed (p.storage.add clock ok name d).1 = true)
    (h : p.CountsOnce clock ok name d) : p.storage.keyCache.KeepsTime clock name := by
  by_contra hnot
  have hg : p.storage.keyCache.options.gcInterval ≠ 0 := fun hg => hnot (.inl hg)
  obtain ⟨t, ht⟩ : ∃ t, p.storage.keyCache.keyTimeMap.find? name = some t := by
    have hkeys := KeyCache.keys_eq_iff.mp (hagree hg).keys name
    rw [hk] at hkeys
    exact Option.isSome_iff_exists.mp hkeys.symm
  have hold : ¬clock - p.storage.keyCache.options.gcInterval < t := fun hlt => hnot (.inr ⟨t, ht, .inl hlt⟩)
  have hbad : ka.getId ≠ badKey := by
    rw [← Storage.keyId_of_some hk]
    exact Storage.keyId_of_writeFailed hfail
  have hbefore : p.storage.Dated name ka p.storage.keyCache.options.ttl t p.storage.keyCache.keyCounter :=
    ⟨hg, hagree hg, rfl, hk, ht, rfl⟩
  have hafter := hbefore.add_of_late hold hlate ok
  obtain ⟨z, hz⟩ := hU d.ts
  rcases lt_trichotomy t clock with hlt | heq | hlt
  · obtain ⟨-, hbadFailed, m, hm⟩ := hbefore.exists_markAndRetry_ne hA hS hC hafter hnext hid hbad hlt hts hz
    exact not_countsOnce_of_mark hU hopen hbadFailed (fun later hlater => (hm later hlater).symm) h
  · exact hnot (.inr ⟨t, ht, .inr heq⟩)
  · obtain ⟨hbadFailed, -, m, hm⟩ := hafter.exists_markAndRetry_ne hA hS hC hbefore hnext hid hbad hlt hts hz
    exact not_countsOnce_of_mark hU hopen hbadFailed hm h

/-! ### The condition -/

/-- In any reachable state, every failed add of a name at one time can be repeated after any calls
without a trace in the counts if the data are late for their key and the name stays under its time.
Otherwise no failed add at that time can, unless it adds nothing to an open period. -/
theorem retried_add_counts_once_iff (hA : W.AlignsTime) (hS : W.SumsCounts opened) (hC : W.CombinesCounts)
    (hK : W.StaysAligned) (hU : W.PeriodsGoOn) {addsOld : Bool} (hR : W.AddsReduced opened addsOld)
    (opt : StorageOptions) (clock : ℤ) (hashSize resultLimit : ℕ) (calls : List StorageCall) (clock₁ : ℤ) (name : Name)
    (ts : ℤ) (hts : ts ≠ 0) :
    let p := calls.foldl step (start W opt clock hashSize resultLimit)
    let Failed := fun ok d => Status.writeFailed (p.storage.add clock₁ ok name d).1 = true
    p.closed = false →
    (p.storage.RetryHarmless clock₁ name ts → ∀ ok d, d.ts = ts → Failed ok d → p.CountsOnce clock₁ ok name d) ∧
      (calls.length + 1 < badKey →
        ((∀ ok d, d.ts = ts → Failed ok d → p.CountsOnce clock₁ ok name d) ↔
          p.storage.RetryHarmless clock₁ name ts) ∧
        ∀ ok d, d.ts = ts → Failed ok d → ¬p.storage.AddsNothing opened name d →
          (p.CountsOnce clock₁ ok name d ↔ p.storage.RetryHarmless clock₁ name ts)) := by
  intro p Failed hopen
  have hagree : p.IndexesAgree := (indexesAgree_start opt clock hashSize resultLimit).run calls
  have haligned : p.storage.AllAligned :=
    Storage.AllAligned.run hA hS hK calls (Storage.AllAligned.openOn hA hS hK _ _ _ _)
  have henough : p.storage.RetryHarmless clock₁ name ts →
      ∀ ok d, d.ts = ts → Failed ok d → p.CountsOnce clock₁ ok name d := by
    rintro h ok d rfl hfail
    exact countsOnce_of_harmless hS hA hagree hfail h
  refine ⟨henough, fun hlen => ?_⟩
  have hstart : W.StartsInTime := fun t => (hS.currentTime_create t).trans_le (hA.getTs_le t)
  obtain ⟨hfresh, hcounter⟩ := Counted.idsFresh_run hstart opt clock hashSize resultLimit (Nat.lt_of_succ_lt hlen)
  have hnext : p.storage.keyCache.keyCounter + 1 < badKey := lt_of_le_of_lt (Nat.succ_le_succ hcounter) hlen
  have hneeded : ∀ ok d, d.ts = ts → Failed ok d → ¬p.storage.AddsNothing opened name d →
      p.CountsOnce clock₁ ok name d → p.storage.RetryHarmless clock₁ name ts := by
    rintro ok d rfl hfail hadds h
    have hlate : (p.storage.keyCache.keyOrNew name d.ts).isLate d.ts := by
      by_contra hon
      by_cases hcount : d.count = 0
      · exact hadds (addsNothing_of_countsOnce hA hS hC hR hU haligned hopen hts hon hcount hfail h)
      · exact hon (isLate_of_countsOnce hA hS hU haligned hopen hts hcount hfail h)
    obtain ⟨ka, hk, hlate'⟩ := Storage.exists_of_isLate hA hS hlate
    exact ⟨hlate, keepsTime_of_countsOnce hA hS hC hU hagree hnext hk (hfresh.cached_le name ka hk) hopen hts hlate'
      hfail h⟩
  refine ⟨⟨fun h => ?_, henough⟩, fun ok d hd hfail hadds =>
    ⟨hneeded ok d hd hfail hadds, fun h => henough h ok d hd hfail⟩⟩
  -- an add of one, of which no write succeeds
  let d : AggregatedData := { ts := ts, count := 1 }
  have hid : p.storage.keyId name ≠ badKey := by
    cases hk : p.storage.keyCache.keyMap.find? name with
    | none =>
      rw [Storage.keyId_eq_succ ((Nat.lt_succ_self _).trans hnext) hk]
      exact hnext.ne
    | some ka =>
      rw [Storage.keyId_of_some hk]
      exact ((hfresh.cached_le name ka hk).trans_lt ((Nat.lt_succ_self _).trans hnext)).ne
  have hfail : Failed (fun _ => false) d := Storage.writeFailed_of_no_write hid
  exact hneeded _ d rfl hfail (fun hadds => one_ne_zero hadds.1) (h _ d rfl hfail)

/-- Late data, and a name that has been used not long ago. -/
theorem retried_late_add_counts_once :
    let opt : StorageOptions := { keyCache := { resolution := 1, gcInterval := 10, ttl := 100 } }
    let p := [StorageCall.add 3 allOk [97] { ts := 20, count := 1 }].foldl step
      (start (Wrtstat.reference 5 false) opt 0 4 10)
    p.CountsOnce 8 (fun _ => false) [97] { ts := 6, count := 2 } := by
  intro opt p
  have hlate : (p.storage.keyCache.keyOrNew [97] 6).isLate 6 := by decide +kernel
  have htime : p.storage.keyCache.keyTimeMap.find? [97] = some 3 := by decide +kernel
  have hiff := retried_add_counts_once_iff (Wrtstat.reference_alignsTime (by omega) false)
    (Wrtstat.reference_sumsCounts 5 false) (Wrtstat.reference_combinesCounts 5 false)
    (Wrtstat.reference_staysAligned (by omega) false) (Wrtstat.reference_periodsGoOn (by omega) false)
    (Wrtstat.reference_addsReduced 5 false) opt 0 4 10 [StorageCall.add 3 allOk [97] { ts := 20, count := 1 }] 8 [97] 6
    (by decide) rfl
  exact ((hiff.2 (by decide)).2 _ _ rfl (by decide +kernel) (fun hadds => absurd hadds.1 (by decide))).mpr
    ⟨hlate, .inr ⟨3, htime, .inl (by decide)⟩⟩

/-- The write of the key fails: the period at five that the call has finished is lost, and
the two that were added at eleven count four. -/
theorem retried_add_counts_twice :
    let p := [StorageCall.add 0 allOk [97] { ts := 6, count := 1 }].foldl step
      (start (Wrtstat.reference 5 false) { keyCache := { resolution := 1 } } 0 4 10)
    let s := p.storage
    let d : AggregatedData := { ts := 11, count := 2 }
    let failed := s.add 0 (fun _ => false) [97] d
    let retried := failed.2.add 0 allOk [97] d
    let counts := (retried.2.add 0 allOk [97] { ts := 16 }).2.dataStorage.count (s.keyId [97])
    let counts' := ((s.add 0 allOk [97] d).2.add 0 allOk [97] { ts := 16 }).2.dataStorage.count (s.keyId [97])
    failed.1 = .error (.keyPut [97]) ∧ retried.1 = .ok () ∧ counts 5 = 0 ∧ counts 10 = 4 ∧ counts' 5 = 1 ∧
      counts' 10 = 2 ∧ ¬p.CountsOnce 0 (fun _ => false) [97] d := by
  intro p s d failed retried counts counts'
  refine ⟨rfl, rfl, by decide +kernel, by decide +kernel, by decide +kernel, by decide +kernel, ?_⟩
  apply not_countsOnce rfl { ts := 16 } (s.keyId [97]) 5
  · rfl
  · decide +kernel
  · decide +kernel
  · decide +kernel

end Process

end WfcBtp
