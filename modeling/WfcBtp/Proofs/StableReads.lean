import WfcBtp.Library.GrowingRows
import WfcBtp.Library.Runs
import WfcBtp.Proofs.AttemptTable

/-!
# Reading page after page

A client reads the points of a name in pages while others go on adding data. As long as the data are
not late, what it has read stays where it was: only the point of the open period may still change.
-/

namespace WfcBtp
open Library

variable {W : Wrtstat}

/-! ### The times of the points that an add hands on -/

namespace KeyAggregator

variable {opened : W.Aggregator → Option ℕ} {ka : KeyAggregator W} {d : AggregatedData}

lemma current_le_of_on_time (hA : W.AlignsTime) (haligned : W.Aligned ka.aggregator) (hts : d.ts ≠ 0)
    (hon : ¬ka.isLate d.ts) : W.currentTime ka.aggregator ≤ W.getTs d.ts := by
  have hnot : W.currentTime ka.aggregator ≤ d.ts := not_lt.mp fun hlt => hon ⟨hts, hlt⟩
  have hmono := hA.getTs_mono _ _ hnot
  rwa [haligned] at hmono

/-- They are between the periods before and after the add. -/
lemma add_times_of_on_time (hA : W.AlignsTime) (hS : W.SumsCounts opened) (haligned : W.Aligned ka.aggregator)
    (hts : d.ts ≠ 0) (hon : ¬ka.isLate d.ts) :
    W.currentTime (ka.add d []).1.aggregator = W.getTs d.ts ∧
      ∀ p ∈ (ka.add d []).2.1, W.currentTime ka.aggregator ≤ p.ts ∧ p.ts ≤ W.getTs d.ts := by
  have hfts : (fillData d).ts = d.ts := congrArg ReducedInfo.ts (fillData_toReducedInfo d)
  have hle := current_le_of_on_time hA haligned hts hon
  have htime : W.currentTime (W.push ka.aggregator (fillData d)).2 = W.getTs d.ts := by
    rcases hle.eq_or_lt with hcur | hcur
    · rw [(hS.push_current ka.aggregator (fillData d) (by rw [hfts, hcur])).2.1, hcur]
    · rw [(hS.push_later ka.aggregator (fillData d) (by rwa [hfts])).2.1, hfts]
  obtain ⟨hreports, hcurrent, -⟩ := hS.aggregateCurrent (W.push ka.aggregator (fillData d)).2
  rw [htime] at hreports hcurrent
  rw [add_of_not_late hon]
  constructor
  · simp only [currentAggregator]
    split_ifs
    · exact hcurrent
    · exact htime
  · intro p hp
    simp only [currentPoints, List.nil_append, List.mem_map, List.mem_append] at hp
    obtain ⟨ag, hag | hag, rfl⟩ := hp
    · rcases hle.eq_or_lt with hcur | hcur
      · rw [(hS.push_current ka.aggregator (fillData d) (by rw [hfts, hcur])).1] at hag
        exact absurd hag List.not_mem_nil
      · obtain ⟨⟨r, hr, hlist⟩, -⟩ := hS.push_later ka.aggregator (fillData d) (by rwa [hfts])
        rw [hlist, Option.mem_toList] at hag
        rw [hag] at hr
        change W.currentTime ka.aggregator ≤ ag.ts ∧ ag.ts ≤ W.getTs d.ts
        rw [hr.2]
        exact ⟨le_rfl, hle⟩
    · split_ifs at hag
      · rw [Option.mem_toList] at hag
        rw [hag] at hreports
        change W.currentTime ka.aggregator ≤ ag.ts ∧ ag.ts ≤ W.getTs d.ts
        rw [hreports.2]
        exact ⟨hle, le_rfl⟩
      · exact absurd hag List.not_mem_nil

end KeyAggregator

/-- Nothing is merged into the name, and the data that are added to it have a time. -/
def ClientCall.AddsOnly (name : Name) : ClientCall → Prop
  | .add _ _ other data => other = name → data.ts ≠ 0
  | .merge _ _ other _ => other ≠ name
  | .del _ _ => True
  | .get _ _ _ _ _ => True
  | .gc _ => True

namespace Storage

/-! ### What an add does to the points of its name -/

lemma point?_incAll_cases (ok : Outcomes) (id : KeyId) (ds : List AggregatedInfo) (i : ℕ) (s : DataStorage) (t : ℤ) :
    (incAll W ok id ds i s).2.point? id t = s.point? id t ∨
      ∃ p ∈ ds, p.ts = t ∧ ((incAll W ok id ds i s).2.point? id t).isSome := by
  induction ds generalizing i s with
  | nil => exact .inl rfl
  | cons d rest ih =>
    rw [incAll]
    cases ok i with
    | false =>
      rw [DataStorage.inc_false]
      exact .inl rfl
    | true =>
      rcases ih (i + 1) (s.inc W true id d).2 with h | ⟨p, hp, hts, h⟩
      · rw [DataStorage.point?_inc] at h
        split_ifs at h with ht
        · refine .inr ⟨d, List.mem_cons_self, ht.2.symm, ?_⟩
          exact Option.isSome_iff_exists.mpr ⟨_, h⟩
        · exact .inl h
      · exact .inr ⟨p, List.mem_cons_of_mem d hp, hts, h⟩

lemma add_point_cases {s : Storage W} {name : Name} (hid : s.keyId name ≠ badKey) (clock : ℤ) (ok : Outcomes)
    (data : AggregatedData) (t : ℤ) :
    (s.add clock ok name data).2.dataStorage.point? (s.keyId name) t = s.dataStorage.point? (s.keyId name) t ∨
      ∃ p ∈ (s.addKey name data).2.1, p.ts = t ∧
        ((s.add clock ok name data).2.dataStorage.point? (s.keyId name) t).isSome := by
  have hset : ∀ {a b : Option AggregatedInfo}, (a = b ∨ ∃ p ∈ (s.addKey name data).2.1, p.ts = t ∧ a = some p) →
      a = b ∨ ∃ p ∈ (s.addKey name data).2.1, p.ts = t ∧ a.isSome := by
    rintro a b (h | ⟨p, hp, hts, h⟩)
    · exact .inl h
    · exact .inr ⟨p, hp, hts, by rw [h]; rfl⟩
  unfold add
  rw [add_result]
  simp only [hid, if_false]
  split_ifs
  · rw [storeKeyAndData]
    cases ok 0 with
    | false => exact .inl rfl
    | true => exact hset (point?_setAll_cases _ _ _ _ _ t)
  · exact hset (point?_setAll_cases _ _ _ _ _ t)
  · exact point?_incAll_cases _ _ _ _ _ t

/-! ### The open period is the last one -/

/-- No point of the key is after its open period. -/
structure UpTo (ka : KeyAggregator W) (pts : Points) : Prop where
  aligned : W.Aligned ka.aggregator
  le_current : ∀ t, (pts t).isSome → t ≤ W.currentTime ka.aggregator

/-- So it is with the key of the name, if it is cached. -/
def Ahead (name : Name) (s : Storage W) : Prop :=
  ∀ ka, s.keyCache.keyMap.find? name = some ka → UpTo ka (s.dataStorage.point? ka.getId)

section

variable {opened : W.Aggregator → Option ℕ} {n : ℕ} {s s₁ : Storage W} {name : Name}

lemma Ahead.keyOrNew (hA : W.AlignsTime) (hS : W.SumsCounts opened) (hs : Separate n s) (h : Ahead name s) (ts : ℤ) :
    UpTo (s.keyCache.keyOrNew name ts) (s.dataStorage.point? (s.keyId name)) := by
  cases hk : s.keyCache.keyMap.find? name with
  | some ka =>
    rw [KeyCache.keyOrNew_of_some ts hk, keyId_of_some hk]
    exact h ka hk
  | none =>
    rw [KeyCache.keyOrNew_of_none ts hk]
    refine ⟨?_, fun t ht => ?_⟩
    · change W.getTs (W.currentTime (W.create ts)) = W.currentTime (W.create ts)
      rw [hS.currentTime_create, hA.getTs_idem]
    · rw [hs.points_none hk] at ht
      cases ht

lemma Ahead.frame (hs : Separate n s) (h : Ahead name s) {other : Name} (hf : Frame other s s₁) (hne : name ≠ other) :
    Ahead name s₁ := by
  intro ka hk
  rw [hf.find name hne] at hk
  rw [hf.point? hs hk hne]
  exact h ka hk

/-- An add keeps it so, and if its data are not late only what is at the open period may change. -/
lemma UpTo.add (hA : W.AlignsTime) (hS : W.SumsCounts opened) (hC : W.CombinesCounts) (hid : s.keyId name ≠ badKey)
    (clock : ℤ) (ok : Outcomes) {data : AggregatedData} (hts : data.ts ≠ 0)
    (h : UpTo (s.keyCache.keyOrNew name data.ts) (s.dataStorage.point? (s.keyId name))) :
    let s₁ := (s.add clock ok name data).2
    UpTo (s.addKey name data).1 (s₁.dataStorage.point? (s.keyId name)) ∧
      (¬(s.keyCache.keyOrNew name data.ts).isLate data.ts →
        W.currentTime (s.keyCache.keyOrNew name data.ts).aggregator ≤ W.currentTime (s.addKey name data).1.aggregator ∧
        GrowsFrom (W.currentTime (s.keyCache.keyOrNew name data.ts).aggregator) (s.dataStorage.point? (s.keyId name))
          (s₁.dataStorage.point? (s.keyId name))) := by
  intro s₁
  have hcases := add_point_cases hid clock ok data
  unfold addKey at hcases ⊢
  generalize s.keyCache.keyOrNew name data.ts = ka at h hcases ⊢
  by_cases hlate : ka.isLate data.ts
  · -- the late point is before the open period
    have hlt : W.getTs data.ts < W.currentTime ka.aggregator := (hA.getTs_le data.ts).trans_lt hlate.2
    rw [KeyAggregator.add_of_late hlate] at hcases ⊢
    refine ⟨⟨h.aligned, fun t ht => ?_⟩, fun hon => absurd hlate hon⟩
    rcases hcases t with hsame | ⟨p, hp, hpts, -⟩
    · rw [hsame] at ht
      exact h.le_current t ht
    · rw [List.nil_append, List.mem_singleton] at hp
      rw [← hpts, hp, KeyAggregator.latePoint_ts hC]
      exact hlt.le
  · obtain ⟨htime, hpoints⟩ := ka.add_times_of_on_time hA hS h.aligned hts hlate
    have hle := KeyAggregator.current_le_of_on_time hA h.aligned hts hlate
    refine ⟨⟨?_, fun t ht => ?_⟩, fun _ => ⟨htime ▸ hle, fun t ht => ?_, fun t ht => ?_⟩⟩
    · rw [Wrtstat.Aligned, htime, hA.getTs_idem]
    · rw [htime]
      rcases hcases t with hsame | ⟨p, hp, hpts, -⟩
      · rw [hsame] at ht
        exact (h.le_current t ht).trans hle
      · rw [← hpts]
        exact (hpoints p hp).2
    · rcases hcases t with hsame | ⟨p, hp, hpts, -⟩
      · exact hsame
      · rw [← hpts] at ht
        exact absurd (hpoints p hp).1 ht.not_ge
    · rcases hcases t with hsame | ⟨-, -, -, hsome⟩
      · rwa [hsame]
      · exact hsome

end

section

variable {opened : W.Aggregator → Option ℕ} {n : ℕ} {s s₁ s₂ : Storage W} {name : Name}

lemma Ahead.reply (hA : W.AlignsTime) (hS : W.SumsCounts opened) (hC : W.CombinesCounts) (hs : Separate (n + 1) s)
    (h : Ahead name s) {c : ClientCall} (hc : c.AddsOnly name) : Ahead name (s.reply c).2 := by
  cases c with
  | add clock ok other data =>
    by_cases hname : other = name
    · subst hname
      intro ka hk
      rw [Storage.reply, add_find?, if_pos rfl] at hk
      cases hk
      rw [addKey_getId]
      exact (UpTo.add hA hS hC (hs.keyId_ne_badKey other) clock ok (hc rfl) (h.keyOrNew hA hS hs data.ts)).1
    · exact h.frame hs (frame_add hs clock ok other data) (Ne.symm hname)
  | merge clock ok other data => exact h.frame hs (frame_merge hs clock ok other data) (Ne.symm hc)
  | del ok other =>
    by_cases hname : other = name
    · subst hname
      intro ka hk
      rw [Storage.reply, del_keyCache, KeyCache.del_find?, if_pos rfl] at hk
      cases hk
    · exact h.frame hs (frame_del hs ok other) (Ne.symm hname)
  | get clock other ts offset limit => exact h
  | gc clock =>
    intro ka hk
    have hfind := KeyCache.gc_find? s.keyCache clock name
    change (s.keyCache.gc clock).2.keyMap.find? name = some ka at hk
    rw [hfind] at hk
    split_ifs at hk
    exact h ka hk

lemma Ahead.run (hA : W.AlignsTime) (hS : W.SumsCounts opened) (hC : W.CombinesCounts) (calls : List ClientCall)
    (hs : Separate (calls.length + n) s) (h : Ahead name s) (hcalls : ∀ c ∈ calls, c.AddsOnly name) :
    Separate n (afterInputs Storage.reply s calls) ∧ Ahead name (afterInputs Storage.reply s calls) := by
  induction calls generalizing s with
  | nil =>
    rw [List.length_nil, Nat.zero_add] at hs
    exact ⟨hs, h⟩
  | cons c rest ih =>
    rw [List.length_cons, Nat.add_right_comm] at hs
    exact ih (hs.reply c) (h.reply hA hS hC hs (hcalls c List.mem_cons_self))
      fun c' hc => hcalls c' (List.mem_cons_of_mem c hc)

/-! ### Calls while a client reads -/

/-- The name stays, nothing is merged into it, and data that are added to it are not late. -/
def KeepsReads (name : Name) (s : Storage W) : ClientCall → Prop
  | .add _ _ other data => other = name → data.ts ≠ 0 ∧ ¬(s.keyCache.keyOrNew name data.ts).isLate data.ts
  | .merge _ _ other _ => other ≠ name
  | .del _ other => other ≠ name
  | .get _ _ _ _ _ => True
  | .gc clock => ((s.gc clock).2.keyCache.keyMap.find? name).isSome

instance (name : Name) (s : Storage W) : ∀ c, Decidable (KeepsReads name s c)
  | .add _ _ other data =>
    inferInstanceAs (Decidable (other = name → data.ts ≠ 0 ∧ ¬(s.keyCache.keyOrNew name data.ts).isLate data.ts))
  | .merge _ _ other _ => inferInstanceAs (Decidable (other ≠ name))
  | .del _ other => inferInstanceAs (Decidable (other ≠ name))
  | .get _ _ _ _ _ => inferInstanceAs (Decidable True)
  | .gc clock => inferInstanceAs (Decidable (((s.gc clock).2.keyCache.keyMap.find? name).isSome = true))

/-- From the first state to the second only what is at the open period of the first may change. -/
structure ReadsOn (name : Name) (s s₁ : Storage W) : Prop where
  key : ∃ ka ka₁, s.keyCache.keyMap.find? name = some ka ∧ s₁.keyCache.keyMap.find? name = some ka₁ ∧
    ka₁.getId = ka.getId ∧ W.currentTime ka.aggregator ≤ W.currentTime ka₁.aggregator ∧
    GrowsFrom (W.currentTime ka.aggregator) (s.dataStorage.point? ka.getId) (s₁.dataStorage.point? ka.getId)
  resultLimit : ∀ id, (s₁.dataStorage.getDb id).resultLimit = (s.dataStorage.getDb id).resultLimit

namespace ReadsOn

lemma refl (hknown : (s.keyCache.keyMap.find? name).isSome) : ReadsOn name s s where
  key := by
    obtain ⟨ka, hk⟩ := Option.isSome_iff_exists.mp hknown
    exact ⟨ka, ka, hk, hk, rfl, le_rfl, .refl _ _⟩
  resultLimit _ := rfl

lemma trans (h : ReadsOn name s s₁) (h' : ReadsOn name s₁ s₂) : ReadsOn name s s₂ where
  key := by
    obtain ⟨ka, ka₁, hk, hk₁, hid, hle, hgrows⟩ := h.key
    obtain ⟨ka₁', ka₂, hk₁', hk₂, hid', hle', hgrows'⟩ := h'.key
    obtain rfl : ka₁ = ka₁' := Option.some.inj (hk₁.symm.trans hk₁')
    rw [hid] at hgrows'
    exact ⟨ka, ka₂, hk, hk₂, hid'.trans hid, hle.trans hle', hgrows.trans hgrows' hle⟩
  resultLimit id := (h'.resultLimit id).trans (h.resultLimit id)

lemma known (h : ReadsOn name s s₁) : (s₁.keyCache.keyMap.find? name).isSome := by
  obtain ⟨-, ka₁, -, hk₁, -⟩ := h.key
  rw [hk₁]
  rfl

/-- Calls on other names change nothing. -/
lemma frame (hs : Separate n s) (hknown : (s.keyCache.keyMap.find? name).isSome) {other : Name}
    (hf : Frame other s s₁) (hne : name ≠ other) : ReadsOn name s s₁ where
  key := by
    obtain ⟨ka, hk⟩ := Option.isSome_iff_exists.mp hknown
    refine ⟨ka, ka, hk, (hf.find name hne).trans hk, rfl, le_rfl, ?_⟩
    rw [hf.point? hs hk hne]
    exact .refl _ _
  resultLimit id := by
    obtain ⟨writes, hwrites, -⟩ := hf.data
    rw [hwrites, DataStorage.foldl_write_resultLimit]

lemma reply (hA : W.AlignsTime) (hS : W.SumsCounts opened) (hC : W.CombinesCounts) (hs : Separate (n + 1) s)
    (h : Ahead name s) (hknown : (s.keyCache.keyMap.find? name).isSome) {c : ClientCall} (hc : KeepsReads name s c) :
    ReadsOn name s (s.reply c).2 := by
  cases c with
  | add clock ok other data =>
    have hf := frame_add hs clock ok other data
    by_cases hname : other = name
    · subst hname
      obtain ⟨hts, hon⟩ := hc rfl
      obtain ⟨ka, hk⟩ := Option.isSome_iff_exists.mp hknown
      have hadd := UpTo.add hA hS hC (hs.keyId_ne_badKey other) clock ok hts (h.keyOrNew hA hS hs data.ts)
      have hkey : s.keyCache.keyOrNew other data.ts = ka := KeyCache.keyOrNew_of_some _ hk
      have hid : s.keyId other = ka.getId := keyId_of_some hk
      obtain ⟨hle, hgrows⟩ := hadd.2 hon
      rw [hkey] at hle hgrows
      rw [hid] at hgrows
      refine ⟨⟨ka, (s.addKey other data).1, hk, ?_, (addKey_getId s other data).trans hid, hle, hgrows⟩, fun id => ?_⟩
      · rw [Storage.reply, add_find?, if_pos rfl]
      · obtain ⟨writes, hwrites, -⟩ := hf.data
        rw [Storage.reply, hwrites, DataStorage.foldl_write_resultLimit]
    · exact frame hs hknown hf (Ne.symm hname)
  | merge clock ok other data => exact frame hs hknown (frame_merge hs clock ok other data) (Ne.symm hc)
  | del ok other => exact frame hs hknown (frame_del hs ok other) (Ne.symm hc)
  | get clock other ts offset limit => exact refl hknown
  | gc clock =>
    obtain ⟨ka, hk⟩ := Option.isSome_iff_exists.mp hc
    have hfind := KeyCache.gc_find? s.keyCache clock name
    have hkept : (s.keyCache.gc clock).2.keyMap.find? name = some ka := hk
    rw [hfind] at hkept
    split_ifs at hkept
    exact ⟨⟨ka, ka, hkept, hk, rfl, le_rfl, .refl _ _⟩, fun _ => rfl⟩

lemma run (hA : W.AlignsTime) (hS : W.SumsCounts opened) (hC : W.CombinesCounts) (calls : List ClientCall)
    (hs : Separate (calls.length + n) s) (h : Ahead name s) (hknown : (s.keyCache.keyMap.find? name).isSome)
    (hcalls : RunMeets (fun s c => (Storage.reply s c).2) (KeepsReads name) s calls) :
    ReadsOn name s (afterInputs Storage.reply s calls) := by
  induction calls generalizing s with
  | nil => exact refl hknown
  | cons c rest ih =>
    rw [List.length_cons, Nat.add_right_comm] at hs
    have hfirst := reply hA hS hC hs h hknown hcalls.1
    have hadds : c.AddsOnly name := by
      cases c with
      | add clock ok other data => exact fun hname => (hcalls.1 hname).1
      | merge clock ok other data => exact hcalls.1
      | del ok other => trivial
      | get clock other ts offset limit => trivial
      | gc clock => trivial
    exact hfirst.trans (ih (hs.reply c) (h.reply hA hS hC hs hadds) hfirst.known hcalls.2)

/-- What was read is read again, but for the last point, and no fewer points are read. -/
lemma get_again (hs : Separate n s) (h : Ahead name s) (hon : ReadsOn name s s₁) {ts : ℤ} (hts : ts ≠ 0)
    (clock clock₁ : ℤ) (offset limit : ℕ) {read : List AggregatedInfo}
    (hread : s.get clock name ts offset limit = .ok read) :
    ∃ read₁, s₁.get clock₁ name ts offset limit = .ok read₁ ∧ read.dropLast <+: read₁ ∧
      read.length ≤ read₁.length := by
  obtain ⟨ka, ka₁, hk, hk₁, hid, -, hgrows⟩ := hon.key
  have hne : ka.getId ≠ badKey := ((hs.id_le name ka hk).trans_lt hs.keyCounter_lt).ne
  have hget : ∀ (s : Storage W) clock, s.keyCache.getId name = ka.getId →
      s.get clock name ts offset limit = .ok (s.dataStorage.get ka.getId ts offset limit) := by
    intro s clock hname
    rw [Storage.get, hname, if_neg hne, if_neg hts]
  have hrow := fun (s : DataStorage) t p => s.mem_points_iff ka.getId ts t p
  obtain ⟨hagain, hlength⟩ := hgrows.page_again (h ka hk).le_current (s.dataStorage.points_ascending ka.getId ts)
    (s₁.dataStorage.points_ascending ka.getId ts) (hrow s.dataStorage) (hrow s₁.dataStorage) offset
    (DataStorage.window limit (s.dataStorage.getDb ka.getId).resultLimit)
  rw [hget s clock (KeyCache.getId_of_some hk)] at hread
  refine ⟨_, hget s₁ clock₁ ((KeyCache.getId_of_some hk₁).trans hid), ?_⟩
  rw [← Except.ok.inj hread, (DataStorage.get_eq s.dataStorage _ _ _ _).1,
    (DataStorage.get_eq s₁.dataStorage _ _ _ _).1, hon.resultLimit, ← List.map_dropLast, List.length_map, List.length_map]
  exact ⟨hagain.map Prod.snd, hlength⟩

end ReadsOn

/-- Whatever was added to a name before, and however late it was: every call returns, and what a
client then reads of it is read again after any further calls that keep the name and add no late
data to it, in the same places and but for the last point, whatever the calls on other names and
whichever writes fail. -/
theorem reads_repeat (hA : W.AlignsTime) (hS : W.SumsCounts opened) (hC : W.CombinesCounts) (opt : StorageOptions)
    (clock : ℤ) (hashSize resultLimit : ℕ) (name : Name) (before later : List ClientCall)
    (hids : (before ++ later).length < badKey) (hbefore : ∀ c ∈ before, c.AddsOnly name) {s s₁ : Storage W}
    (hs : s = afterInputs reply (fresh W opt clock hashSize resultLimit) before) (hs₁ : s₁ = afterInputs reply s later)
    (hlater : RunMeets (fun s c => (reply s c).2) (KeepsReads name) s later) {ts : ℤ} (hts : ts ≠ 0)
    (clock' clock₁ : ℤ) (offset limit : ℕ) {read : List AggregatedInfo}
    (hread : s.get clock' name ts offset limit = .ok read) {room : ℕ}
    (hbounded : Bounded room opt resultLimit (before ++ later)) :
    RunMeets (fun s c => (s.reply c).2) (Answers room) (fresh W opt clock hashSize resultLimit) (before ++ later) ∧
      ∃ read₁, s₁.get clock₁ name ts offset limit = .ok read₁ ∧ read.dropLast <+: read₁ ∧
        read.length ≤ read₁.length := by
  refine ⟨hbounded.run_answers W clock hashSize, ?_⟩
  rw [List.length_append] at hids
  obtain ⟨hseparate, hahead⟩ := Ahead.run hA hS hC (n := later.length) before
    (Separate.fresh W opt clock hashSize resultLimit hids) (fun ka hk => absurd hk (by simp)) hbefore
  rw [← hs] at hseparate hahead
  have hknown : (s.keyCache.keyMap.find? name).isSome := by
    cases hk : s.keyCache.keyMap.find? name with
    | some ka => rfl
    | none =>
      have hid : s.keyCache.getId name = badKey := by simp [KeyCache.getId, hk]
      rw [Storage.get, if_pos hid] at hread
      cases hread
  have hon := ReadsOn.run hA hS hC (n := 0) later hseparate hahead hknown hlater
  rw [← hs₁] at hon
  exact hon.get_again hseparate hahead hts clock' clock₁ offset limit hread

/-- The second of the later adds returns false after it has closed the period that was open at the
first read. -/
theorem reads_repeat_after_failure :
    let W := Wrtstat.reference 5 false
    let opt : StorageOptions := { keyCache := { aggregateLastPoint := true, resolution := 1 } }
    let before : List ClientCall := [.add 0 allOk [97] { ts := 12, count := 1 },
      .add 0 allOk [97] { ts := 7, count := 2 }, .add 0 allOk [97] { ts := 17, count := 3 }]
    let later : List ClientCall := [.add 0 allOk [97] { ts := 18, count := 4 },
      .add 0 (fun i => decide (i < 2)) [97] { ts := 23, count := 5 }, .add 0 allOk [98] { ts := 3, count := 5 },
      .del allOk [98], .gc 3, .add 0 allOk [97] { ts := 24, count := 6 }]
    let s := afterInputs reply (fresh W opt 0 4 10) before
    let s₁ := afterInputs reply s later
    ∃ read read₁, s.get 0 [97] 1 0 0 = .ok read ∧ s₁.get 9 [97] 1 0 0 = .ok read₁ ∧
      read.map (fun p => (p.ts, p.count)) = [(5, 2), (10, 1), (15, 3)] ∧
      read₁.map (fun p => (p.ts, p.count)) = [(5, 2), (10, 1), (15, 7), (20, 11)] ∧ read.dropLast <+: read₁ := by
  intro W opt before later s s₁
  have hcounts : (s.get 0 [97] 1 0 0).map (·.map fun p => (p.ts, p.count)) = .ok [(5, 2), (10, 1), (15, 3)] := by
    decide +kernel
  have hcounts₁ : (s₁.get 9 [97] 1 0 0).map (·.map fun p => (p.ts, p.count)) =
      .ok [(5, 2), (10, 1), (15, 7), (20, 11)] := by
    decide +kernel
  cases hread : s.get 0 [97] 1 0 0 with
  | error e =>
    rw [hread] at hcounts
    cases hcounts
  | ok read =>
    obtain ⟨-, read₁, hread₁, hprefix, -⟩ := reads_repeat (Wrtstat.reference_alignsTime (by omega) false)
      (Wrtstat.reference_sumsCounts 5 false) (Wrtstat.reference_combinesCounts 5 false) opt 0 4 10 [97] before later
      (by decide) (by simp [before, ClientCall.AddsOnly]) rfl rfl (by decide +kernel) (by decide) 0 9 0 0 hread
      ⟨by decide, le_refl 10, fun clock name offset limit hmem => by simp [before, later] at hmem⟩
    rw [hread] at hcounts
    rw [hread₁] at hcounts₁
    exact ⟨read, read₁, rfl, hread₁, Except.ok.inj hcounts, Except.ok.inj hcounts₁, hprefix⟩

end

end Storage

end WfcBtp
