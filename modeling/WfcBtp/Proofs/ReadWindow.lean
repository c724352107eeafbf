import WfcBtp.Proofs.DataRows

/-!
# The default read window

A read from time zero starts where the time to live ends. A time to live of zero is no limit
to the databases; to the read it is the present.
-/

namespace WfcBtp
open Library

variable {W : Wrtstat}

namespace DataStorage

/-- Every point is stored under the time it carries. -/
def CarriesTime (s : DataStorage) : Prop := ∀ id t p, s.point? id t = some p → p.ts = t

lemma exists_first_time (s : DataStorage) (id : KeyId) : ∃ t₀, ∀ t p, s.point? id t = some p → t₀ ≤ t :=
  exists_row_start _ _

end DataStorage

namespace Storage

/-- Where the time to live ends. -/
def windowStart (s : Storage W) (clock : ℤ) : ℤ := (clock - s.ttl) * s.resolution

/-- A point lives for the time to live, and for ever if that is zero. -/
def Live (s : Storage W) (clock t : ℤ) : Prop := 0 < s.ttl → s.windowStart clock ≤ t

/-- The live points of a name with their times, ascending. -/
structure IsLiveRow (s : Storage W) (clock : ℤ) (name : Name) (l : List (ℤ × AggregatedInfo)) : Prop where
  ascending : l.Pairwise (fun a b => a.1 < b.1)
  mem_iff : ∀ t p, (t, p) ∈ l ↔ s.Live clock t ∧ s.dataStorage.point? (s.keyCache.getId name) t = some p

def resultLimit (s : Storage W) (name : Name) : ℕ := (s.dataStorage.getDb (s.keyCache.getId name)).resultLimit

/-- A read without a time, an offset and a limit returns the live points up to the result
limit. -/
def ShowsLive (room : ℕ) (s : Storage W) (clock : ℤ) (name : Name) : Prop :=
  ∃ l, s.IsLiveRow clock name l ∧
    s.getReserving room clock name 0 0 0 = some (.ok ((l.take (s.resultLimit name)).map Prod.snd))

/-- The read returns: a `time_type` holds the start of the window, and there is room for as many
points as the result limit says. -/
def Returns (room : ℕ) (s : Storage W) (clock : ℤ) (name : Name) : Prop :=
  (Fits (clock - s.ttl) ∧ Fits (s.windowStart clock)) ∧ s.resultLimit name ≤ room

/-- The name is cached, the read returns, and no live point lies before the window. -/
def WindowCovers (room : ℕ) (s : Storage W) (clock : ℤ) (name : Name) : Prop :=
  s.keyCache.getId name ≠ badKey ∧ s.Returns room clock name ∧
    (0 < s.ttl ∨ s.resultLimit name = 0 ∨
      ∀ t < s.windowStart clock, s.dataStorage.point? (s.keyCache.getId name) t = none)

instance (room : ℕ) (s : Storage W) (clock : ℤ) (name : Name) : Decidable (s.Returns room clock name) := by
  unfold Returns
  infer_instance

lemma getReserving_default_guarded (room : ℕ) {s : Storage W} {name : Name} (hid : s.keyCache.getId name ≠ badKey)
    (clock : ℤ) :
    Guarded (s.getReserving room clock name 0 0 0) (s.Returns room clock name)
      (.ok (((s.dataStorage.points (s.keyCache.getId name) (s.windowStart clock)).take (s.resultLimit name)).map
        Prod.snd)) := by
  have hget := (DataStorage.get_eq s.dataStorage (s.keyCache.getId name) (s.windowStart clock) 0 0).1
  rw [List.drop_zero] at hget
  unfold getReserving
  rw [if_neg hid]
  have hstart : Guarded (s.defaultTime clock) (Fits (clock - s.ttl) ∧ Fits (s.windowStart clock)) (s.windowStart clock) :=
    (timeValue_guarded _).bind (timeValue_guarded _)
  have hread := s.dataStorage.getReserving_guarded room (s.keyCache.getId name) (s.windowStart clock) 0 0
  exact hstart.bind (hread.bind_of_eq_some (congrArg (fun l => some (Except.ok l)) hget))

lemma isLiveRow_of_ttl_pos {s : Storage W} (httl : 0 < s.ttl) (clock : ℤ) (name : Name) :
    s.IsLiveRow clock name (s.dataStorage.points (s.keyCache.getId name) (s.windowStart clock)) where
  ascending := DataStorage.points_ascending _ _ _
  mem_iff t p := by
    rw [DataStorage.mem_points_iff]
    exact and_congr_left fun _ => ⟨fun h _ => h, fun h => h httl⟩

/-- Without a time to live everything from some time on is all there is. -/
lemma isLiveRow_of_ttl_zero {s : Storage W} (httl : ¬0 < s.ttl) (clock : ℤ) {name : Name} {t₀ : ℤ}
    (hfirst : ∀ t p, s.dataStorage.point? (s.keyCache.getId name) t = some p → t₀ ≤ t) :
    s.IsLiveRow clock name (s.dataStorage.points (s.keyCache.getId name) t₀) where
  ascending := DataStorage.points_ascending _ _ _
  mem_iff t p := by
    rw [DataStorage.mem_points_iff]
    exact and_congr_left fun hp => ⟨fun _ hpos => absurd hpos httl, fun _ => hfirst t p hp⟩

lemma showsLive_of_windowCovers {room : ℕ} {s : Storage W} {clock : ℤ} {name : Name}
    (h : s.WindowCovers room clock name) : s.ShowsLive room clock name := by
  obtain ⟨hid, hreturns, hcases⟩ := h
  have hget := (getReserving_default_guarded room hid clock).eq_some hreturns
  by_cases httl : 0 < s.ttl
  · exact ⟨_, isLiveRow_of_ttl_pos httl clock name, hget⟩
  · rcases hcases.resolve_left httl with hlimit | hnone
    · obtain ⟨t₀, hfirst⟩ := s.dataStorage.exists_first_time (s.keyCache.getId name)
      refine ⟨_, isLiveRow_of_ttl_zero httl clock hfirst, ?_⟩
      rw [hget, hlimit, List.take_zero, List.take_zero]
    · have hfirst : ∀ t p, s.dataStorage.point? (s.keyCache.getId name) t = some p → s.windowStart clock ≤ t := by
        intro t p hp
        by_contra hlt
        rw [hnone t (not_le.mp hlt)] at hp
        exact absurd hp (Option.some_ne_none p).symm
      exact ⟨_, isLiveRow_of_ttl_zero httl clock hfirst, hget⟩

/-- The first point a read returns tells where it starts. -/
lemma windowCovers_of_showsLive {room : ℕ} {s : Storage W} {clock : ℤ} {name : Name}
    (htime : s.dataStorage.CarriesTime) (h : s.ShowsLive room clock name) : s.WindowCovers room clock name := by
  obtain ⟨l, hl, hget⟩ := h
  have hid : s.keyCache.getId name ≠ badKey := by
    intro hbad
    rw [getReserving, if_pos hbad] at hget
    exact absurd hget (by simp)
  have hguarded := getReserving_default_guarded room hid clock
  have hreturns : s.Returns room clock name := by
    rw [← hguarded.isSome_iff, hget]
    rfl
  refine ⟨hid, hreturns, ?_⟩
  by_contra hcases
  simp only [not_or, not_forall] at hcases
  obtain ⟨httl, hlimit, t, ht, hpoint⟩ := hcases
  obtain ⟨p, hp⟩ := Option.ne_none_iff_exists'.mp hpoint
  have hmem : (t, p) ∈ l := (hl.mem_iff t p).mpr ⟨fun hpos => absurd hpos httl, hp⟩
  rw [hguarded.eq_some hreturns] at hget
  have hvalues := Except.ok.inj (Option.some.inj hget)
  obtain ⟨n, hn⟩ := Nat.exists_eq_succ_of_ne_zero hlimit
  rw [hn] at hvalues
  cases l with
  | nil => exact List.not_mem_nil hmem
  | cons first rest =>
    have hle : first.1 ≤ t := by
      rcases List.mem_cons.mp hmem with heq | hrest
      · exact (congrArg Prod.fst heq).ge
      · exact (List.rel_of_pairwise_cons hl.ascending hrest).le
    cases hread : s.dataStorage.points (s.keyCache.getId name) (s.windowStart clock) with
    | nil =>
      rw [hread] at hvalues
      exact absurd hvalues (by simp)
    | cons read rest' =>
      rw [hread] at hvalues
      have hsnd : read.2 = first.2 := (List.cons.inj hvalues).1
      have hreadMem := (DataStorage.mem_points_iff _ _ _ read.1 read.2).mp (hread ▸ List.mem_cons_self)
      have hfirstMem := (hl.mem_iff first.1 first.2).mp List.mem_cons_self
      have hreadTime := htime _ _ _ hreadMem.2
      have hfirstTime := htime _ _ _ hfirstMem.2
      rw [hsnd, hfirstTime] at hreadTime
      omega

/-- The default window shows the live points if the read returns and there is a time to live, and
otherwise exactly if no point of the name lies before the present. -/
theorem shows_live_points_iff (room : ℕ) (s : Storage W) (clock : ℤ) (name : Name) :
    (s.WindowCovers room clock name → s.ShowsLive room clock name) ∧
      (s.dataStorage.CarriesTime → (s.ShowsLive room clock name ↔ s.WindowCovers room clock name)) :=
  ⟨showsLive_of_windowCovers, fun htime => ⟨windowCovers_of_showsLive htime, showsLive_of_windowCovers⟩⟩

/-- A storage in which the name has one point, at the time 3. -/
def withLatePoint (name : Name) (ttl : ℤ) : Storage (Wrtstat.reference 1 false) :=
  ([StorageCall.add 1 allOk name { ts := 20, count := 1 }, .add 1 allOk name { ts := 3, count := 1 }].foldl
    Process.step (Process.start (Wrtstat.reference 1 false) { keyCache := { resolution := 1 }, dataTtl := ttl }
      0 1 10)).storage

lemma carriesTime_withLatePoint : (withLatePoint [97] 50).dataStorage.CarriesTime := by
  intro id t p hp
  have hshard : (withLatePoint [97] 50).dataStorage.shard id = (withLatePoint [97] 50).dataStorage.shard 1 := by
    apply Fin.ext
    change id % 1 = 1 % 1
    rw [Nat.mod_one, Nat.mod_one]
  have hpoint : (withLatePoint [97] 50).dataStorage.point? id t =
      ((withLatePoint [97] 50).dataStorage.getDb 1).content.find? (toLex (id, t)) := by
    rw [DataStorage.point?, DataStorage.getDb, hshard, DataStorage.getDb]
  have hkeys : ((withLatePoint [97] 50).dataStorage.getDb 1).content.keys = [toLex (1, 3)] := rfl
  have hmem := (OrderedMap.mem_keys_iff _ _).mpr (Option.isSome_of_mem (hpoint ▸ hp))
  rw [hkeys, List.mem_singleton] at hmem
  obtain ⟨rfl, rfl⟩ : id = 1 ∧ t = 3 := Prod.ext_iff.mp hmem
  have hts : ((withLatePoint [97] 50).dataStorage.point? 1 3).map (·.ts) = some 3 := rfl
  rw [hp] at hts
  exact Option.some.inj hts

theorem shows_live_points_with_ttl :
    (withLatePoint [97] 50).ShowsLive 3000 30 [97] ∧ (withLatePoint [97] 50).Live 30 3 ∧
      (withLatePoint [97] 50).ShowsLive 3000 60 [97] ∧ ¬(withLatePoint [97] 50).Live 60 3 := by
  have hid : (withLatePoint [97] 50).keyCache.getId [97] ≠ badKey := by decide +kernel
  have httl : 0 < (withLatePoint [97] 50).ttl := by decide +kernel
  have hcovers : ∀ clock, (withLatePoint [97] 50).Returns 3000 clock [97] →
      (withLatePoint [97] 50).WindowCovers 3000 clock [97] := fun _ h => ⟨hid, h, .inl httl⟩
  have hlive : ¬(withLatePoint [97] 50).windowStart 60 ≤ 3 := by decide +kernel
  refine ⟨(shows_live_points_iff 3000 _ 30 [97]).1 (hcovers 30 (by decide +kernel)), fun _ => by decide +kernel, ?_,
    fun h => hlive (h httl)⟩
  exact ((shows_live_points_iff 3000 _ 60 [97]).2 carriesTime_withLatePoint).mpr (hcovers 60 (by decide +kernel))

/-- Without a time to live the point never expires, and the default window leaves it out. -/
theorem default_window_hides_live_point :
    (withLatePoint [97] 0).keyCache.getId [97] = 1 ∧ (withLatePoint [97] 0).dataStorage.point? 1 3 ≠ none ∧
      (withLatePoint [97] 0).Live 30 3 ∧ (withLatePoint [97] 0).getReserving 3000 30 [97] 0 0 0 = some (.ok []) ∧
      ¬(withLatePoint [97] 0).ShowsLive 3000 30 [97] := by
  have hid : (withLatePoint [97] 0).keyCache.getId [97] = 1 := by decide +kernel
  have hpoint : (withLatePoint [97] 0).dataStorage.point? 1 3 ≠ none := by decide +kernel
  have hlive : (withLatePoint [97] 0).Live 30 3 := fun h => absurd h (by decide +kernel)
  have hget : (withLatePoint [97] 0).getReserving 3000 30 [97] 0 0 0 = some (.ok []) := by decide +kernel
  have hlimit : (withLatePoint [97] 0).resultLimit [97] ≠ 0 := by decide +kernel
  refine ⟨hid, hpoint, hlive, hget, ?_⟩
  rintro ⟨l, hl, hshown⟩
  rw [hget] at hshown
  have htake := List.map_eq_nil_iff.mp (Except.ok.inj (Option.some.inj hshown)).symm
  have hnil := (List.take_eq_nil_iff.mp htake).resolve_left hlimit
  obtain ⟨p, hp⟩ := Option.ne_none_iff_exists'.mp hpoint
  have hmem := (hl.mem_iff 3 p).mpr ⟨hlive, hid.symm ▸ hp⟩
  rw [hnil] at hmem
  exact List.not_mem_nil hmem

end Storage

end WfcBtp
