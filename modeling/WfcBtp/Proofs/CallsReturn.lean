import WfcBtp.Model.Reserving
import WfcBtp.Proofs.Divisions
import WfcBtp.Proofs.Frames

/-!
# Calls that return

With mutexes, memory for the result limit, and times that 64 bits hold, every call of a client
returns, and answers what the unchecked call does.
-/

namespace WfcBtp
open Library

namespace Storage

variable {W : Wrtstat} {room : ℕ}

/-- The call returns, with the answer that `reply` has. -/
def Answers (room : ℕ) (s : Storage W) (c : ClientCall) : Prop := s.reply? room c = some (s.reply c)

/-- What is assumed of the options and the calls. Only a read from the start of the time to live
computes a time. -/
structure Bounded (room : ℕ) (opt : StorageOptions) (resultLimit : ℕ) (calls : List ClientCall) : Prop where
  mutexHash : opt.keyCache.mutexHash ≠ 0
  resultLimit : resultLimit ≤ room
  times : ∀ clock name offset limit, .get clock name 0 offset limit ∈ calls →
    Fits (clock - opt.dataTtl) ∧ Fits ((clock - opt.dataTtl) * opt.keyCache.resolution)

/-- The settings of an open storage. -/
structure Settings (opt : StorageOptions) (resultLimit : ℕ) (s : Storage W) : Prop where
  options : s.keyCache.options = opt.keyCache
  ttl : s.ttl = opt.dataTtl
  resolution : s.resolution = opt.keyCache.resolution
  resultLimit : ∀ id, (s.dataStorage.getDb id).resultLimit = resultLimit

namespace Settings

variable {opt : StorageOptions} {resultLimit : ℕ} {s : Storage W}

lemma fresh (W : Wrtstat) (opt : StorageOptions) (clock : ℤ) (hashSize resultLimit : ℕ) :
    Settings opt resultLimit (Storage.fresh W opt clock hashSize resultLimit) :=
  ⟨fresh_options opt clock hashSize resultLimit, rfl, rfl, fun _ => rfl⟩

lemma reply (h : Settings opt resultLimit s) (c : ClientCall) : Settings opt resultLimit (s.reply c).2 := by
  have hlimit : ∀ (c : StorageCall) (id : KeyId),
      (((⟨s, false⟩ : Process W).call c).2.storage.dataStorage.getDb id).resultLimit = resultLimit := by
    intro c id
    rw [Process.call_dataStorage, DataStorage.foldl_write_resultLimit]
    exact h.resultLimit id
  cases c with
  | add clock ok name data =>
    obtain ⟨httl, hresolution⟩ := s.add_times clock ok name data
    exact ⟨(s.add_options clock ok name data).trans h.options, httl.trans h.ttl, hresolution.trans h.resolution,
      hlimit (.add clock ok name data)⟩
  | merge clock ok name data =>
    obtain ⟨-, httl, hresolution⟩ := s.merge_settings clock ok name data
    refine ⟨?_, httl.trans h.ttl, hresolution.trans h.resolution, hlimit (.merge clock ok name data)⟩
    by_cases hdata : data = []
    · subst hdata
      exact h.options
    · exact (s.merge_options ok hdata).trans h.options
  | del ok name =>
    obtain ⟨httl, hresolution, -⟩ := s.del_times ok name
    refine ⟨?_, httl.trans h.ttl, hresolution.trans h.resolution, hlimit (.del ok name)⟩
    change (s.del ok name).2.keyCache.options = _
    rw [del_keyCache, (KeyCache.del_keyCounter _ _).2, h.options]
  | get clock name ts offset limit => exact h
  | gc clock => exact ⟨(KeyCache.gc_options _ _).trans h.options, h.ttl, h.resolution, h.resultLimit⟩

/-- A read computes its time and reserves the result limit, and does not fail at either. -/
lemma getReserving_eq (h : Settings opt resultLimit s) (hroom : resultLimit ≤ room) (clock : ℤ) (name : Name) (ts : ℤ)
    (offset limit : ℕ)
    (hts : ts = 0 → Fits (clock - opt.dataTtl) ∧ Fits ((clock - opt.dataTtl) * opt.keyCache.resolution)) :
    s.getReserving room clock name ts offset limit = some (s.get clock name ts offset limit) := by
  have htime : (if ts = 0 then s.defaultTime clock else some ts) =
      some (if ts = 0 then (clock - s.ttl) * s.resolution else ts) := by
    by_cases hzero : ts = 0
    · obtain ⟨hlive, hstart⟩ := hts hzero
      rw [← h.ttl] at hlive hstart
      rw [← h.resolution] at hstart
      rw [if_pos hzero, if_pos hzero]
      have htwo := (timeValue_guarded (clock - s.ttl)).bind (f := fun live => timeValue (live * s.resolution))
        (timeValue_guarded ((clock - s.ttl) * s.resolution))
      exact htwo.eq_some ⟨hlive, hstart⟩
    · rw [if_neg hzero, if_neg hzero]
  unfold getReserving get
  by_cases hid : s.keyCache.getId name = badKey
  · simp only [hid, if_true]
  · simp only [hid, if_false, htime]
    have hread := s.dataStorage.getReserving_guarded room (s.keyCache.getId name)
      (if ts = 0 then (clock - s.ttl) * s.resolution else ts) offset limit
    rw [Option.bind_eq_bind, Option.bind_some, hread.eq_some ((h.resultLimit _).trans_le hroom)]
    rfl

lemma answers (h : Settings opt resultLimit s) {calls : List ClientCall} (hbounded : Bounded room opt resultLimit calls)
    {c : ClientCall} (hc : c ∈ calls) : s.Answers room c := by
  have hmutex : s.keyCache.options.mutexHash ≠ 0 := by
    rw [h.options]
    exact hbounded.mutexHash
  cases c with
  | add clock ok name data => exact ((s.add?_guarded clock ok name data).map _).eq_some (.inr hmutex)
  | merge clock ok name data => exact ((s.merge?_guarded clock ok name data).map _).eq_some (.inr (.inr hmutex))
  | del ok name =>
    rw [Answers, reply?, del?_eq]
    rfl
  | get clock name ts offset limit =>
    rw [Answers, reply?, h.getReserving_eq hbounded.resultLimit]
    · rfl
    · rintro rfl
      exact hbounded.times clock name offset limit hc
  | gc clock => rfl

end Settings

/-- Every call returns, in whatever order they come. -/
lemma Bounded.run_answers {opt : StorageOptions} {resultLimit : ℕ} {calls : List ClientCall}
    (h : Bounded room opt resultLimit calls) (W : Wrtstat) (clock : ℤ) (hashSize : ℕ) :
    RunMeets (fun s c => (s.reply c).2) (Answers room) (fresh W opt clock hashSize resultLimit) calls := by
  have hrun : ∀ (l : List ClientCall) (s : Storage W), (∀ c ∈ l, c ∈ calls) → Settings opt resultLimit s →
      RunMeets (fun s c => (s.reply c).2) (Answers room) s l := by
    intro l
    induction l with
    | nil => exact fun _ _ _ => trivial
    | cons c rest ih =>
      intro s hl hs
      exact ⟨hs.answers h (hl c List.mem_cons_self),
        ih _ (fun c' hc' => hl c' (List.mem_cons_of_mem c hc')) (hs.reply c)⟩
  exact hrun calls _ (fun _ hc => hc) (Settings.fresh W opt clock hashSize resultLimit)

end Storage

end WfcBtp
