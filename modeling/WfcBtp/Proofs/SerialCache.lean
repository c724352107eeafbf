import WfcBtp.Library.CriticalSections
import WfcBtp.Proofs.LockedCache

/-!
# Cache calls in one order

Every call of the key cache decides about names, ids and times in one section of the cache's
mutex, and changes points outside of it. So threads that share a cache get the ids, the sizes and
the names that one thread would get which makes all of their calls, in some order.
-/

namespace WfcBtp
open Library

variable {W : Wrtstat}

/-- A key cache without its points. -/
structure CacheIndex where
  options : KeyCacheOptions
  keyCounter : KeyId
  ids : OrderedMap Name KeyId
  timeKeySet : OrderedMultiset (ℤ ×ₗ Name)
  keyTimeMap : OrderedMap Name ℤ

namespace KeyCache

def index (c : KeyCache W) : CacheIndex where
  options := c.options
  keyCounter := c.keyCounter
  ids := c.keyMap.mapValues fun _ ka => ka.getId
  timeKeySet := c.timeKeySet
  keyTimeMap := c.keyTimeMap

/-! ### The calls on the index -/

section Index

variable {c c' : KeyCache W}

lemma index_find? (h : c.index = c'.index) (name : Name) :
    (c.keyMap.find? name).map KeyAggregator.getId = (c'.keyMap.find? name).map KeyAggregator.getId := by
  have hids := congrArg (fun i => i.ids.find? name) h
  simp only [index, OrderedMap.find?_mapValues] at hids
  exact hids

lemma getId_index (h : c.index = c'.index) (name : Name) : c.getId name = c'.getId name := by
  have hid : ∀ c : KeyCache W, c.getId name = ((c.keyMap.find? name).map KeyAggregator.getId).getD badKey := by
    intro c
    unfold getId
    cases c.keyMap.find? name with
    | none => rfl
    | some ka => rfl
  rw [hid, hid, index_find? h name]

lemma index_size (h : c.index = c'.index) : c.keyMap.size = c'.keyMap.size := by
  have hids := congrArg (fun i => i.ids.size) h
  simp only [index, OrderedMap.size_mapValues] at hids
  exact hids

/-- Caches with the same index differ in the points of their keys. -/
lemma exists_keyMap (h : c.index = c'.index) :
    ∃ m : OrderedMap Name (KeyAggregator W), c' = { c with keyMap := m } ∧
      m.mapValues (fun _ ka => ka.getId) = c.keyMap.mapValues fun _ ka => ka.getId := by
  cases c
  cases c'
  obtain ⟨rfl, rfl, hids, rfl, rfl⟩ := CacheIndex.mk.inj h
  exact ⟨_, rfl, hids.symm⟩

lemma updateTime_putMap (c : KeyCache W) (m : OrderedMap Name (KeyAggregator W)) (clock : ℤ) (name : Name) (now : ℤ) :
    { c with keyMap := m }.updateTime clock name now = { c.updateTime clock name now with keyMap := m } := by
  unfold updateTime
  dsimp only
  split_ifs
  · rfl
  all_goals split
  all_goals try split_ifs
  all_goals rfl

lemma updateTime_index (h : c.index = c'.index) (clock : ℤ) (name : Name) (now : ℤ) :
    (c.updateTime clock name now).index = (c'.updateTime clock name now).index := by
  obtain ⟨m, rfl, hm⟩ := exists_keyMap h
  rw [c.updateTime_putMap m]
  unfold index
  rw [hm, updateTime_keyMap]

/-- A key in place of one with its id. -/
lemma putKey_index {name : Name} {ka ka' : KeyAggregator W} (h : c.keyMap.find? name = some ka)
    (hid : ka'.getId = ka.getId) : (c.putKey name ka').index = c.index := by
  have hids : (c.keyMap.set name ka').mapValues (fun _ ka => ka.getId) = c.keyMap.mapValues fun _ ka => ka.getId := by
    rw [OrderedMap.mapValues_set, hid]
    ext1 name'
    rw [OrderedMap.find?_set, OrderedMap.find?_mapValues]
    split_ifs with hn
    · rw [hn, h, Option.map_some]
    · rfl
  unfold index putKey
  rw [hids]

lemma getOrCreate_index (h : c.index = c'.index) (clock : ℤ) (name : Name) (nowTs : ℤ) :
    (c.getOrCreate clock name nowTs).1.getId = (c'.getOrCreate clock name nowTs).1.getId ∧
      (c.getOrCreate clock name nowTs).2.index = (c'.getOrCreate clock name nowTs).2.index := by
  have hfind := index_find? h name
  unfold getOrCreate
  cases hc : c.keyMap.find? name with
  | some ka =>
    cases hc' : c'.keyMap.find? name with
    | some ka' =>
      rw [hc, hc', Option.map_some, Option.map_some] at hfind
      exact ⟨Option.some.inj hfind, updateTime_index h clock name 0⟩
    | none =>
      rw [hc, hc'] at hfind
      cases hfind
  | none =>
    cases hc' : c'.keyMap.find? name with
    | some ka' =>
      rw [hc, hc'] at hfind
      cases hfind
    | none =>
      obtain ⟨m, rfl, hm⟩ := exists_keyMap h
      refine ⟨rfl, updateTime_index ?_ clock name 0⟩
      unfold index
      rw [OrderedMap.mapValues_set, OrderedMap.mapValues_set, hm]
      rfl

/-- The key that a call finds or makes stays the one that its name has. -/
lemma getOrCreate_find?_self (c : KeyCache W) (clock : ℤ) (name : Name) (nowTs : ℤ) :
    (c.getOrCreate clock name nowTs).2.keyMap.find? name = some (c.getOrCreate clock name nowTs).1 := by
  rw [getOrCreate_find?, if_pos rfl, getOrCreate_fst]

lemma add_index (c : KeyCache W) (clock : ℤ) (name : Name) (data : AggregatedData) :
    (c.add clock name data).id = (c.getOrCreate clock name data.ts).1.getId ∧
      (c.add clock name data).cache.index = (c.getOrCreate clock name data.ts).2.index := by
  refine ⟨KeyAggregator.add_getId _ _ _, ?_⟩
  exact putKey_index (c.getOrCreate_find?_self clock name data.ts) (KeyAggregator.add_getId _ _ _)

lemma merge_index (c : KeyCache W) (clock : ℤ) (name : Name) {data : List AggregatedInfo} {d : AggregatedInfo}
    (hd : data.getLast? = some d) :
    (c.merge clock name data).id = (c.getOrCreate clock name d.ts).1.getId ∧
      (c.merge clock name data).cache.index = (c.getOrCreate clock name d.ts).2.index := by
  unfold merge
  rw [hd]
  refine ⟨KeyAggregator.merge_getId _ _ _, ?_⟩
  exact putKey_index (c.getOrCreate_find?_self clock name d.ts) (KeyAggregator.merge_getId _ _ _)

lemma insertNew_index (h : c.index = c'.index) {name : Name} {ka ka' : KeyAggregator W} (hid : ka.getId = ka'.getId) :
    (c.keyMap.insertNew name ka).2 = (c'.keyMap.insertNew name ka').2 ∧
      { c with keyMap := (c.keyMap.insertNew name ka).1 }.index =
        { c' with keyMap := (c'.keyMap.insertNew name ka').1 }.index := by
  have hfind := index_find? h name
  unfold OrderedMap.insertNew
  cases hc : c.keyMap.find? name with
  | some k =>
    cases hc' : c'.keyMap.find? name with
    | some k' => exact ⟨rfl, h⟩
    | none =>
      rw [hc, hc'] at hfind
      cases hfind
  | none =>
    cases hc' : c'.keyMap.find? name with
    | some k' =>
      rw [hc, hc'] at hfind
      cases hfind
    | none =>
      refine ⟨rfl, ?_⟩
      obtain ⟨m, rfl, hm⟩ := exists_keyMap h
      unfold index
      rw [OrderedMap.mapValues_set, OrderedMap.mapValues_set, hm, hid]

lemma erase_index (h : c.index = c'.index) (name : Name) :
    { c with keyMap := c.keyMap.erase name }.index = { c' with keyMap := c'.keyMap.erase name }.index := by
  obtain ⟨m, rfl, hm⟩ := exists_keyMap h
  unfold index
  rw [OrderedMap.mapValues_erase, OrderedMap.mapValues_erase, hm]

lemma sizesDiffer_index (h : c.index = c'.index) : c.sizesDiffer ↔ c'.sizesDiffer := by
  have hsize := index_size h
  obtain ⟨m, rfl, -⟩ := exists_keyMap h
  unfold sizesDiffer
  rw [hsize]

lemma gcLoop_index (l : List (ℤ ×ₗ Name)) (h : c.index = c'.index) (count : ℕ) :
    (c.gcLoop l count).1 = (c'.gcLoop l count).1 ∧ (c.gcLoop l count).2.index = (c'.gcLoop l count).2.index := by
  induction l generalizing c c' count with
  | nil => exact ⟨rfl, h⟩
  | cons p rest ih =>
    apply ih
    obtain ⟨m, rfl, hm⟩ := exists_keyMap h
    unfold index
    rw [OrderedMap.mapValues_erase, OrderedMap.mapValues_erase, hm]

lemma gc_index (h : c.index = c'.index) (clock : ℤ) :
    (c.gc clock).1 = (c'.gc clock).1 ∧ (c.gc clock).2.index = (c'.gc clock).2.index := by
  have hexpired : c.expired clock = c'.expired clock := by
    obtain ⟨m, rfl, -⟩ := exists_keyMap h
    rfl
  obtain ⟨hstate, hcount⟩ := c.gc_eq clock
  obtain ⟨hstate', hcount'⟩ := c'.gc_eq clock
  have hloop := (gcLoop_index (c.expired clock) h 0).2
  rw [hexpired] at hloop
  have hindex : (c.gc clock).2.index = (c'.gc clock).2.index := by
    rw [hstate, hstate', hexpired]
    exact hloop
  refine ⟨?_, hindex⟩
  rw [hcount, hcount', hexpired]
  exact if_congr (sizesDiffer_index hindex) rfl rfl

lemma del_index (h : c.index = c'.index) (name : Name) :
    (c.del name).1 = (c'.del name).1 ∧ (c.del name).2.index = (c'.del name).2.index := by
  have hfind := index_find? h name
  have herase := erase_index h name
  cases hc : c.keyMap.find? name with
  | none =>
    cases hc' : c'.keyMap.find? name with
    | none =>
      rw [del_of_none hc, del_of_none hc']
      exact ⟨rfl, h⟩
    | some k' =>
      rw [hc, hc'] at hfind
      cases hfind
  | some k =>
    cases hc' : c'.keyMap.find? name with
    | none =>
      rw [hc, hc'] at hfind
      cases hfind
    | some k' =>
      rw [hc, hc', Option.map_some, Option.map_some] at hfind
      have hid := Option.some.inj hfind
      obtain ⟨m, rfl, hm⟩ := exists_keyMap h
      unfold del
      simp only [hc, hc']
      by_cases hg : c.options.gcInterval = 0
      · simp only [hg, ne_eq, not_true, if_false]
        exact ⟨hid, herase⟩
      · simp only [hg, ne_eq, not_false_eq_true, if_true]
        cases c.keyTimeMap.find? name with
        | none => exact ⟨hid, herase⟩
        | some t =>
          let d : KeyCache W :=
            { c with
              keyMap := c.keyMap.erase name
              timeKeySet := c.timeKeySet.erase (toLex (t, name))
              keyTimeMap := c.keyTimeMap.erase name }
          have hindex : d.index = { d with keyMap := m.erase name }.index := by
            unfold index
            rw [OrderedMap.mapValues_erase, OrderedMap.mapValues_erase, hm]
          exact ⟨if_congr (sizesDiffer_index hindex) rfl hid, hindex⟩

lemma release_index (c : KeyCache W) : c.release.2.index = c.index := by
  have hids : (c.keyMap.mapValues fun _ ka => (ka.aggregateLastPointIf [] true).1).mapValues
      (fun _ ka => ka.getId) = c.keyMap.mapValues fun _ ka => ka.getId := by
    ext1 name
    rw [OrderedMap.find?_mapValues, OrderedMap.find?_mapValues, OrderedMap.find?_mapValues, Option.map_map]
    congr 1
    funext ka
    exact Storage.aggregateLastPointIf_getId ka [] true
  unfold release index
  rw [hids]

lemma release_stored (c : KeyCache W) :
    c.release.1.map (fun e => (e.1.id, e.1.name)) = c.index.ids.entries.map fun e => (e.2, e.1) := by
  unfold release index OrderedMap.mapValues
  rw [List.map_map, List.map_map]
  rfl

lemma selectNames_index (h : c.index = c'.index) (start ending : Name) (offset limit : ℕ) :
    c.selectNames start ending offset limit = c'.selectNames start ending offset limit := by
  have hnames : ∀ c : KeyCache W, c.selectNames start ending offset limit =
      selectLoop start ending (c.index.ids.lowerBound start) offset limit [] := by
    intro c
    unfold selectNames index
    rw [OrderedMap.lowerBound_mapValues, selectLoop_map start ending KeyAggregator.getId]
  rw [hnames, hnames, h]

/-- The counter after an id was seen. -/
def counted (c : KeyCache W) (id : KeyId) : KeyCache W := if c.keyCounter < id then { c with keyCounter := id } else c

lemma counted_index (h : c.index = c'.index) (id : KeyId) : (c.counted id).index = (c'.counted id).index := by
  obtain ⟨m, rfl, hm⟩ := exists_keyMap h
  unfold counted
  split_ifs
  · unfold index
    rw [hm]
  · exact h

/-- `init` with any key that has the id. -/
lemma init_index {v : KeyCache W} {info : StoredName} {ka : KeyAggregator W}
    (hv : v.index = (c.counted info.id).index) (hka : ka.getId = info.id) (clock : ℤ) :
    let updTime := info.lastUpdate.tdiv c.options.resolution
    let w := v.updateTime clock info.name (if updTime ≠ 0 then updTime else 1)
    (w.keyMap.insertNew info.name ka).2 = (c.init clock info).1 ∧
      { w with keyMap := (w.keyMap.insertNew info.name ka).1 }.index = (c.init clock info).2.index := by
  have hoptions : (c.counted info.id).options = c.options := by
    unfold counted
    split_ifs
    · rfl
    · rfl
  have hinit : c.init clock info =
      let now := info.lastUpdate.tdiv (c.counted info.id).options.resolution
      let w := (c.counted info.id).updateTime clock info.name (if now ≠ 0 then now else 1)
      let m := w.keyMap.insertNew info.name ((KeyAggregator.create ((c.counted info.id).getMutex info.id) info.id
        info.lastUpdate (c.counted info.id).options).setKeyInfo info.toStoredValues)
      (m.2, { w with keyMap := m.1 }) := rfl
  rw [hinit, hoptions]
  exact insertNew_index (updateTime_index hv clock info.name _) hka

end Index

end KeyCache

/-! ### What the mutex of the cache guards -/

/-- A shared cache without the points of its keys. -/
structure CacheFrame where
  options : KeyCacheOptions
  keyCounter : KeyId
  keyMap : OrderedMap Name KeyPtr
  timeKeySet : OrderedMultiset (ℤ ×ₗ Name)
  keyTimeMap : OrderedMap Name ℤ
  made : ℕ
  ids : ℕ → KeyId

namespace CacheFrame

/-- Keys that were made stay, with their ids. -/
def Grows (a b : CacheFrame) : Prop := a.made ≤ b.made ∧ ∀ x < a.made, b.ids x = a.ids x

/-- The pointer leads to a key with the id. -/
def Holds (a : CacheFrame) (p : KeyPtr) (id : KeyId) : Prop := p.address < a.made ∧ a.ids p.address = id

lemma Grows.refl (a : CacheFrame) : a.Grows a := ⟨le_rfl, fun _ _ => rfl⟩

lemma Grows.trans (a b c : CacheFrame) (hab : a.Grows b) (hbc : b.Grows c) : a.Grows c :=
  ⟨hab.1.trans hbc.1, fun x hx => (hbc.2 x (hx.trans_le hab.1)).trans (hab.2 x hx)⟩

lemma Holds.grows {a b : CacheFrame} {p : KeyPtr} {id : KeyId} (h : a.Holds p id) (hab : a.Grows b) : b.Holds p id :=
  ⟨h.1.trans_le hab.1, (hab.2 _ h.1).trans h.2⟩

end CacheFrame

namespace SharedCache

def frame (c : SharedCache W) : CacheFrame where
  options := c.options
  keyCounter := c.keyCounter
  keyMap := c.keyMap
  timeKeySet := c.timeKeySet
  keyTimeMap := c.keyTimeMap
  made := c.made
  ids := fun a => (c.keys a).getId

lemma index_of_frame {c c' : SharedCache W} (h : c.frame = c'.frame) : c.view.index = c'.view.index := by
  have hids : ∀ c : SharedCache W, c.view.index =
      ⟨c.frame.options, c.frame.keyCounter, c.frame.keyMap.mapValues fun _ p => c.frame.ids p.address,
        c.frame.timeKeySet, c.frame.keyTimeMap⟩ := by
    intro c
    have hmap : (c.keyMap.mapValues fun _ p => c.keys p.address).mapValues (fun _ ka => ka.getId) =
        c.keyMap.mapValues fun _ p => (c.keys p.address).getId := by
      ext1 name
      rw [OrderedMap.find?_mapValues, OrderedMap.find?_mapValues, OrderedMap.find?_mapValues, Option.map_map]
      rfl
    unfold view KeyCache.index
    rw [hmap]
    rfl
  rw [hids, hids, h]

lemma wellFormed_of_frame {c c' : SharedCache W} (h : c.frame = c'.frame) (hc : c.WellFormed) : c'.WellFormed := by
  have hmap : c.keyMap = c'.keyMap := congrArg CacheFrame.keyMap h
  have hmade : c.made = c'.made := congrArg CacheFrame.made h
  refine hc.of_fewer hmade.symm fun name p hp => ?_
  rw [hmap]
  exact hp

lemma Spare.of_frame {c c' : SharedCache W} {p : KeyPtr} {ka : KeyAggregator W} (h : c.Spare p ka)
    (hframe : c.frame = c'.frame) : c'.Spare p (c'.keys p.address) ∧ (c'.keys p.address).getId = ka.getId := by
  have hmap : c.keyMap = c'.keyMap := congrArg CacheFrame.keyMap hframe
  have hmade : c.made = c'.made := congrArg CacheFrame.made hframe
  have hid : (c.keys p.address).getId = (c'.keys p.address).getId :=
    congrFun (congrArg CacheFrame.ids hframe) p.address
  refine ⟨⟨wellFormed_of_frame hframe h.wellFormed, hmade ▸ h.made, fun name p' hp' => ?_, rfl⟩, ?_⟩
  · rw [← hmap] at hp'
    exact h.unused name p' hp'
  · rw [← hid, h.key]

/-- The frame of a well-formed cache with the index of the sequential one. -/
def Stands (a : CacheFrame) (k : KeyCache W) : Prop :=
  ∃ c : SharedCache W, c.frame = a ∧ c.WellFormed ∧ c.view.index = k.index

lemma stands_frame {c : SharedCache W} {k : KeyCache W} (h : Stands c.frame k) :
    c.WellFormed ∧ c.view.index = k.index := by
  obtain ⟨c', hframe, hwell, hindex⟩ := h
  exact ⟨wellFormed_of_frame hframe hwell, (index_of_frame hframe.symm).trans hindex⟩

/-- An access through a pointer that keeps the id. -/
lemma onKey_frame {α : Type} (p : KeyPtr) {f : KeyAggregator W → α × KeyAggregator W}
    (hf : ∀ ka, (f ka).2.getId = ka.getId) (c : SharedCache W) : (onKey p f c).2.frame = c.frame := by
  have hids : (fun a => (Function.update c.keys p.address (f (c.keys p.address)).2 a).getId) =
      fun a => (c.keys a).getId := by
    funext a
    by_cases ha : a = p.address
    · rw [ha, Function.update_self, hf]
    · rw [Function.update_of_ne ha]
  unfold frame onKey
  dsimp only
  rw [hids]

lemma updateTime_frame (c : SharedCache W) (clock : ℤ) (name : Name) (now : ℤ) :
    c.frame.Grows (c.updateTime clock name now).frame := by
  obtain ⟨⟨s, m, heq⟩, -⟩ := c.updateTime_eq clock name now
  rw [heq]
  exact CacheFrame.Grows.refl c.frame

lemma findOrMake_grows (c : SharedCache W) (clock : ℤ) (name : Name) (nowTs : ℤ) :
    c.frame.Grows (c.findOrMake clock name nowTs).2.frame := by
  unfold findOrMake
  cases c.keyMap.find? name with
  | some p => exact c.updateTime_frame clock name 0
  | none =>
    refine CacheFrame.Grows.trans _ _ _ ⟨Nat.le_succ _, fun x hx => ?_⟩ (updateTime_frame _ clock name 0)
    exact congrArg KeyAggregator.getId (Function.update_of_ne hx.ne _ c.keys)

lemma gcLoop_grows (l : List (ℤ ×ₗ Name)) (c : SharedCache W) (count : ℕ) :
    c.frame.Grows (c.gcLoop l count).2.frame := by
  induction l generalizing c count with
  | nil => exact CacheFrame.Grows.refl c.frame
  | cons p rest ih =>
    refine CacheFrame.Grows.trans _ _ _ ?_ (ih _ _)
    exact ⟨le_rfl, fun _ _ => rfl⟩

lemma collect_grows (clock : ℤ) (c : SharedCache W) : c.frame.Grows (c.collect clock).2.frame := by
  unfold collect
  split_ifs
  · exact CacheFrame.Grows.refl c.frame
  · cases c.timeKeySet.elems with
    | nil => exact CacheFrame.Grows.refl c.frame
    | cons p rest =>
      dsimp only
      split_ifs
      · exact CacheFrame.Grows.refl c.frame
      · exact gcLoop_grows _ c 0
      · exact gcLoop_grows _ c 0

lemma forget_grows (name : Name) (c : SharedCache W) : c.frame.Grows (c.forget name).2.frame := by
  unfold forget
  dsimp only
  split_ifs
  · cases c.keyTimeMap.find? name with
    | none => exact ⟨le_rfl, fun _ _ => rfl⟩
    | some t => exact ⟨le_rfl, fun _ _ => rfl⟩
  · exact ⟨le_rfl, fun _ _ => rfl⟩

end SharedCache

/-! ### The sections of the calls -/

/-- What of a result does not depend on points. -/
def CallResult.shown : CallResult → CallResult
  | .output r => .output { id := r.id }
  | .stored l => .stored (l.map fun e => ({ id := e.1.id, name := e.1.name }, []))
  | .sorted _ => .sorted none
  | r => r

/-- The mutex of the cache, with the calls as the operations. -/
def cacheSections (W : Wrtstat) :
    Sections (SharedCache W) CacheLock CacheFrame (KeyCache W) CacheCall CallResult where
  lock := .cache
  part := SharedCache.frame
  grows := CacheFrame.Grows
  refl := CacheFrame.Grows.refl
  trans := CacheFrame.Grows.trans
  stands := SharedCache.Stands
  serve k call := ((CacheCall.answer k call).1.shown, (CacheCall.answer k call).2)

abbrev CacheMode (W : Wrtstat) := Mode CacheFrame (KeyCache W) CacheCall

section Serving

variable {α : Type} {post : α → CacheMode W → List CallResult → Prop} {call : CacheCall} {rest todo : List CacheCall}
  {k : KeyCache W} {past now : CacheFrame} {results : List CallResult} {p : KeyPtr} {id : KeyId}

/-! #### Accesses -/

lemma serves_unlocked_outside {f : KeyAggregator W → α × KeyAggregator W} (hf : ∀ ka, (f ka).2.getId = ka.getId)
    (h : past.Holds p id)
    (hpost : ∀ ka now, ka.getId = id → now.Holds p id → post (f ka).1 (.outside todo now) results) :
    (cacheSections W).Serves post (p.unlocked f) (.outside todo past) results := by
  apply Sections.serves_touch_outside
  · exact SharedCache.onKey_frame p hf
  · intro s hs
    have hholds : s.frame.Holds p id := h.grows hs
    exact hpost (s.keys p.address) s.frame hholds.2 hholds

lemma serves_locking_outside {f : KeyAggregator W → α × KeyAggregator W} (hf : ∀ ka, (f ka).2.getId = ka.getId)
    (h : past.Holds p id)
    (hpost : ∀ ka now, ka.getId = id → now.Holds p id → post (f ka).1 (.outside todo now) results) :
    (cacheSections W).Serves post (p.locking f) (.outside todo past) results :=
  Sections.serves_locked_other (by simp [cacheSections]) (serves_unlocked_outside hf h hpost)

lemma serves_unlocked_inside {f : KeyAggregator W → α × KeyAggregator W} (hf : ∀ ka, (f ka).2.getId = ka.getId)
    (hpost : ∀ s : SharedCache W, s.frame = now → post (f (s.keys p.address)).1 (.inside call rest k now) results) :
    (cacheSections W).Serves post (p.unlocked f) (.inside call rest k now) results := by
  apply Sections.serves_touch_inside
  intro s hs
  have hframe : (cacheSections W).part (SharedCache.onKey p f s).2 = now := (SharedCache.onKey_frame p hf s).trans hs
  rw [hframe]
  exact ⟨CacheFrame.Grows.refl now, hpost s hs⟩

lemma serves_locking_inside {f : KeyAggregator W → α × KeyAggregator W} (hf : ∀ ka, (f ka).2.getId = ka.getId)
    (hpost : ∀ s : SharedCache W, s.frame = now → post (f (s.keys p.address)).1 (.inside call rest k now) results) :
    (cacheSections W).Serves post (p.locking f) (.inside call rest k now) results :=
  Sections.serves_locked_other (by simp [cacheSections]) (serves_unlocked_inside hf hpost)

lemma serves_inside {f : SharedCache W → α × SharedCache W} (hpost : ∀ s : SharedCache W, s.frame = now →
      s.frame.Grows (f s).2.frame ∧ post (f s).1 (.inside call rest k (f s).2.frame) results) :
    (cacheSections W).Serves post (SharedCache.inside f) (.inside call rest k now) results := by
  apply Sections.serves_touch_inside
  intro s hs
  rw [← hs]
  exact hpost s hs

lemma serves_read {f : SharedCache W → α}
    (hpost : ∀ s : SharedCache W, s.frame = now → post (f s) (.inside call rest k now) results) :
    (cacheSections W).Serves post (SharedCache.inside fun c => (f c, c)) (.inside call rest k now) results := by
  apply serves_inside
  intro s hs
  dsimp only
  rw [hs]
  exact ⟨CacheFrame.Grows.refl now, hpost s hs⟩

/-! #### Calls -/

/-- The call was served and has a result, or it has one without being served. -/
def Answered (W : Wrtstat) (call : CacheCall) (rest : List CacheCall) (results : List CallResult) (r : CallResult)
    (m : CacheMode W) (results' : List CallResult) : Prop :=
  (∃ now, m = .outside rest now ∧ results' = results ++ [r.shown]) ∨
    ∃ past, m = .outside (call :: rest) past ∧ results' = results ∧
      ∀ k : KeyCache W, CacheCall.answer k call = (r, k)

/-- The end of a section that served the call. -/
def SectionEnds (call : CacheCall) (rest : List CacheCall) (k : KeyCache W) (results : List CallResult)
    (r : CallResult) (m : CacheMode W) (results' : List CallResult) : Prop :=
  ∃ now, m = .inside call rest k now ∧ results' = results ∧ SharedCache.Stands now (CacheCall.answer k call).2 ∧
    r.shown = (CacheCall.answer k call).1.shown

/-- A call that is one section. -/
lemma serves_section {body : CacheProg W α} (result : α → CallResult)
    (h : ∀ a k, SharedCache.Stands a k → (cacheSections W).Serves
      (fun x m results' => SectionEnds call rest k results (result x) m results') body (.inside call rest k a) results) :
    (cacheSections W).Serves (Answered W call rest results) (do return result (← .locked .cache body))
      (.outside (call :: rest) past) results := by
  have hbody : (cacheSections W).Serves (fun x m results' => Answered W call rest results (result x) m results')
      (.locked .cache body) (.outside (call :: rest) past) results := by
    refine Sections.serves_locked fun a k _ hk => ?_
    refine (h a k hk).imp fun x m results' hx => ?_
    obtain ⟨now, rfl, rfl, hnow, hresult⟩ := hx
    exact ⟨now, rfl, rfl, hnow, .inl ⟨now, rfl, by rw [hresult]; rfl⟩⟩
  exact hbody.bind fun x m results' hx => hx

/-- The section that finds or makes a key. -/
lemma serves_getOrCreate {post : KeyPtr → CacheMode W → List CallResult → Prop} {clock : ℤ} {name : Name} {nowTs : ℤ}
    (hcall : ∀ k : KeyCache W, (CacheCall.answer k call).2.index = (k.getOrCreate clock name nowTs).2.index)
    (hpost : ∀ (k : KeyCache W) p now, now.Holds p (k.getOrCreate clock name nowTs).1.getId →
      post p (.outside rest now) (results ++ [(CacheCall.answer k call).1.shown])) :
    (cacheSections W).Serves post (SharedCache.getOrCreate clock name nowTs) (.outside (call :: rest) past) results := by
  refine Sections.serves_locked fun a k _ hk => serves_inside fun s hs => ?_
  rw [← hs] at hk
  obtain ⟨hwell, hindex⟩ := SharedCache.stands_frame hk
  have hpoints := SharedCache.findOrMake_points hwell clock name nowTs
  obtain ⟨hid, hlater⟩ := KeyCache.getOrCreate_index hindex clock name nowTs
  refine ⟨s.findOrMake_grows clock name nowTs, _, rfl, rfl, ⟨_, rfl, hpoints.wellFormed, ?_⟩, hpost k _ _ ⟨?_, ?_⟩⟩
  · rw [hpoints.view, hlater]
    exact (hcall k).symm
  · exact hpoints.wellFormed.made _ _ hpoints.find
  · exact (congrArg KeyAggregator.getId hpoints.key).trans hid

lemma serves_create (clock : ℤ) (name : Name) (nowTs : ℤ) :
    (cacheSections W).Serves (Answered W (.create clock name nowTs) rest results)
      (CacheCall.create clock name nowTs).prog (.outside (.create clock name nowTs :: rest) past) results := by
  have hcreate : (cacheSections W).Serves
      (fun id m results' => Answered W (.create clock name nowTs) rest results (.id id) m results')
      (SharedCache.create clock name nowTs) (.outside (.create clock name nowTs :: rest) past) results := by
    refine Sections.Serves.bind (serves_getOrCreate (fun k => rfl) fun k p now hp => ?_) fun p m results' hp => hp
    refine serves_unlocked_outside (fun ka => rfl) hp fun ka now hka _ => .inl ⟨now, rfl, ?_⟩
    rw [hka]
    rfl
  exact hcreate.bind fun id m results' hid => hid

lemma serves_add (clock : ℤ) (name : Name) (data : AggregatedData) :
    (cacheSections W).Serves (Answered W (.add clock name data) rest results)
      (CacheCall.add clock name data).prog (.outside (.add clock name data :: rest) past) results := by
  have hadd : (cacheSections W).Serves
      (fun r m results' => Answered W (.add clock name data) rest results (.output r) m results')
      (SharedCache.add clock name data) (.outside (.add clock name data :: rest) past) results := by
    refine Sections.Serves.bind (serves_getOrCreate (fun k => (k.add_index clock name data).2) fun k p now hp => ?_)
      fun p m results' hp => hp
    refine Sections.Serves.bind (serves_locking_outside (fun ka => KeyAggregator.add_getId ka data []) hp
      fun ka now _ hp => ?_) fun r m results' hr => hr
    have hkey : ∀ b : Bool, (cacheSections W).Serves
        (fun _ m results' => ∃ now, now.Holds p (k.getOrCreate clock name data.ts).1.getId ∧ m = .outside rest now ∧
          results' = results ++ [(CacheCall.answer k (.add clock name data)).1.shown])
        (if b then p.getKeyInfo else pure {} : CacheProg W StoredKey) (.outside rest now)
        (results ++ [(CacheCall.answer k (.add clock name data)).1.shown]) := by
      intro b
      cases b with
      | true => exact serves_locking_outside (fun ka => rfl) hp fun ka now _ hp => ⟨now, hp, rfl, rfl⟩
      | false => exact ⟨now, hp, rfl, rfl⟩
    refine (hkey _).bind fun upKey m results' hm => ?_
    obtain ⟨now, hp, rfl, rfl⟩ := hm
    refine Sections.Serves.bind (serves_unlocked_outside (fun ka => rfl) hp fun ka now hka _ => ?_)
      fun id m results' hid => hid
    refine .inl ⟨now, rfl, ?_⟩
    rw [hka, ← (k.add_index clock name data).1]
    rfl
  exact hadd.bind fun id m results' hid => hid

lemma serves_merge (clock : ℤ) (name : Name) (data : List AggregatedInfo) :
    (cacheSections W).Serves (Answered W (.merge clock name data) rest results)
      (CacheCall.merge clock name data).prog (.outside (.merge clock name data :: rest) past) results := by
  have hmerge : (cacheSections W).Serves
      (fun r m results' => Answered W (.merge clock name data) rest results (.output r) m results')
      (SharedCache.merge clock name data) (.outside (.merge clock name data :: rest) past) results := by
    unfold SharedCache.merge
    cases hd : data.getLast? with
    | none =>
      refine .inr ⟨past, rfl, rfl, fun k => ?_⟩
      simp only [CacheCall.answer, KeyCache.merge, hd]
    | some d =>
      refine Sections.Serves.bind (serves_getOrCreate (fun k => (k.merge_index clock name hd).2) fun k p now hp => ?_)
        fun p m results' hp => hp
      refine Sections.Serves.bind (serves_unlocked_outside (fun ka => KeyAggregator.merge_getId ka [] data) hp
        fun ka now _ hp => ?_) fun r m results' hr => hr
      refine Sections.Serves.bind (serves_locking_outside (fun ka => rfl) hp fun ka now _ hp => ?_)
        fun upKey m results' hr => hr
      refine Sections.Serves.bind (serves_unlocked_outside (fun ka => rfl) hp fun ka now hka _ => ?_)
        fun id m results' hid => hid
      refine .inl ⟨now, rfl, ?_⟩
      rw [hka, ← (k.merge_index clock name hd).1]
      rfl
  exact hmerge.bind fun id m results' hid => hid

lemma serves_size :
    (cacheSections W).Serves (Answered W .size rest results) CacheCall.size.prog (.outside (.size :: rest) past)
      results := by
  refine serves_section CallResult.number fun a k hk => serves_read fun s hs => ?_
  refine ⟨a, rfl, rfl, hk, ?_⟩
  rw [← hs] at hk
  have hsize := KeyCache.index_size (SharedCache.stands_frame hk).2
  exact congrArg CallResult.number ((s.keyMap.size_mapValues _).symm.trans hsize)

lemma serves_getId (name : Name) :
    (cacheSections W).Serves (Answered W (.getId name) rest results) (CacheCall.getId name).prog
      (.outside (.getId name :: rest) past) results := by
  refine serves_section CallResult.id fun a k hk => ?_
  refine Sections.Serves.bind (serves_read fun s hs => ?_) fun r m results' hr => hr
  cases hp : s.keyMap.find? name with
  | none =>
    refine ⟨a, rfl, rfl, hk, ?_⟩
    rw [← hs] at hk
    have hid := KeyCache.getId_index (SharedCache.stands_frame hk).2 name
    rw [KeyCache.getId, SharedCache.view_find?, hp] at hid
    exact congrArg CallResult.id hid
  | some p =>
    refine serves_unlocked_inside (fun ka => rfl) fun s' hs' => ⟨a, rfl, rfl, hk, ?_⟩
    rw [← hs'] at hk hs
    have hmap : s.keyMap = s'.keyMap := congrArg CacheFrame.keyMap hs
    have hid := KeyCache.getId_index (SharedCache.stands_frame hk).2 name
    rw [KeyCache.getId, SharedCache.view_find?, ← hmap, hp] at hid
    exact congrArg CallResult.id hid

lemma serves_gc (clock : ℤ) :
    (cacheSections W).Serves (Answered W (.gc clock) rest results) (CacheCall.gc clock).prog
      (.outside (.gc clock :: rest) past) results := by
  refine serves_section CallResult.number fun a k hk => serves_inside fun s hs => ?_
  rw [← hs] at hk
  obtain ⟨hwell, hindex⟩ := SharedCache.stands_frame hk
  obtain ⟨hcount, hview, hwell'⟩ := SharedCache.gc_agrees hwell clock
  obtain ⟨hcount', hindex'⟩ := KeyCache.gc_index hindex clock
  refine ⟨s.collect_grows clock, _, rfl, rfl, ⟨_, rfl, hwell', ?_⟩, congrArg CallResult.number (hcount.trans hcount')⟩
  exact (congrArg KeyCache.index hview).trans hindex'

lemma serves_del (name : Name) :
    (cacheSections W).Serves (Answered W (.del name) rest results) (CacheCall.del name).prog
      (.outside (.del name :: rest) past) results := by
  refine serves_section CallResult.id fun a k hk => ?_
  refine Sections.Serves.bind (serves_read fun s hs => ?_) fun r m results' hr => hr
  cases hp : s.keyMap.find? name with
  | none =>
    have hk' := hk
    rw [← hs] at hk'
    have hfind := KeyCache.index_find? (SharedCache.stands_frame hk').2 name
    rw [SharedCache.view_find?, hp] at hfind
    have hnone : k.keyMap.find? name = none := Option.map_eq_none_iff.mp hfind.symm
    have hdel : CacheCall.answer k (.del name) = (.id badKey, k) := by
      simp only [CacheCall.answer, KeyCache.del_of_none hnone]
    refine ⟨a, rfl, rfl, ?_, ?_⟩
    · rw [hdel]
      exact hk
    · rw [hdel]
  | some p =>
    refine Sections.Serves.bind (serves_unlocked_inside (fun ka => rfl) fun s₁ hs₁ => ?_) fun id m results' hid => hid
    refine Sections.Serves.bind (serves_inside fun s₂ hs₂ => ?_) fun agree m results' hagree => hagree
    rw [← hs₂] at hk hs hs₁
    have hmap : s.keyMap = s₂.keyMap := congrArg CacheFrame.keyMap hs
    have hid : (s₁.keys p.address).getId = (s₂.keys p.address).getId := congrFun (congrArg CacheFrame.ids hs₁) p.address
    obtain ⟨hwell, hindex⟩ := SharedCache.stands_frame hk
    obtain ⟨hdel, hwell'⟩ := SharedCache.forget_agrees hwell (hmap ▸ hp)
    obtain ⟨hid', hindex'⟩ := KeyCache.del_index hindex name
    rw [hdel] at hid' hindex'
    refine ⟨SharedCache.forget_grows name s₂, _, rfl, rfl, ⟨_, rfl, hwell', hindex'⟩, ?_⟩
    rw [← hid] at hid'
    exact congrArg CallResult.id hid'

lemma serves_init (clock : ℤ) (info : StoredName) :
    (cacheSections W).Serves (Answered W (.init clock info) rest results) (CacheCall.init clock info).prog
      (.outside (.init clock info :: rest) past) results := by
  refine serves_section CallResult.isNew fun a k hk => ?_
  refine Sections.Serves.bind (serves_inside fun s hs => ?_) fun p m results' hp => hp
  rw [← hs] at hk
  obtain ⟨hwell, hindex⟩ := SharedCache.stands_frame hk
  let c : SharedCache W := if s.keyCounter < info.id then { s with keyCounter := info.id } else s
  have hcounted : c.WellFormed ∧ c.view = s.view.counted info.id ∧ c.frame.made = s.frame.made ∧ c.keys = s.keys := by
    by_cases hid : s.keyCounter < info.id
    · have hid' : s.view.keyCounter < info.id := hid
      simp only [c, KeyCache.counted, if_pos hid, if_pos hid']
      exact ⟨hwell.of_fewer rfl fun _ _ h => h, rfl, rfl, trivial⟩
    · have hid' : ¬s.view.keyCounter < info.id := hid
      simp only [c, KeyCache.counted, if_neg hid, if_neg hid']
      exact ⟨hwell, trivial, trivial, trivial⟩
  obtain ⟨hwell₁, hview₁, hmade₁, hkeys₁⟩ := hcounted
  let ka : KeyAggregator W := KeyAggregator.create (c.getMutex info.id) info.id info.lastUpdate c.options
  obtain ⟨hspare, hsame⟩ := SharedCache.make_spare hwell₁ ka
  refine ⟨⟨?_, fun x hx => ?_⟩, ?_⟩
  · change s.frame.made ≤ c.frame.made + 1
    omega
  · change (Function.update c.keys c.made ka x).getId = (s.keys x).getId
    have hx' : x < c.made := by
      change x < c.frame.made
      rw [hmade₁]
      exact hx
    rw [Function.update_of_ne hx'.ne, hkeys₁]
  refine Sections.Serves.bind (serves_locking_inside (fun ka => rfl) fun s₂ hs₂ => ?_) fun _ m results' h => h
  refine serves_inside fun s₃ hs₃ => ?_
  obtain ⟨hspare₃, hid₃⟩ := hspare.of_frame hs₃.symm
  have hindex₃ : s₃.view.index = (k.counted info.id).index := by
    rw [SharedCache.index_of_frame hs₃]
    change (c.make ka).2.view.index = _
    rw [hsame, hview₁]
    exact KeyCache.counted_index hindex info.id
  have hresolution : s₃.options = k.options := by
    have hoptions : (k.counted info.id).options = k.options := by
      unfold KeyCache.counted
      split_ifs
      · rfl
      · rfl
    rw [← hoptions]
    exact congrArg CacheIndex.options hindex₃
  let updTime := info.lastUpdate.tdiv k.options.resolution
  have hview₃ := (s₃.updateTime_eq clock info.name (if updTime ≠ 0 then updTime else 1)).2
  obtain ⟨hnew, hinserted, hwell₄⟩ :=
    (hspare₃.updateTime clock info.name (if updTime ≠ 0 then updTime else 1)).insertNew info.name
  obtain ⟨hresult, hindex₄⟩ := KeyCache.init_index hindex₃ hid₃ clock
  rw [hview₃] at hnew hinserted
  have hgrows := s₃.updateTime_frame clock info.name (if updTime ≠ 0 then updTime else 1)
  dsimp only
  rw [hresolution]
  refine ⟨⟨hgrows.1, hgrows.2⟩, _, rfl, rfl, ⟨_, rfl, hwell₄, ?_⟩, congrArg CallResult.isNew (hnew.trans hresult)⟩
  rw [hinserted]
  exact hindex₄

lemma serves_releaseLoop (l : List (Name × KeyPtr)) :
    (cacheSections W).Serves
      (fun r m results' => m = .inside call rest k now ∧ results' = results ∧
        r.map (fun e => (e.1.id, e.1.name)) = l.map fun e => (now.ids e.2.address, e.1))
      (SharedCache.releaseLoop l) (.inside call rest k now) results := by
  induction l with
  | nil => exact ⟨rfl, rfl, rfl⟩
  | cons e rest' ih =>
    refine Sections.Serves.bind (serves_locking_inside (fun ka => rfl) fun s hs => ?_) fun ki m results' h => h
    refine Sections.Serves.bind (serves_locking_inside (fun ka => Storage.aggregateLastPointIf_getId ka [] true)
      fun s' hs' => ?_) fun points m results' h => h
    refine Sections.Serves.bind ih fun stored m results' h => ?_
    obtain ⟨rfl, rfl, hstored⟩ := h
    refine ⟨rfl, rfl, ?_⟩
    have hid : (s.keys e.2.address).getId = now.ids e.2.address := congrFun (congrArg CacheFrame.ids hs) e.2.address
    rw [List.map_cons, List.map_cons, hstored, ← hid]
    rfl

lemma serves_release :
    (cacheSections W).Serves (Answered W .release rest results) CacheCall.release.prog (.outside (.release :: rest) past)
      results := by
  refine serves_section CallResult.stored fun a k hk => ?_
  refine Sections.Serves.bind (serves_read fun s hs => ?_) fun r m results' hr => hr
  refine (serves_releaseLoop s.keyMap.entries).imp fun r m results' hr => ?_
  obtain ⟨rfl, rfl, hids⟩ := hr
  rw [← hs] at hids
  have hk' := hk
  rw [← hs] at hk'
  have hindex := (SharedCache.stands_frame hk').2
  have hstored : r.map (fun e => (e.1.id, e.1.name)) = k.release.1.map fun e => (e.1.id, e.1.name) := by
    rw [hids, k.release_stored, ← hindex]
    unfold KeyCache.index SharedCache.view OrderedMap.mapValues
    rw [List.map_map, List.map_map]
    rfl
  obtain ⟨c, hframe, hwell, hc⟩ := hk
  refine ⟨a, rfl, rfl, ⟨c, hframe, hwell, hc.trans k.release_index.symm⟩, ?_⟩
  have hshown : ∀ l : List (StoredName × List AggregatedInfo), (CallResult.stored l).shown =
      .stored ((l.map fun e => (e.1.id, e.1.name)).map fun e => ({ id := e.1, name := e.2 }, [])) := by
    intro l
    rw [List.map_map]
    rfl
  have hanswer : (CacheCall.answer k .release).1 = .stored k.release.1 := rfl
  rw [hanswer, hshown, hshown, hstored]

lemma serves_selectionLoop (start ending : Name) (power : Bool) (l : List (Name × KeyPtr))
    (selection : List (Name × AggregatedInfo)) :
    (cacheSections W).Serves (fun _ m results' => m = .inside call rest k now ∧ results' = results)
      (SharedCache.selectionLoop start ending power l selection) (.inside call rest k now) results := by
  induction l generalizing selection with
  | nil => exact ⟨rfl, rfl⟩
  | cons e rest' ih =>
    unfold SharedCache.selectionLoop
    split_ifs
    · exact ⟨rfl, rfl⟩
    · exact Sections.Serves.bind (serves_locking_inside (fun ka => rfl) fun s hs => ih _) fun ai m results' h => h
    · exact ih _

lemma serves_select (sort : SortFunction) (start ending : Name) (offset limit : ℕ) (by' : SortBy) (power : Bool) :
    (cacheSections W).Serves (Answered W (.select sort start ending offset limit by' power) rest results)
      (CacheCall.select sort start ending offset limit by' power).prog
      (.outside (.select sort start ending offset limit by' power :: rest) past) results := by
  refine serves_section (fun l => if by' = .nosort then CallResult.names l else CallResult.sorted l)
    fun a k hk => ?_
  refine Sections.Serves.bind (serves_read fun s hs => ?_) fun r m results' hr => hr
  have hanswer : CacheCall.answer k (.select sort start ending offset limit by' power) =
      (if by' = .nosort then .names (k.select sort start ending offset limit by' power)
        else .sorted (k.select sort start ending offset limit by' power), k) := rfl
  by_cases hby : by' = .nosort
  · have hk' := hk
    rw [← hs] at hk'
    have hnames := KeyCache.selectNames_index (SharedCache.stands_frame hk').2 start ending offset limit
    have hview : s.view.selectNames start ending offset limit =
        KeyCache.selectLoop start ending (s.keyMap.lowerBound start) offset limit [] := by
      unfold KeyCache.selectNames SharedCache.view
      rw [OrderedMap.lowerBound_mapValues, KeyCache.selectLoop_map start ending fun p : KeyPtr => s.keys p.address]
    rw [if_pos hby]
    refine ⟨a, rfl, rfl, hk, ?_⟩
    rw [hanswer, if_pos hby, if_pos hby, KeyCache.select, if_pos hby, ← hnames, hview]
  · have hends : ∀ l, SectionEnds (.select sort start ending offset limit by' power) rest k results
        (.sorted l) (.inside (.select sort start ending offset limit by' power) rest k a) results := by
      intro l
      refine ⟨a, rfl, rfl, hk, ?_⟩
      rw [hanswer, if_neg hby]
      rfl
    simp only [if_neg hby]
    refine (serves_selectionLoop start ending power _ []).bind fun selection m results' hm => ?_
    obtain ⟨rfl, rfl⟩ := hm
    split_ifs
    · exact hends _
    · exact hends _
    · exact hends _

lemma serves_call (call : CacheCall) (rest : List CacheCall) (past : CacheFrame) (results : List CallResult) :
    (cacheSections W).Serves (Answered W call rest results) call.prog (.outside (call :: rest) past) results := by
  cases call with
  | create clock name nowTs => exact serves_create clock name nowTs
  | size => exact serves_size
  | getId name => exact serves_getId name
  | add clock name data => exact serves_add clock name data
  | merge clock name data => exact serves_merge clock name data
  | init clock info => exact serves_init clock info
  | release => exact serves_release
  | gc clock => exact serves_gc clock
  | del name => exact serves_del name
  | select sort start ending offset limit by' power => exact serves_select sort start ending offset limit by' power

lemma serves_thread (calls : List CacheCall) (past : CacheFrame) (results : List CallResult) :
    (cacheSections W).Serves (fun r m results' => m.todo = [] ∧ results' = results ++ r.map CallResult.shown)
      (CacheCall.thread calls) (.outside calls past) results := by
  induction calls generalizing past results with
  | nil => exact ⟨rfl, (List.append_nil _).symm⟩
  | cons call rest ih =>
    refine (serves_call call rest past results).bind fun r m results' hr => ?_
    have hrest : ∀ now, (cacheSections W).Serves
        (fun r m results' => m.todo = [] ∧ results' = results ++ r.map CallResult.shown)
        (do pure (r :: (← CacheCall.thread rest))) (.outside rest now) (results ++ [r.shown]) := by
      intro now
      refine (ih now (results ++ [r.shown])).bind fun l m results' hl => ?_
      obtain ⟨htodo, rfl⟩ := hl
      refine ⟨htodo, ?_⟩
      rw [List.map_cons, List.append_assoc]
      rfl
    rcases hr with ⟨now, rfl, rfl⟩ | ⟨past, rfl, rfl, hanswer⟩
    · exact Sections.Serves.bind (Sections.serves_touch_outside (fun _ => rfl) fun s _ => hrest _) fun _ m results' h => h
    · refine Sections.Serves.bind (Sections.serves_touch_passing (fun _ => rfl) (fun k => ?_) fun s _ => hrest _)
        fun _ m results' h => h
      change ((CacheCall.answer k call).1.shown, (CacheCall.answer k call).2) = _
      rw [hanswer]

end Serving

/-! ### Threads -/

lemma served_eq_answers (order : List (ℕ × CacheCall)) (k : KeyCache W) :
    (cacheSections W).served k order =
      ((order.map Prod.fst).zip ((CacheCall.answers k (order.map Prod.snd)).1.map CallResult.shown),
        (CacheCall.answers k (order.map Prod.snd)).2) := by
  induction order generalizing k with
  | nil => rfl
  | cons e rest ih =>
    simp only [Sections.served, ih]
    rfl

/-- The threads' calls in one order, which explains their results and what is left in the cache. -/
structure SerialOrder (opt : KeyCacheOptions) (threads : List (List CacheCall))
    (t : Threads (SharedCache W) CacheLock (List CallResult)) (order : List (ℕ × CacheCall)) : Prop where
  calls : ∀ i, ofThread i order = threads[i]?.getD []
  index : t.shared.view.index = (CacheCall.answers (KeyCache.new opt : KeyCache W) (order.map Prod.snd)).2.index
  results : ∀ i results, t.progs[i]? = some (.done results) →
    results.map CallResult.shown = ofThread i ((order.map Prod.fst).zip
      ((CacheCall.answers (KeyCache.new opt : KeyCache W) (order.map Prod.snd)).1.map CallResult.shown))

lemma stands_new (opt : KeyCacheOptions) :
    SharedCache.Stands (SharedCache.new opt : SharedCache W).frame (KeyCache.new opt : KeyCache W) := by
  exact ⟨SharedCache.new opt, rfl, SharedCache.WellFormed.new opt, rfl⟩

/-- Threads that share a new cache come to an end, however their steps are interleaved, without
dividing by zero, and then there is an order of all their calls, which keeps the order of every
thread, in which the sequential key cache gives the same ids, sizes and names, and has the same
index at the end. -/
theorem CacheCall.threads_serialize (opt : KeyCacheOptions) (hopt : KeyCache.Restores opt)
    (threads : List (List CacheCall)) :
    Threads.Finishes Threads.Step (fun t => t.Done ∧ ∃ order, SerialOrder opt threads t order)
        (Threads.start (SharedCache.new opt : SharedCache W) (threads.map CacheCall.thread)) ∧
      ∀ t, Relation.ReflTransGen Threads.Step
        (Threads.start (SharedCache.new opt : SharedCache W) (threads.map CacheCall.thread)) t →
          KeyCache.Restores t.shared.options := by
  have hoptions : ∀ t, Relation.ReflTransGen Threads.Step
      (Threads.start (SharedCache.new opt : SharedCache W) (threads.map CacheCall.thread)) t →
        KeyCache.Restores t.shared.options := by
    intro t ht
    rw [CacheCall.threads_options ht]
    exact hopt
  refine ⟨?_, hoptions⟩
  refine (Threads.finishes_and_exclusive (CacheCall.threads_disciplined threads) (SharedCache.new opt)).1.imp fun t ht hdone => ⟨hdone, ?_⟩
  have hprogs : ∀ (i : ℕ) (p : CacheProg W (List CallResult)), (threads.map CacheCall.thread)[i]? = some p → (cacheSections W).Serves
      (Sections.AllServed fun (r : List CallResult) results => results = r.map CallResult.shown) p
      (.outside (threads[i]?.getD []) (SharedCache.new opt : SharedCache W).frame) [] := by
    intro i p hp
    rw [List.getElem?_map, Option.map_eq_some_iff] at hp
    obtain ⟨calls, hcalls, rfl⟩ := hp
    rw [hcalls]
    exact serves_thread calls _ []
  have hops : ∀ i : ℕ, (threads.map (CacheCall.thread (W := W)))[i]? = none → threads[i]?.getD [] = [] := by
    intro i hi
    rw [List.getElem?_map, Option.map_eq_none_iff] at hi
    rw [hi]
    rfl
  obtain ⟨order, hcalls, hstands, hresults⟩ := Sections.serial_of_done (stands_new opt) hprogs hops ht hdone
  rw [served_eq_answers] at hstands hresults
  exact ⟨order, hcalls, (SharedCache.stands_frame hstands).2, fun i results hi => (hresults i results hi).symm⟩

theorem CacheCall.threads_serialize_of_three :
    let opt : KeyCacheOptions := { gcInterval := 1, resolution := 1 }
    let threads : List (List CacheCall) := [[.add 0 [97] { ts := 7, count := 1 }, .del [97]],
      [.merge 0 [97] [{ ts := 5, count := 2 }], .getId [97]], [.gc 9, .size]]
    Threads.Finishes Threads.Step (fun t => t.Done ∧ ∃ order, SerialOrder opt threads t order)
      (Threads.start (SharedCache.new opt : SharedCache (Wrtstat.reference 5 false)) (threads.map CacheCall.thread)) := by
  intro opt threads
  exact (CacheCall.threads_serialize opt (by decide) threads).1

end WfcBtp
