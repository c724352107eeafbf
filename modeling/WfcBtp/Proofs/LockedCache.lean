import WfcBtp.Model.LockedCache
import WfcBtp.Model.WrtstatReference
import WfcBtp.Proofs.Divisions
import WfcBtp.Proofs.Reopening

/-!
# Threads on the key cache

However many threads call the cache, they all get through, and no two of them are in a key at
once unless one of them merges. A thread that has the cache for itself gets what the sequential
key cache returns.
-/

namespace WfcBtp
open Library

variable {W : Wrtstat}

/-! ### The order of the locks -/

/-- The mutex of the cache comes before those of the keys. -/
def CacheLock.rank : CacheLock → ℕ
  | .cache => 0
  | .key _ => 1

section Discipline

variable {held : List CacheLock}

lemma KeyPtr.locking_disciplined {α : Type} (p : KeyPtr) (f : KeyAggregator W → α × KeyAggregator W)
    (h : ∀ l ∈ held, l = .cache) : (p.locking f).Disciplined CacheLock.rank held held := by
  apply Prog.Disciplined.locked
  · intro l hl
    rw [h l hl]
    exact Nat.zero_lt_one
  · apply Prog.disciplined_touch
    intro l hl
    rw [Option.mem_some_iff] at hl
    rw [← hl]
    exact List.mem_cons_self

lemma KeyPtr.unlocked_disciplined {α : Type} (p : KeyPtr) (f : KeyAggregator W → α × KeyAggregator W) :
    (p.unlocked f).Disciplined CacheLock.rank held held :=
  Prog.disciplined_touch (fun l hl => by cases hl) _

lemma SharedCache.inside_disciplined {α : Type} (f : SharedCache W → α × SharedCache W) :
    (SharedCache.inside f).Disciplined CacheLock.rank [.cache] [.cache] := by
  apply Prog.disciplined_touch
  intro l hl
  rw [Option.mem_some_iff] at hl
  rw [← hl]
  exact List.mem_cons_self

/-- A call with the mutex of the cache as its first lock. -/
lemma locked_cache_disciplined {α : Type} {p : CacheProg W α} (hp : p.Disciplined CacheLock.rank [.cache] [.cache]) :
    (Prog.locked .cache p).Disciplined CacheLock.rank [] [] :=
  Prog.Disciplined.locked (fun _ hl => absurd hl List.not_mem_nil) hp

end Discipline

namespace SharedCache

lemma nothing_held : ∀ l ∈ ([] : List CacheLock), l = .cache := fun _ hl => absurd hl List.not_mem_nil

lemma cache_held : ∀ l ∈ [CacheLock.cache], l = .cache := fun _ hl => List.mem_singleton.mp hl

lemma getOrCreate_disciplined (clock : ℤ) (name : Name) (nowTs : ℤ) :
    (getOrCreate clock name nowTs : CacheProg W KeyPtr).Disciplined CacheLock.rank [] [] :=
  locked_cache_disciplined (inside_disciplined _)

lemma create_disciplined (clock : ℤ) (name : Name) (nowTs : ℤ) :
    (create clock name nowTs : CacheProg W KeyId).Disciplined CacheLock.rank [] [] :=
  (getOrCreate_disciplined clock name nowTs).bind fun p => p.unlocked_disciplined _

lemma getId_disciplined (name : Name) : (getId name : CacheProg W KeyId).Disciplined CacheLock.rank [] [] := by
  apply locked_cache_disciplined
  refine (inside_disciplined _).bind fun r => ?_
  cases r with
  | some p => exact p.unlocked_disciplined _
  | none => exact Prog.disciplined_pure _

lemma add_disciplined (clock : ℤ) (name : Name) (data : AggregatedData) :
    (add clock name data : CacheProg W CacheOutput).Disciplined CacheLock.rank [] [] := by
  refine (getOrCreate_disciplined clock name data.ts).bind fun p => ?_
  refine (p.locking_disciplined _ nothing_held).bind fun r => ?_
  have hkey : (if r.2 = true then p.getKeyInfo else pure {} : CacheProg W StoredKey).Disciplined CacheLock.rank [] [] := by
    split_ifs
    · exact p.locking_disciplined _ nothing_held
    · exact Prog.disciplined_pure _
  exact hkey.bind fun upKey => (p.unlocked_disciplined _).bind fun id => Prog.disciplined_pure _

lemma merge_disciplined (clock : ℤ) (name : Name) (data : List AggregatedInfo) :
    (merge clock name data : CacheProg W CacheOutput).Disciplined CacheLock.rank [] [] := by
  unfold merge
  cases data.getLast? with
  | none => exact Prog.disciplined_pure _
  | some d =>
    refine (getOrCreate_disciplined clock name d.ts).bind fun p => ?_
    refine (p.unlocked_disciplined _).bind fun upData => ?_
    refine (p.locking_disciplined _ nothing_held).bind fun upKey => ?_
    exact (p.unlocked_disciplined _).bind fun id => Prog.disciplined_pure _

lemma init_disciplined (clock : ℤ) (info : StoredName) :
    (init clock info : CacheProg W Bool).Disciplined CacheLock.rank [] [] := by
  apply locked_cache_disciplined
  refine (inside_disciplined _).bind fun p => ?_
  exact (p.locking_disciplined _ cache_held).bind fun _ => inside_disciplined _

lemma releaseLoop_disciplined (l : List (Name × KeyPtr)) :
    (releaseLoop l : CacheProg W _).Disciplined CacheLock.rank [.cache] [.cache] := by
  induction l with
  | nil => exact Prog.disciplined_pure _
  | cons e rest ih =>
    refine (e.2.locking_disciplined _ cache_held).bind fun ki => ?_
    refine (e.2.locking_disciplined _ cache_held).bind fun points => ?_
    exact ih.bind fun stored => Prog.disciplined_pure _

lemma del_disciplined (name : Name) : (del name : CacheProg W KeyId).Disciplined CacheLock.rank [] [] := by
  apply locked_cache_disciplined
  refine (inside_disciplined _).bind fun r => ?_
  cases r with
  | none => exact Prog.disciplined_pure _
  | some p =>
    refine (p.unlocked_disciplined _).bind fun id => ?_
    exact (inside_disciplined _).bind fun agree => Prog.disciplined_pure _

lemma selectionLoop_disciplined (start ending : Name) (power : Bool) (l : List (Name × KeyPtr))
    (selection : List (Name × AggregatedInfo)) :
    (selectionLoop start ending power l selection : CacheProg W _).Disciplined CacheLock.rank [.cache] [.cache] := by
  induction l generalizing selection with
  | nil => exact Prog.disciplined_pure _
  | cons e rest ih =>
    unfold selectionLoop
    split_ifs
    · exact Prog.disciplined_pure _
    · exact (e.2.locking_disciplined _ cache_held).bind fun ai => ih _
    · exact ih _

lemma select_disciplined (sort : SortFunction) (start ending : Name) (offset limit : ℕ) (by' : SortBy) (power : Bool) :
    (select sort start ending offset limit by' power : CacheProg W _).Disciplined CacheLock.rank [] [] := by
  apply locked_cache_disciplined
  refine (inside_disciplined _).bind fun entries => ?_
  split_ifs
  · exact Prog.disciplined_pure _
  · refine (selectionLoop_disciplined _ _ _ _ _).bind fun selection => ?_
    split_ifs
    · exact Prog.disciplined_pure _
    · exact Prog.disciplined_pure _

end SharedCache

namespace CacheCall

open SharedCache

lemma prog_disciplined (c : CacheCall) : (c.prog : CacheProg W CallResult).Disciplined CacheLock.rank [] [] := by
  cases c with
  | create clock name nowTs => exact (create_disciplined clock name nowTs).bind fun _ => Prog.disciplined_pure _
  | size => exact (locked_cache_disciplined (inside_disciplined _)).bind fun _ => Prog.disciplined_pure _
  | getId name => exact (getId_disciplined name).bind fun _ => Prog.disciplined_pure _
  | add clock name data => exact (add_disciplined clock name data).bind fun _ => Prog.disciplined_pure _
  | merge clock name data => exact (merge_disciplined clock name data).bind fun _ => Prog.disciplined_pure _
  | init clock info => exact (init_disciplined clock info).bind fun _ => Prog.disciplined_pure _
  | release =>
    have hloop := locked_cache_disciplined (W := W) ((inside_disciplined fun c => (c.keyMap.entries, c)).bind
      releaseLoop_disciplined)
    exact hloop.bind fun _ => Prog.disciplined_pure _
  | gc clock => exact (locked_cache_disciplined (inside_disciplined _)).bind fun _ => Prog.disciplined_pure _
  | del name => exact (del_disciplined name).bind fun _ => Prog.disciplined_pure _
  | select sort start ending offset limit by' power =>
    exact (select_disciplined sort start ending offset limit by' power).bind fun _ => Prog.disciplined_pure _

lemma thread_disciplined (calls : List CacheCall) :
    (thread calls : CacheProg W (List CallResult)).Disciplined CacheLock.rank [] [] := by
  induction calls with
  | nil => exact Prog.disciplined_pure _
  | cons c rest ih =>
    refine (prog_disciplined c).bind fun _ => ?_
    exact (Prog.disciplined_touch (fun l hl => by cases hl) _).bind fun _ => ih.bind fun _ => Prog.disciplined_pure _

lemma threads_disciplined (threads : List (List CacheCall)) :
    ∀ p ∈ threads.map thread, (p : CacheProg W (List CallResult)).Disciplined CacheLock.rank [] [] := by
  intro p hp
  obtain ⟨calls, -, rfl⟩ := List.mem_map.mp hp
  exact thread_disciplined calls

end CacheCall

/-! ### The options stay -/

/-- The accesses of the program leave the options alone. -/
def KeepsOptions {α : Type} (opt : KeyCacheOptions) (p : CacheProg W α) : Prop := p.Keeps fun c => c.options = opt

section Options

variable {opt : KeyCacheOptions}

lemma KeyPtr.locking_keepsOptions {α : Type} (p : KeyPtr) (f : KeyAggregator W → α × KeyAggregator W) :
    KeepsOptions opt (p.locking f) :=
  Prog.Keeps.locked (Prog.keeps_touch fun _ h => h)

lemma KeyPtr.unlocked_keepsOptions {α : Type} (p : KeyPtr) (f : KeyAggregator W → α × KeyAggregator W) :
    KeepsOptions opt (p.unlocked f) :=
  Prog.keeps_touch fun _ h => h

namespace SharedCache

lemma inside_keepsOptions {α : Type} {f : SharedCache W → α × SharedCache W}
    (h : ∀ c, (f c).2.options = c.options) : KeepsOptions opt (inside f) :=
  Prog.keeps_touch fun c hc => (h c).trans hc

lemma updateTime_options (c : SharedCache W) (clock : ℤ) (name : Name) (now : ℤ) :
    (c.updateTime clock name now).options = c.options := by
  unfold updateTime
  by_cases hg : c.options.gcInterval = 0
  · rw [if_pos hg]
  · rw [if_neg hg]
    cases c.keyTimeMap.find? name with
    | none => rfl
    | some t =>
      dsimp only
      generalize (if now = 0 then clock else now) = now'
      split_ifs <;> rfl

lemma findOrMake_options (clock : ℤ) (name : Name) (nowTs : ℤ) (c : SharedCache W) :
    (findOrMake clock name nowTs c).2.options = c.options := by
  unfold findOrMake
  cases c.keyMap.find? name with
  | some p => exact updateTime_options c clock name 0
  | none => exact updateTime_options _ clock name 0

lemma gcLoop_options (l : List (ℤ ×ₗ Name)) (c : SharedCache W) (count : ℕ) :
    (c.gcLoop l count).2.options = c.options := by
  induction l generalizing c count with
  | nil => rfl
  | cons p rest ih => exact ih _ _

lemma collect_options (clock : ℤ) (c : SharedCache W) : (collect clock c).2.options = c.options := by
  unfold collect
  split_ifs
  · rfl
  · cases c.timeKeySet.elems with
    | nil => rfl
    | cons p rest =>
      dsimp only
      split_ifs
      · rfl
      · exact gcLoop_options _ _ _
      · exact gcLoop_options _ _ _

lemma forget_options (name : Name) (c : SharedCache W) : (forget name c).2.options = c.options := by
  unfold forget
  dsimp only
  split_ifs
  · cases c.keyTimeMap.find? name <;> rfl
  · rfl

lemma getOrCreate_keepsOptions (clock : ℤ) (name : Name) (nowTs : ℤ) :
    KeepsOptions opt (getOrCreate clock name nowTs : CacheProg W KeyPtr) :=
  Prog.Keeps.locked (inside_keepsOptions (findOrMake_options clock name nowTs))

lemma getId_keepsOptions (name : Name) : KeepsOptions opt (getId name : CacheProg W KeyId) := by
  apply Prog.Keeps.locked
  refine (inside_keepsOptions fun _ => rfl).bind fun r => ?_
  cases r with
  | some p => exact p.unlocked_keepsOptions _
  | none => exact Prog.keeps_pure _

lemma add_keepsOptions (clock : ℤ) (name : Name) (data : AggregatedData) :
    KeepsOptions opt (add clock name data : CacheProg W CacheOutput) := by
  refine (getOrCreate_keepsOptions clock name data.ts).bind fun p => ?_
  refine (p.locking_keepsOptions _).bind fun r => ?_
  have hkey : KeepsOptions opt (if r.2 = true then p.getKeyInfo else pure {} : CacheProg W StoredKey) := by
    split_ifs
    · exact p.locking_keepsOptions _
    · exact Prog.keeps_pure _
  exact hkey.bind fun upKey => (p.unlocked_keepsOptions _).bind fun id => Prog.keeps_pure _

lemma merge_keepsOptions (clock : ℤ) (name : Name) (data : List AggregatedInfo) :
    KeepsOptions opt (merge clock name data : CacheProg W CacheOutput) := by
  unfold merge
  cases data.getLast? with
  | none => exact Prog.keeps_pure _
  | some d =>
    refine (getOrCreate_keepsOptions clock name d.ts).bind fun p => ?_
    refine (p.unlocked_keepsOptions _).bind fun upData => ?_
    refine (p.locking_keepsOptions _).bind fun upKey => ?_
    exact (p.unlocked_keepsOptions _).bind fun id => Prog.keeps_pure _

lemma init_keepsOptions (clock : ℤ) (info : StoredName) : KeepsOptions opt (init clock info : CacheProg W Bool) := by
  apply Prog.Keeps.locked
  refine Prog.Keeps.bind (inside_keepsOptions fun c => ?_) fun p => ?_
  · dsimp only [make]
    split_ifs <;> rfl
  · exact (p.locking_keepsOptions _).bind fun _ => inside_keepsOptions fun c => updateTime_options c clock _ _

lemma releaseLoop_keepsOptions (l : List (Name × KeyPtr)) : KeepsOptions opt (releaseLoop l : CacheProg W _) := by
  induction l with
  | nil => exact Prog.keeps_pure _
  | cons e rest ih =>
    refine (e.2.locking_keepsOptions _).bind fun ki => ?_
    refine (e.2.locking_keepsOptions _).bind fun points => ?_
    exact Prog.Keeps.bind ih fun stored => Prog.keeps_pure _

lemma del_keepsOptions (name : Name) : KeepsOptions opt (del name : CacheProg W KeyId) := by
  apply Prog.Keeps.locked
  refine (inside_keepsOptions fun _ => rfl).bind fun r => ?_
  cases r with
  | none => exact Prog.keeps_pure _
  | some p =>
    refine (p.unlocked_keepsOptions _).bind fun id => ?_
    exact (inside_keepsOptions (forget_options name)).bind fun agree => Prog.keeps_pure _

lemma selectionLoop_keepsOptions (start ending : Name) (power : Bool) (l : List (Name × KeyPtr))
    (selection : List (Name × AggregatedInfo)) :
    KeepsOptions opt (selectionLoop start ending power l selection : CacheProg W _) := by
  induction l generalizing selection with
  | nil => exact Prog.keeps_pure _
  | cons e rest ih =>
    unfold selectionLoop
    split_ifs
    · exact Prog.keeps_pure _
    · exact (e.2.locking_keepsOptions _).bind fun ai => ih _
    · exact ih _

lemma select_keepsOptions (sort : SortFunction) (start ending : Name) (offset limit : ℕ) (by' : SortBy)
    (power : Bool) : KeepsOptions opt (select sort start ending offset limit by' power : CacheProg W _) := by
  apply Prog.Keeps.locked
  refine (inside_keepsOptions fun _ => rfl).bind fun entries => ?_
  split_ifs
  · exact Prog.keeps_pure _
  · refine (selectionLoop_keepsOptions _ _ _ _ _).bind fun selection => ?_
    split_ifs
    · exact Prog.keeps_pure _
    · exact Prog.keeps_pure _

end SharedCache

namespace CacheCall

open SharedCache

lemma prog_keepsOptions (c : CacheCall) : KeepsOptions opt (c.prog : CacheProg W CallResult) := by
  cases c with
  | create clock name nowTs =>
    have hcreate : KeepsOptions opt (SharedCache.create clock name nowTs : CacheProg W KeyId) :=
      (getOrCreate_keepsOptions clock name nowTs).bind fun p => p.unlocked_keepsOptions _
    exact hcreate.bind fun _ => Prog.keeps_pure _
  | size => exact (inside_keepsOptions fun _ => rfl).locked.bind fun _ => Prog.keeps_pure _
  | getId name => exact (getId_keepsOptions name).bind fun _ => Prog.keeps_pure _
  | add clock name data => exact (add_keepsOptions clock name data).bind fun _ => Prog.keeps_pure _
  | merge clock name data => exact (merge_keepsOptions clock name data).bind fun _ => Prog.keeps_pure _
  | init clock info => exact (init_keepsOptions clock info).bind fun _ => Prog.keeps_pure _
  | release =>
    have hrelease : KeepsOptions opt (SharedCache.release : CacheProg W _) :=
      ((inside_keepsOptions fun _ => rfl).bind releaseLoop_keepsOptions).locked
    exact hrelease.bind fun _ => Prog.keeps_pure _
  | gc clock => exact (inside_keepsOptions (collect_options clock)).locked.bind fun _ => Prog.keeps_pure _
  | del name => exact (del_keepsOptions name).bind fun _ => Prog.keeps_pure _
  | select sort start ending offset limit by' power =>
    exact (select_keepsOptions sort start ending offset limit by' power).bind fun _ => Prog.keeps_pure _

lemma thread_keepsOptions (calls : List CacheCall) :
    KeepsOptions opt (thread calls : CacheProg W (List CallResult)) := by
  induction calls with
  | nil => exact Prog.keeps_pure _
  | cons c rest ih =>
    refine (prog_keepsOptions c).bind fun _ => ?_
    exact (Prog.keeps_touch fun _ h => h).bind fun _ => Prog.Keeps.bind ih fun _ => Prog.keeps_pure _

/-- What the options are assumed to be holds in every state that threads reach. -/
lemma threads_options {c : SharedCache W} {threads : List (List CacheCall)}
    {t : Threads (SharedCache W) CacheLock (List CallResult)}
    (ht : Relation.ReflTransGen Threads.Step (Threads.start c (threads.map thread)) t) :
    t.shared.options = c.options := by
  have hkeeps : ∀ p ∈ threads.map thread, KeepsOptions c.options (p : CacheProg W (List CallResult)) := by
    intro p hp
    obtain ⟨calls, -, rfl⟩ := List.mem_map.mp hp
    exact thread_keepsOptions calls
  exact Threads.keeps_of_reached hkeeps rfl ht

end CacheCall

end Options

/-! ### One thread on its own -/

namespace SharedCache

/-- Every name in the map has a key of its own, which was made. -/
structure WellFormed (c : SharedCache W) : Prop where
  made : ∀ name p, c.keyMap.find? name = some p → p.address < c.made
  own : ∀ name name' p p', c.keyMap.find? name = some p → c.keyMap.find? name' = some p' →
    p.address = p'.address → name = name'

lemma WellFormed.new (opt : KeyCacheOptions) : (SharedCache.new opt : SharedCache W).WellFormed := by
  constructor
  · intro name p hp
    cases hp
  · intro name name' p p' hp
    cases hp

/-- A step that leaves pointers out, and makes no keys. -/
lemma WellFormed.of_fewer {c c' : SharedCache W} (h : c.WellFormed) (hmade : c'.made = c.made)
    (hfind : ∀ name p, c'.keyMap.find? name = some p → c.keyMap.find? name = some p) : c'.WellFormed := by
  constructor
  · intro name p hp
    rw [hmade]
    exact h.made name p (hfind name p hp)
  · exact fun name name' p p' hp hp' => h.own name name' p p' (hfind name p hp) (hfind name' p' hp')

lemma view_find? (c : SharedCache W) (name : Name) :
    c.view.keyMap.find? name = (c.keyMap.find? name).map fun p => c.keys p.address :=
  OrderedMap.find?_mapValues _ _ _

/-! #### Single accesses -/

lemma updateTime_eq (c : SharedCache W) (clock : ℤ) (name : Name) (now : ℤ) :
    (∃ s m, c.updateTime clock name now = { c with timeKeySet := s, keyTimeMap := m }) ∧
      (c.updateTime clock name now).view = c.view.updateTime clock name now := by
  unfold updateTime KeyCache.updateTime
  by_cases hg : c.options.gcInterval = 0
  · have hg' : c.view.options.gcInterval = 0 := hg
    rw [if_pos hg, if_pos hg']
    exact ⟨⟨_, _, rfl⟩, rfl⟩
  · have hg' : ¬c.view.options.gcInterval = 0 := hg
    rw [if_neg hg, if_neg hg']
    generalize (if now = 0 then clock else now) = now'
    have htimes : c.view.keyTimeMap.find? name = c.keyTimeMap.find? name := rfl
    rw [htimes]
    cases c.keyTimeMap.find? name with
    | none => exact ⟨⟨_, _, rfl⟩, rfl⟩
    | some t =>
      by_cases ht : t > now' - c.options.gcInterval
      · have ht' : t > now' - c.view.options.gcInterval := ht
        dsimp only
        rw [if_pos ht, if_pos ht']
        exact ⟨⟨_, _, rfl⟩, rfl⟩
      · have ht' : ¬t > now' - c.view.options.gcInterval := ht
        dsimp only
        rw [if_neg ht, if_neg ht']
        exact ⟨⟨_, _, rfl⟩, rfl⟩

/-- The pointer of a cached name leads to what the sequential call returns. -/
structure Points (c : SharedCache W) (name : Name) (p : KeyPtr) (r : KeyAggregator W × KeyCache W) : Prop where
  wellFormed : c.WellFormed
  find : c.keyMap.find? name = some p
  key : c.keys p.address = r.1
  view : c.view = r.2

/-- The pointer leads to a key that no name has. -/
structure Spare (c : SharedCache W) (p : KeyPtr) (ka : KeyAggregator W) : Prop where
  wellFormed : c.WellFormed
  made : p.address < c.made
  unused : ∀ name p', c.keyMap.find? name = some p' → p'.address ≠ p.address
  key : c.keys p.address = ka

/-- The keys of the names stay what they are. -/
lemma view_of_keys {c c' : SharedCache W} (hoptions : c'.options = c.options) (hcounter : c'.keyCounter = c.keyCounter)
    (hmap : c'.keyMap = c.keyMap) (hset : c'.timeKeySet = c.timeKeySet) (htimes : c'.keyTimeMap = c.keyTimeMap)
    (hkeys : ∀ name p, c.keyMap.find? name = some p → c'.keys p.address = c.keys p.address) : c'.view = c.view := by
  have hentries : c'.view.keyMap = c.view.keyMap := by
    ext1 name
    rw [view_find?, view_find?, hmap]
    cases hp : c.keyMap.find? name with
    | none => rfl
    | some p => exact congrArg some (hkeys name p hp)
  have hview : c'.view = { c.view with keyMap := c'.view.keyMap } := by
    rw [view, hoptions, hcounter, hset, htimes]
    rfl
  rw [hview, hentries]

lemma make_spare {c : SharedCache W} (h : c.WellFormed) (ka : KeyAggregator W) :
    (c.make ka).2.Spare (c.make ka).1 ka ∧ (c.make ka).2.view = c.view := by
  have hne : ∀ name p, c.keyMap.find? name = some p → p.address ≠ c.made := fun name p hp => (h.made name p hp).ne
  refine ⟨⟨⟨fun name p hp => (h.made name p hp).trans (Nat.lt_succ_self _), h.own⟩, Nat.lt_succ_self _, hne, ?_⟩, ?_⟩
  · exact Function.update_self c.made ka c.keys
  · exact view_of_keys rfl rfl rfl rfl rfl fun name p hp => Function.update_of_ne (hne name p hp) _ _

/-- A name gets the key. -/
lemma Spare.set {c : SharedCache W} {p : KeyPtr} {ka : KeyAggregator W} (h : c.Spare p ka) (name : Name) :
    { c with keyMap := c.keyMap.set name p }.WellFormed ∧
      { c with keyMap := c.keyMap.set name p }.view = { c.view with keyMap := c.view.keyMap.set name ka } := by
  have hfind : ∀ name' p', (c.keyMap.set name p).find? name' = some p' →
      name' = name ∧ p' = p ∨ name' ≠ name ∧ c.keyMap.find? name' = some p' := by
    intro name' p' hp'
    rw [OrderedMap.find?_set] at hp'
    split_ifs at hp' with hn
    · exact .inl ⟨hn, (Option.some.inj hp').symm⟩
    · exact .inr ⟨hn, hp'⟩
  refine ⟨⟨fun name' p' hp' => ?_, fun name' name'' p' p'' hp' hp'' heq => ?_⟩, ?_⟩
  · rcases hfind name' p' hp' with ⟨-, rfl⟩ | ⟨-, hp'⟩
    · exact h.made
    · exact h.wellFormed.made name' p' hp'
  · rcases hfind name' p' hp' with ⟨hn', rfl⟩ | ⟨-, hp'⟩
    · rcases hfind name'' p'' hp'' with ⟨hn'', -⟩ | ⟨-, hp''⟩
      · rw [hn', hn'']
      · exact absurd heq.symm (h.unused name'' p'' hp'')
    · rcases hfind name'' p'' hp'' with ⟨-, hp''⟩ | ⟨-, hp''⟩
      · rw [hp''] at heq
        exact absurd heq (h.unused name' p' hp')
      · exact h.wellFormed.own name' name'' p' p'' hp' hp'' heq
  · rw [view, OrderedMap.mapValues_set, h.key]
    rfl

lemma WellFormed.updateTime {c : SharedCache W} (h : c.WellFormed) (clock : ℤ) (name : Name) (now : ℤ) :
    (c.updateTime clock name now).WellFormed := by
  obtain ⟨⟨s, m, heq⟩, -⟩ := c.updateTime_eq clock name now
  rw [heq]
  exact h.of_fewer rfl fun _ _ h => h

lemma findOrMake_points {c : SharedCache W} (h : c.WellFormed) (clock : ℤ) (name : Name) (nowTs : ℤ) :
    (c.findOrMake clock name nowTs).2.Points name (c.findOrMake clock name nowTs).1
      (c.view.getOrCreate clock name nowTs) := by
  have hfind := c.view_find? name
  cases hp : c.keyMap.find? name with
  | some p =>
    rw [hp, Option.map_some] at hfind
    have hthis : c.findOrMake clock name nowTs = (p, c.updateTime clock name 0) := by simp only [findOrMake, hp]
    have hthat : c.view.getOrCreate clock name nowTs = (c.keys p.address, c.view.updateTime clock name 0) := by
      simp only [KeyCache.getOrCreate, hfind]
    obtain ⟨⟨s, m, heq⟩, hview⟩ := c.updateTime_eq clock name 0
    rw [hthis, hthat]
    refine ⟨h.updateTime clock name 0, ?_, ?_, hview⟩
    · rw [heq]
      exact hp
    · rw [heq]
  | none =>
    rw [hp, Option.map_none] at hfind
    let id := (c.keyCounter + 1) % 2 ^ 64
    let ka : KeyAggregator W := KeyAggregator.create (c.getMutex id) id nowTs c.options
    let c₁ := { c with keyCounter := id }
    have hwell₁ : c₁.WellFormed := h.of_fewer rfl fun _ _ h => h
    obtain ⟨hspare, hsame⟩ := make_spare hwell₁ ka
    obtain ⟨hwell, hset⟩ := hspare.set name
    let c₂ := { (c₁.make ka).2 with keyMap := (c₁.make ka).2.keyMap.set name (c₁.make ka).1 }
    have hview₂ : c₂.view = { c.view with keyCounter := id, keyMap := c.view.keyMap.set name ka } := by
      refine hset.trans ?_
      rw [hsame]
      rfl
    have hthis : c.findOrMake clock name nowTs = ((c₁.make ka).1, c₂.updateTime clock name 0) := by
      simp only [findOrMake, hp]
      rfl
    have hthat : c.view.getOrCreate clock name nowTs =
        (ka, { c.view with keyCounter := id, keyMap := c.view.keyMap.set name ka }.updateTime clock name 0) := by
      simp only [KeyCache.getOrCreate, hfind]
      rfl
    obtain ⟨⟨s, m, heq⟩, hview⟩ := c₂.updateTime_eq clock name 0
    rw [hthis, hthat]
    refine ⟨hwell.updateTime clock name 0, ?_, ?_, by rw [hview, hview₂]⟩
    · rw [heq]
      exact OrderedMap.find?_set_self _ _ _
    · rw [heq]
      exact hspare.key

/-! #### Through a pointer -/

section Pointer

variable {α : Type} {c : SharedCache W} {name : Name} {p : KeyPtr} {r : KeyAggregator W × KeyCache W}

/-- A cached key becomes what the access makes of it. -/
lemma Points.unlocked (h : c.Points name p r) (f : KeyAggregator W → α × KeyAggregator W) :
    (p.unlocked f).Ends c fun a c' =>
      a = (f r.1).1 ∧ c'.Points name p ((f r.1).2, r.2.putKey name (f r.1).2) := by
  change (onKey p f c).1 = _ ∧ (onKey p f c).2.Points name p _
  have hkey : (onKey p f c).2.keys p.address = (f r.1).2 := by
    rw [← h.key]
    exact Function.update_self _ _ c.keys
  refine ⟨by rw [← h.key]; rfl, h.wellFormed.of_fewer rfl fun _ _ h => h, h.find, hkey, ?_⟩
  have hmap : (onKey p f c).2.view.keyMap = r.2.keyMap.set name (f r.1).2 := by
    ext1 name'
    rw [view_find?, OrderedMap.find?_set, ← h.view, view_find?]
    change ((c.keyMap.find? name').map fun p' => (onKey p f c).2.keys p'.address) = _
    split_ifs with hn
    · rw [hn, h.find, Option.map_some, hkey]
    · cases hp : c.keyMap.find? name' with
      | none => rfl
      | some p' =>
        have hne : p'.address ≠ p.address := fun heq => hn (h.wellFormed.own name' name p' p hp h.find heq)
        exact congrArg some (Function.update_of_ne hne _ c.keys)
  have hview : (onKey p f c).2.view = { c.view with keyMap := (onKey p f c).2.view.keyMap } := rfl
  rw [hview, hmap, h.view]
  rfl

lemma Points.locking (h : c.Points name p r) (f : KeyAggregator W → α × KeyAggregator W) :
    (p.locking f).Ends c fun a c' =>
      a = (f r.1).1 ∧ c'.Points name p ((f r.1).2, r.2.putKey name (f r.1).2) :=
  Prog.ends_locked (h.unlocked f)

/-- An access that changes nothing. -/
lemma unlocked_read (p : KeyPtr) (f : KeyAggregator W → α) (c : SharedCache W) :
    (p.unlocked fun ka => (f ka, ka)).Ends c fun a c' => a = f (c.keys p.address) ∧ c = c' := by
  have hkeys : Function.update c.keys p.address (c.keys p.address) = c.keys := Function.update_eq_self _ _
  refine ⟨rfl, ?_⟩
  change c = { c with keys := Function.update c.keys p.address (c.keys p.address) }
  rw [hkeys]

lemma locking_read (p : KeyPtr) (f : KeyAggregator W → α) (c : SharedCache W) :
    (p.locking fun ka => (f ka, ka)).Ends c fun a c' => a = f (c.keys p.address) ∧ c = c' :=
  Prog.ends_locked (unlocked_read p f c)

end Pointer

/-! #### The calls -/

/-- The sequential key cache returns the same, and is in what the pointers lead to. -/
def Agrees {α : Type} (c : SharedCache W) (p : CacheProg W α) (r : α × KeyCache W) : Prop :=
  p.Ends c fun a c' => a = r.1 ∧ c'.view = r.2 ∧ c'.WellFormed

lemma inside_read {α : Type} (f : SharedCache W → α) (c : SharedCache W) :
    (inside fun c => (f c, c)).Ends c fun a c' => a = f c ∧ c = c' :=
  ⟨rfl, rfl⟩

/-- What a call returns is put into a result. -/
lemma Agrees.returns {α β : Type} {c : SharedCache W} {p : CacheProg W α} {r : α × KeyCache W} (h : c.Agrees p r)
    (f : α → β) : c.Agrees (do return f (← p)) (f r.1, r.2) := by
  refine Prog.Ends.bind h fun a c' ha => ?_
  obtain ⟨rfl, hview, hwell⟩ := ha
  exact ⟨rfl, hview, hwell⟩

lemma getOrCreate_ends {c : SharedCache W} (h : c.WellFormed) (clock : ℤ) (name : Name) (nowTs : ℤ) :
    (getOrCreate clock name nowTs).Ends c fun p c' => c'.Points name p (c.view.getOrCreate clock name nowTs) :=
  Prog.ends_locked (findOrMake_points h clock name nowTs)

lemma create_agrees {c : SharedCache W} (h : c.WellFormed) (clock : ℤ) (name : Name) (nowTs : ℤ) :
    c.Agrees (create clock name nowTs) (c.view.create clock name nowTs) := by
  refine (getOrCreate_ends h clock name nowTs).bind fun p c' hp => ?_
  obtain ⟨hid, hsame⟩ := unlocked_read p KeyAggregator.getId c'
  have hwell := hp.wellFormed
  rw [hsame] at hwell
  refine ⟨hid.trans (congrArg KeyAggregator.getId hp.key), ?_, hwell⟩
  exact (congrArg SharedCache.view hsame.symm).trans hp.view

lemma add_agrees {c : SharedCache W} (h : c.WellFormed) (clock : ℤ) (name : Name) (data : AggregatedData) :
    let r := c.view.add clock name data
    c.Agrees (add clock name data) ({ id := r.id, upKey := r.upKey, upData := r.upData, isLast := r.isLast }, r.cache) := by
  refine (getOrCreate_ends h clock name data.ts).bind fun p c' hp => ?_
  refine (hp.locking fun ka => ((ka.add data []).2, (ka.add data []).1)).bind fun r c' hr => ?_
  obtain ⟨rfl, hadded⟩ := hr
  have hkey : ∀ b : Bool, (if b then p.getKeyInfo else pure {} : CacheProg W StoredKey).Ends c' fun upKey c'' =>
      upKey = (if b then (c'.keys p.address).getKeyInfo else {}) ∧ c' = c'' := by
    intro b
    cases b with
    | true => exact locking_read p KeyAggregator.getKeyInfo c'
    | false => exact ⟨rfl, rfl⟩
  refine (hkey _).bind fun upKey c'' hinfo => ?_
  obtain ⟨rfl, rfl⟩ := hinfo
  refine (unlocked_read p KeyAggregator.getId c').bind fun id c'' hid => ?_
  obtain ⟨rfl, rfl⟩ := hid
  refine ⟨?_, hadded.view, hadded.wellFormed⟩
  rw [hadded.key]
  rfl

lemma merge_agrees {c : SharedCache W} (h : c.WellFormed) (clock : ℤ) (name : Name) (data : List AggregatedInfo) :
    let r := c.view.merge clock name data
    c.Agrees (merge clock name data) ({ id := r.id, upKey := r.upKey, upData := r.upData, isLast := r.isLast }, r.cache) := by
  unfold merge KeyCache.merge
  cases data.getLast? with
  | none => exact ⟨rfl, rfl, h⟩
  | some d =>
    refine (getOrCreate_ends h clock name d.ts).bind fun p c' hp => ?_
    refine (hp.unlocked fun ka => ((ka.merge [] data).2, (ka.merge [] data).1)).bind fun r c' hr => ?_
    obtain ⟨rfl, hmerged⟩ := hr
    refine (locking_read p KeyAggregator.getKeyInfo c').bind fun upKey c'' hinfo => ?_
    obtain ⟨rfl, rfl⟩ := hinfo
    refine (unlocked_read p KeyAggregator.getId c').bind fun id c'' hid => ?_
    obtain ⟨rfl, rfl⟩ := hid
    refine ⟨?_, hmerged.view, hmerged.wellFormed⟩
    rw [hmerged.key]
    rfl

lemma getId_agrees {c : SharedCache W} (h : c.WellFormed) (name : Name) :
    c.Agrees (getId name) (c.view.getId name, c.view) := by
  have hfind := c.view_find? name
  apply Prog.ends_locked
  refine (inside_read (fun c => c.keyMap.find? name) c).bind fun r c' hr => ?_
  obtain ⟨hr, rfl⟩ := hr
  unfold KeyCache.getId
  rw [hfind, ← hr]
  cases r with
  | none => exact ⟨rfl, rfl, h⟩
  | some p =>
    obtain ⟨hid, hsame⟩ := unlocked_read p KeyAggregator.getId c
    rw [hsame] at h
    exact ⟨hid, congrArg SharedCache.view hsame.symm, h⟩

lemma size_agrees {c : SharedCache W} (h : c.WellFormed) : c.Agrees size (c.view.size, c.view) :=
  ⟨(c.keyMap.size_mapValues _).symm, rfl, h⟩

/-! #### Removals -/

lemma view_erase (c : SharedCache W) (name : Name) :
    { c with keyMap := c.keyMap.erase name }.view = { c.view with keyMap := c.view.keyMap.erase name } := by
  rw [view, OrderedMap.mapValues_erase]
  rfl

lemma WellFormed.erase {c : SharedCache W} (h : c.WellFormed) (name : Name) :
    { c with keyMap := c.keyMap.erase name }.WellFormed := by
  have hfind : ∀ name' p, (c.keyMap.erase name).find? name' = some p → c.keyMap.find? name' = some p := by
    intro name' p hp
    rw [OrderedMap.find?_erase] at hp
    split_ifs at hp
    exact hp
  exact h.of_fewer rfl hfind

lemma sizesDiffer_view (c : SharedCache W) : c.view.sizesDiffer ↔ c.sizesDiffer := by
  unfold KeyCache.sizesDiffer sizesDiffer
  rw [view, OrderedMap.size_mapValues]

lemma gcLoop_agrees (l : List (ℤ ×ₗ Name)) {c : SharedCache W} (h : c.WellFormed) (count : ℕ) :
    (c.gcLoop l count).1 = (c.view.gcLoop l count).1 ∧ (c.gcLoop l count).2.view = (c.view.gcLoop l count).2 ∧
      (c.gcLoop l count).2.WellFormed := by
  induction l generalizing c count with
  | nil => exact ⟨rfl, rfl, h⟩
  | cons p rest ih =>
    have hview := c.view_erase (ofLex p).2
    let c' : SharedCache W :=
      { c with
        keyMap := c.keyMap.erase (ofLex p).2
        keyTimeMap := c.keyTimeMap.erase (ofLex p).2
        timeKeySet := c.timeKeySet.eraseFirst }
    have hwell : c'.WellFormed := (h.erase (ofLex p).2).of_fewer rfl fun _ _ h => h
    have hview' : c'.view =
        { c.view with
          keyMap := c.view.keyMap.erase (ofLex p).2
          keyTimeMap := c.view.keyTimeMap.erase (ofLex p).2
          timeKeySet := c.view.timeKeySet.eraseFirst } := by
      rw [view, OrderedMap.mapValues_erase]
      rfl
    have hrest := ih hwell (count + 1)
    rw [hview'] at hrest
    exact hrest

lemma gc_agrees {c : SharedCache W} (h : c.WellFormed) (clock : ℤ) : c.Agrees (gc clock) (c.view.gc clock) := by
  apply Prog.ends_locked
  change (c.collect clock).1 = _ ∧ (c.collect clock).2.view = _ ∧ (c.collect clock).2.WellFormed
  unfold collect KeyCache.gc
  by_cases hg : c.options.gcInterval = 0
  · have hg' : c.view.options.gcInterval = 0 := hg
    rw [if_pos hg, if_pos hg']
    exact ⟨rfl, rfl, h⟩
  · have hg' : ¬c.view.options.gcInterval = 0 := hg
    rw [if_neg hg, if_neg hg']
    have helems : c.view.timeKeySet.elems = c.timeKeySet.elems := rfl
    rw [helems]
    cases c.timeKeySet.elems with
    | nil => exact ⟨rfl, rfl, h⟩
    | cons p rest =>
      by_cases hp : (ofLex p).1 > clock - c.options.ttl
      · have hp' : (ofLex p).1 > clock - c.view.options.ttl := hp
        dsimp only
        rw [if_pos hp, if_pos hp']
        exact ⟨rfl, rfl, h⟩
      · have hp' : ¬(ofLex p).1 > clock - c.view.options.ttl := hp
        dsimp only
        rw [if_neg hp, if_neg hp']
        obtain ⟨hcount, hview, hwell⟩ := gcLoop_agrees (c.timeKeySet.below (toLex (clock - c.options.ttl, []))) h 0
        have hbelow : c.view.timeKeySet.below (toLex (clock - c.view.options.ttl, [])) =
            c.timeKeySet.below (toLex (clock - c.options.ttl, [])) := rfl
        simp only [hbelow, ← hview, sizesDiffer_view]
        split_ifs
        · exact ⟨rfl, rfl, hwell⟩
        · exact ⟨hcount, hview, hwell⟩

lemma forget_agrees {c : SharedCache W} (h : c.WellFormed) {name : Name} {p : KeyPtr}
    (hp : c.keyMap.find? name = some p) :
    c.view.del name =
        (if (c.forget name).1 then (c.keys p.address).getId else badKey, (c.forget name).2.view) ∧
      (c.forget name).2.WellFormed := by
  have hfind := c.view_find? name
  rw [hp, Option.map_some] at hfind
  have herase := c.view_erase name
  have hwell := h.erase name
  unfold KeyCache.del forget
  simp only [hfind]
  by_cases hg : c.options.gcInterval = 0
  · have hg' : ¬c.view.options.gcInterval ≠ 0 := not_not.mpr hg
    rw [if_neg (not_not.mpr hg), if_neg hg']
    exact ⟨Prod.ext rfl herase.symm, hwell⟩
  · have hg' : c.view.options.gcInterval ≠ 0 := hg
    rw [if_pos hg, if_pos hg']
    have htimes : c.view.keyTimeMap.find? name = c.keyTimeMap.find? name := rfl
    rw [htimes]
    cases c.keyTimeMap.find? name with
    | none => exact ⟨Prod.ext rfl herase.symm, hwell⟩
    | some t =>
      let c' : SharedCache W :=
        { c with
          keyMap := c.keyMap.erase name
          timeKeySet := c.timeKeySet.erase (toLex (t, name))
          keyTimeMap := c.keyTimeMap.erase name }
      have hview' : c'.view =
          { c.view with
            keyMap := c.view.keyMap.erase name
            timeKeySet := c.view.timeKeySet.erase (toLex (t, name))
            keyTimeMap := c.view.keyTimeMap.erase name } := by
        rw [view, OrderedMap.mapValues_erase]
        rfl
      have hsizes := sizesDiffer_view c'
      refine ⟨Prod.ext ?_ hview'.symm, hwell.of_fewer rfl fun _ _ h => h⟩
      rw [hview'] at hsizes
      change (if _ then _ else _) = if (!decide c'.sizesDiffer) = true then _ else _
      by_cases hd : c'.sizesDiffer
      · rw [if_pos (hsizes.mpr hd), if_neg (by simpa using hd)]
      · rw [if_neg (mt hsizes.mp hd), if_pos (by simpa using hd)]

lemma del_agrees {c : SharedCache W} (h : c.WellFormed) (name : Name) : c.Agrees (del name) (c.view.del name) := by
  have hfind := c.view_find? name
  apply Prog.ends_locked
  refine (inside_read (fun c => c.keyMap.find? name) c).bind fun r c' hr => ?_
  obtain ⟨hr, rfl⟩ := hr
  cases r with
  | none =>
    rw [← hr, Option.map_none] at hfind
    rw [KeyCache.del_of_none hfind]
    exact ⟨rfl, rfl, h⟩
  | some p =>
    obtain ⟨hdel, hwell⟩ := forget_agrees h hr.symm
    rw [hdel]
    refine (unlocked_read p KeyAggregator.getId c).bind fun id c' hid => ?_
    obtain ⟨rfl, rfl⟩ := hid
    exact ⟨rfl, rfl, hwell⟩

/-! #### Loops over the keys -/

lemma selectionLoop_ends (start ending : Name) (power : Bool) (l : List (Name × KeyPtr))
    (selection : List (Name × AggregatedInfo)) (c : SharedCache W) :
    (selectionLoop start ending power l selection).Ends c fun r c' =>
      r = KeyCache.selectionLoop start ending (fun p => (c.keys p.address).getAggregatedInfo power) l selection ∧
        c = c' := by
  induction l generalizing selection with
  | nil => exact ⟨rfl, rfl⟩
  | cons e rest ih =>
    unfold selectionLoop KeyCache.selectionLoop
    split_ifs
    · exact ⟨rfl, rfl⟩
    · refine (locking_read e.2 (KeyAggregator.getAggregatedInfo · power) c).bind fun ai c' hai => ?_
      obtain ⟨rfl, rfl⟩ := hai
      exact ih _
    · exact ih _

lemma select_agrees {c : SharedCache W} (h : c.WellFormed) (sort : SortFunction) (start ending : Name)
    (offset limit : ℕ) (by' : SortBy) (power : Bool) :
    c.Agrees (select sort start ending offset limit by' power)
      (c.view.select sort start ending offset limit by' power, c.view) := by
  have hentries : c.view.keyMap.lowerBound start =
      (c.keyMap.lowerBound start).map fun e => (e.1, c.keys e.2.address) := OrderedMap.lowerBound_mapValues _ _ _
  apply Prog.ends_locked
  refine (inside_read (fun c => c.keyMap.lowerBound start) c).bind fun entries c' hr => ?_
  obtain ⟨rfl, rfl⟩ := hr
  unfold KeyCache.select KeyCache.selectNames
  rw [hentries, KeyCache.selectLoop_map start ending fun p : KeyPtr => c.keys p.address]
  by_cases hby : by' = .nosort
  · rw [if_pos hby, if_pos hby]
    exact ⟨rfl, rfl, h⟩
  · rw [if_neg hby, if_neg hby]
    refine (selectionLoop_ends start ending power _ [] c).bind fun selection c' hs => ?_
    obtain ⟨rfl, rfl⟩ := hs
    have hrows : KeyCache.selectionLoop start ending (·.getAggregatedInfo power)
          ((c.keyMap.lowerBound start).map fun e => (e.1, c.keys e.2.address)) [] =
        KeyCache.selectionLoop start ending (fun p => (c.keys p.address).getAggregatedInfo power)
          (c.keyMap.lowerBound start) [] := by
      rw [← KeyCache.selectionLoop_map start ending fun ka : KeyAggregator W => ka.getAggregatedInfo power,
        List.map_map, ← KeyCache.selectionLoop_map start ending fun p : KeyPtr =>
          (c.keys p.address).getAggregatedInfo power]
      rfl
    rw [hrows]
    dsimp only
    split_ifs
    · exact ⟨rfl, rfl, h⟩
    · exact ⟨rfl, rfl, h⟩
    · exact ⟨rfl, rfl, h⟩

/-- Every pointed-at key is popped once. -/
lemma releaseLoop_ends (l : List (Name × KeyPtr)) (hl : (l.map fun e => e.2.address).Nodup) (c : SharedCache W) :
    (releaseLoop l).Ends c fun r c' =>
      r = l.map (fun e => ({ toStoredKey := (c.keys e.2.address).getKeyInfo, name := e.1 },
        ((c.keys e.2.address).aggregateLastPointIf [] true).2)) ∧
      ∃ keys, { c with keys := keys } = c' ∧
        (∀ e ∈ l, keys e.2.address = ((c.keys e.2.address).aggregateLastPointIf [] true).1) ∧
        ∀ a, a ∉ l.map (fun e => e.2.address) → keys a = c.keys a := by
  induction l generalizing c with
  | nil => exact ⟨rfl, c.keys, rfl, fun e he => absurd he List.not_mem_nil, fun _ _ => rfl⟩
  | cons e rest ih =>
    obtain ⟨hnot, hrest⟩ := List.nodup_cons.mp hl
    let ka := c.keys e.2.address
    refine (locking_read e.2 KeyAggregator.getKeyInfo c).bind fun ki c' hki => ?_
    obtain ⟨rfl, rfl⟩ := hki
    let c₁ : SharedCache W := { c with keys := Function.update c.keys e.2.address (ka.aggregateLastPointIf [] true).1 }
    have hpop : (e.2.aggregateLastPointIf true).Ends c fun points c' =>
        points = (ka.aggregateLastPointIf [] true).2 ∧ c₁ = c' := ⟨rfl, rfl⟩
    refine hpop.bind fun points c' hp => ?_
    obtain ⟨rfl, rfl⟩ := hp
    refine (ih hrest c₁).bind fun stored c' hs => ?_
    obtain ⟨rfl, keys, rfl, hpopped, hothers⟩ := hs
    have hsame : ∀ e' ∈ rest, c₁.keys e'.2.address = c.keys e'.2.address := by
      intro e' he'
      apply Function.update_of_ne
      intro heq
      exact hnot (List.mem_map.mpr ⟨e', he', heq⟩)
    refine ⟨?_, keys, rfl, fun e' he' => ?_, fun a ha => ?_⟩
    · rw [List.map_cons]
      refine congrArg (List.cons _) (List.map_congr_left fun e' he' => ?_)
      rw [hsame e' he']
    · rcases List.mem_cons.mp he' with rfl | he'
      · rw [hothers _ hnot]
        exact Function.update_self _ _ c.keys
      · rw [hpopped e' he', hsame e' he']
    · rw [List.map_cons, List.mem_cons, not_or] at ha
      rw [hothers a ha.2]
      exact Function.update_of_ne ha.1 _ c.keys

lemma WellFormed.nodup {c : SharedCache W} (h : c.WellFormed) : (c.keyMap.entries.map fun e => e.2.address).Nodup := by
  apply List.pairwise_map.mpr
  refine c.keyMap.sorted.imp_of_mem fun {e e'} he he' hlt heq => ?_
  have hfind := (c.keyMap.mem_entries_iff e.1 e.2).mp he
  have hfind' := (c.keyMap.mem_entries_iff e'.1 e'.2).mp he'
  exact hlt.ne (h.own _ _ _ _ hfind hfind' heq)

lemma release_agrees {c : SharedCache W} (h : c.WellFormed) : c.Agrees release c.view.release := by
  apply Prog.ends_locked
  refine (inside_read (fun c => c.keyMap.entries) c).bind fun entries c' hr => ?_
  obtain ⟨rfl, rfl⟩ := hr
  obtain ⟨hstored, keys, hkeys, hpopped, -⟩ := releaseLoop_ends c.keyMap.entries h.nodup c
  refine ⟨hstored.trans ?_, ?_, ?_⟩
  · rw [KeyCache.release, view, OrderedMap.mapValues, List.map_map]
    rfl
  · rw [← hkeys]
    have hmap : c.keyMap.mapValues (fun _ p => keys p.address) =
        c.view.keyMap.mapValues fun _ ka => (ka.aggregateLastPointIf [] true).1 := by
      ext1 name
      rw [OrderedMap.find?_mapValues, OrderedMap.find?_mapValues, view_find?]
      cases hp : c.keyMap.find? name with
      | none => rfl
      | some p => exact congrArg some (hpopped _ ((c.keyMap.mem_entries_iff name p).mpr hp))
    change KeyCache.mk _ _ (c.keyMap.mapValues fun _ p => keys p.address) _ _ = _
    rw [hmap]
    rfl
  · rw [← hkeys]
    exact h.of_fewer rfl fun _ _ h => h

/-! #### Restored keys -/

lemma Spare.setKeyInfo {c : SharedCache W} {p : KeyPtr} {ka : KeyAggregator W} (h : c.Spare p ka) (si : StoredValues) :
    (p.setKeyInfo si).Ends c fun _ c' => c'.Spare p (ka.setKeyInfo si) ∧ c'.view = c.view := by
  have hkey : Function.update c.keys p.address ((c.keys p.address).setKeyInfo si) p.address = ka.setKeyInfo si := by
    rw [Function.update_self, h.key]
  refine ⟨⟨h.wellFormed.of_fewer rfl fun _ _ h => h, h.made, h.unused, hkey⟩, ?_⟩
  exact view_of_keys rfl rfl rfl rfl rfl fun name p' hp' => Function.update_of_ne (h.unused name p' hp') _ c.keys

lemma Spare.updateTime {c : SharedCache W} {p : KeyPtr} {ka : KeyAggregator W} (h : c.Spare p ka) (clock : ℤ)
    (name : Name) (now : ℤ) : (c.updateTime clock name now).Spare p ka := by
  have hwell := h.wellFormed.updateTime clock name now
  obtain ⟨⟨s, m, heq⟩, -⟩ := c.updateTime_eq clock name now
  rw [heq] at hwell ⊢
  exact ⟨hwell, h.made, h.unused, h.key⟩

lemma Spare.insertNew {c : SharedCache W} {p : KeyPtr} {ka : KeyAggregator W} (h : c.Spare p ka) (name : Name) :
    (c.keyMap.insertNew name p).2 = (c.view.keyMap.insertNew name ka).2 ∧
      { c with keyMap := (c.keyMap.insertNew name p).1 }.view =
          { c.view with keyMap := (c.view.keyMap.insertNew name ka).1 } ∧
        { c with keyMap := (c.keyMap.insertNew name p).1 }.WellFormed := by
  have hfind := c.view_find? name
  unfold OrderedMap.insertNew
  rw [hfind]
  cases hp : c.keyMap.find? name with
  | some p' => exact ⟨rfl, rfl, h.wellFormed⟩
  | none =>
    obtain ⟨hwell, hview⟩ := h.set name
    exact ⟨rfl, hview, hwell⟩

lemma init_agrees {c : SharedCache W} (h : c.WellFormed) (clock : ℤ) (info : StoredName) :
    c.Agrees (init clock info) (c.view.init clock info) := by
  let c₁ : SharedCache W := if c.keyCounter < info.id then { c with keyCounter := info.id } else c
  have hcounted : c₁.WellFormed ∧
      c₁.view = if c.view.keyCounter < info.id then { c.view with keyCounter := info.id } else c.view := by
    by_cases hid : c.keyCounter < info.id
    · have hid' : c.view.keyCounter < info.id := hid
      simp only [c₁, if_pos hid, if_pos hid']
      exact ⟨h.of_fewer rfl fun _ _ h => h, rfl⟩
    · have hid' : ¬c.view.keyCounter < info.id := hid
      simp only [c₁, if_neg hid, if_neg hid']
      exact ⟨h, trivial⟩
  obtain ⟨hwell₁, hview₁⟩ := hcounted
  let ka : KeyAggregator W := KeyAggregator.create (c₁.getMutex info.id) info.id info.lastUpdate c₁.options
  apply Prog.ends_locked
  have hmade : (c₁.make ka).2.Spare (c₁.make ka).1 ka ∧ (c₁.make ka).2.view = c₁.view := make_spare hwell₁ ka
  refine Prog.Ends.bind (show Prog.Ends _ c fun p c' => c'.Spare p ka ∧ c'.view = c₁.view from hmade) fun p c₂ hp => ?_
  refine (hp.1.setKeyInfo info.toStoredValues).bind fun _ c₃ hset => ?_
  obtain ⟨hspare, hview₃⟩ := hset
  rw [hp.2] at hview₃
  have hoptions : c₃.options = c₁.options := congrArg KeyCache.options hview₃
  have hinit : c.view.init clock info =
      let updTime := info.lastUpdate.tdiv c₁.options.resolution
      let v := c₁.view.updateTime clock info.name (if updTime ≠ 0 then updTime else 1)
      let m := v.keyMap.insertNew info.name (ka.setKeyInfo info.toStoredValues)
      (m.2, { v with keyMap := m.1 }) := by
    unfold KeyCache.init
    rw [← hview₁]
    rfl
  let now := if info.lastUpdate.tdiv c₁.options.resolution ≠ 0 then info.lastUpdate.tdiv c₁.options.resolution else 1
  have hview := (c₃.updateTime_eq clock info.name now).2
  rw [hview₃] at hview
  obtain ⟨hnew, hinserted, hwell⟩ := (hspare.updateTime clock info.name now).insertNew info.name
  rw [hview] at hnew hinserted
  rw [hinit, Prog.Ends, inside, Prog.alone_touch, hoptions]
  exact ⟨hnew, hinserted, hwell⟩

end SharedCache

namespace CacheCall

open SharedCache

lemma answer_agrees {c : SharedCache W} (h : c.WellFormed) (call : CacheCall) :
    c.Agrees call.prog (answer c.view call) := by
  cases call with
  | create clock name nowTs => exact (create_agrees h clock name nowTs).returns CallResult.id
  | size => exact (size_agrees h).returns CallResult.number
  | getId name => exact (getId_agrees h name).returns CallResult.id
  | add clock name data => exact (add_agrees h clock name data).returns CallResult.output
  | merge clock name data => exact (merge_agrees h clock name data).returns CallResult.output
  | init clock info => exact (init_agrees h clock info).returns CallResult.isNew
  | release => exact (release_agrees h).returns CallResult.stored
  | gc clock => exact (gc_agrees h clock).returns CallResult.number
  | del name => exact (del_agrees h name).returns CallResult.id
  | select sort start ending offset limit by' power =>
    exact (select_agrees h sort start ending offset limit by' power).returns fun l =>
      if by' = .nosort then CallResult.names l else CallResult.sorted l

lemma answers_agree (calls : List CacheCall) {c : SharedCache W} (h : c.WellFormed) :
    c.Agrees (thread calls) (answers c.view calls) := by
  induction calls generalizing c with
  | nil => exact ⟨rfl, rfl, h⟩
  | cons call rest ih =>
    refine (answer_agrees h call).bind fun r c' hr => ?_
    obtain ⟨rfl, hview, hwell⟩ := hr
    have hrest := ih hwell
    rw [hview] at hrest
    exact hrest.returns fun results => (answer c.view call).1 :: results

end CacheCall

/-- Calls never wait for each other forever: whatever calls the threads make, and in whatever
order their steps come, all threads get their results, and no two are ever at accesses with the
same mutex; no access divides by zero. Without other threads, the results are those of the
sequential key cache. -/
theorem CacheCall.threads_finish (c : SharedCache W) (hc : KeyCache.Restores c.options)
    (threads : List (List CacheCall)) :
    Threads.Finishes Threads.Step Threads.Done (Threads.start c (threads.map CacheCall.thread)) ∧
      (∀ t, Relation.ReflTransGen Threads.Step (Threads.start c (threads.map CacheCall.thread)) t →
        t.Exclusive ∧ KeyCache.Restores t.shared.options) ∧
      (c.WellFormed → ∀ calls t, Relation.ReflTransGen Threads.Step (Threads.start c [CacheCall.thread calls]) t →
        t.Done → t.progs = [.done (CacheCall.answers c.view calls).1] ∧
          t.shared.view = (CacheCall.answers c.view calls).2) := by
  obtain ⟨hfinishes, hexclusive⟩ := Threads.finishes_and_exclusive (CacheCall.threads_disciplined threads) c
  refine ⟨hfinishes, fun t ht => ⟨hexclusive t ht, ?_⟩, fun h calls t ht hdone => ?_⟩
  · rw [CacheCall.threads_options ht]
    exact hc
  · obtain ⟨hprogs, hshared⟩ := Threads.alone_of_done ht hdone
    obtain ⟨hresults, hview, -⟩ := CacheCall.answers_agree calls h
    rw [hprogs, hshared, hresults]
    exact ⟨rfl, hview⟩

/-- Two threads with a name in common, and one thread on its own. -/
theorem CacheCall.threads_finish_of_new_cache :
    let c : SharedCache (Wrtstat.reference 5 false) := SharedCache.new { resolution := 1 }
    let threads : List (List CacheCall) := [[.add 0 [97] { ts := 7, count := 1 }, .del [97]],
      [.merge 0 [97] [{ ts := 5, count := 2 }], .getId [97]]]
    Threads.Finishes Threads.Step Threads.Done (Threads.start c (threads.map CacheCall.thread)) ∧
      ∀ t, Relation.ReflTransGen Threads.Step
          (Threads.start c [CacheCall.thread [.create 0 [97] 7, .del [97], .getId [97]]]) t → t.Done →
        t.progs = [.done [.id 1, .id 1, .id badKey]] := by
  intro c threads
  obtain ⟨hfinishes, -, halone⟩ := CacheCall.threads_finish c (by decide) threads
  refine ⟨hfinishes, fun t ht hdone => ?_⟩
  exact (halone (SharedCache.WellFormed.new _) _ t ht hdone).1

end WfcBtp
