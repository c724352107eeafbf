import Mathlib.Logic.Relation
import WfcBtp.Library.OrderedMap

/-!
# Logs with merge operands

A database that appends what is written and combines later: a write leaves an entry in the
log of its key, a read goes back to the last value and merges the operands written since,
and entries of a log may be compacted at any time. The merge function takes the existing
value, if there is one, and an operand. It merges operands with each other the same way,
the older one as the existing value.
-/

namespace WfcBtp.Library

variable {κ ν μ : Type}

inductive LogEntry (ν : Type)
  | put (v : ν)
  | merge (operand : ν)
  | delete
  deriving DecidableEq, Repr

namespace LogEntry

/-- What the entry makes of the value before it. -/
def apply (f : Option ν → ν → ν) (existing : Option ν) : LogEntry ν → Option ν
  | .put v => some v
  | .merge operand => some (f existing operand)
  | .delete => none

/-- What is written with the entry has the property. -/
def Carries (P : ν → Prop) : LogEntry ν → Prop
  | .put v => P v
  | .merge operand => P operand
  | .delete => True

lemma apply_of_carries {f : Option ν → ν → ν} {P : ν → Prop} (hf : ∀ e a, P (f e a)) {e : LogEntry ν}
    (he : e.Carries P) {existing : Option ν} {v : ν} (hv : e.apply f existing = some v) : P v := by
  cases e with
  | put w =>
    rw [← Option.some.inj hv]
    exact he
  | merge operand =>
    rw [← Option.some.inj hv]
    exact hf _ _
  | delete => cases hv

end LogEntry

/-- The value of a key with the log `l`, newest entry first: `operands` were found before,
the oldest of them first. -/
def readLog (f : Option ν → ν → ν) : List (LogEntry ν) → List ν → Option ν
  | [], operands => operands.foldl (fun existing a => some (f existing a)) none
  | .put v :: _, operands => operands.foldl (fun existing a => some (f existing a)) (some v)
  | .delete :: _, operands => operands.foldl (fun existing a => some (f existing a)) none
  | .merge a :: older, operands => readLog f older (a :: operands)

/-- Operands are merged into what the log reads without them. -/
lemma readLog_operands (f : Option ν → ν → ν) (l : List (LogEntry ν)) (operands : List ν) :
    readLog f l operands = operands.foldl (fun existing a => some (f existing a)) (readLog f l []) := by
  induction l generalizing operands with
  | nil => rfl
  | cons e older ih =>
    cases e with
    | put v => rfl
    | delete => rfl
    | merge a => rw [readLog, readLog, ih, ih [a], List.foldl_cons, List.foldl_cons, List.foldl_nil]

/-- Reading later gives what applying every entry when it is written gives. -/
lemma readLog_cons (f : Option ν → ν → ν) (e : LogEntry ν) (older : List (LogEntry ν)) :
    readLog f (e :: older) [] = e.apply f (readLog f older []) := by
  cases e with
  | put v => rfl
  | delete => rfl
  | merge a =>
    rw [readLog, readLog_operands]
    rfl

/-- One compaction of the log of a key, newest entry first. -/
inductive Compacts (f : Option ν → ν → ν) : List (LogEntry ν) → List (LogEntry ν) → Prop
  | older (e : LogEntry ν) {l l' : List (LogEntry ν)} : Compacts f l l' → Compacts f (e :: l) (e :: l')
  | operands (a b : ν) (l : List (LogEntry ν)) :
    Compacts f (.merge b :: .merge a :: l) (.merge (f (some a) b) :: l)
  | value (v a : ν) (l : List (LogEntry ν)) : Compacts f (.merge a :: .put v :: l) (.put (f (some v) a) :: l)
  | deleted (a : ν) (l : List (LogEntry ν)) : Compacts f (.merge a :: .delete :: l) (.put (f none a) :: l)
  | first (a : ν) : Compacts f [.merge a] [.put (f none a)]
  | behindPut (v : ν) (l : List (LogEntry ν)) : Compacts f (.put v :: l) [.put v]
  | behindDelete (l : List (LogEntry ν)) : Compacts f (.delete :: l) [.delete]
  | forgotten : Compacts f [.delete] []

/-- As far as `obs` tells values apart, merging is associative. -/
structure Observes (f : Option ν → ν → ν) (obs : ν → μ) : Prop where
  congr : ∀ e e' a, e.map obs = e'.map obs → obs (f e a) = obs (f e' a)
  assoc : ∀ e a b, obs (f (some (f e a)) b) = obs (f e (f (some a) b))

lemma Observes.apply_congr {f : Option ν → ν → ν} {obs : ν → μ} (h : Observes f obs) {e e' : Option ν}
    (he : e.map obs = e'.map obs) (a : LogEntry ν) : (a.apply f e).map obs = (a.apply f e').map obs := by
  cases a with
  | put v => rfl
  | merge a => exact congrArg some (h.congr e e' a he)
  | delete => rfl

/-- A compaction does not change what is observed of the value. -/
theorem Compacts.readLog_eq {f : Option ν → ν → ν} {obs : ν → μ} (h : Observes f obs) {l l' : List (LogEntry ν)}
    (hc : Compacts f l l') : (readLog f l' []).map obs = (readLog f l []).map obs := by
  induction hc with
  | older e _ ih =>
    rw [readLog_cons, readLog_cons]
    exact h.apply_congr ih e
  | operands a b l =>
    rw [readLog_cons, readLog_cons, readLog_cons]
    exact congrArg some (h.assoc _ a b).symm
  | value v a l => rfl
  | deleted a l => rfl
  | first a => rfl
  | behindPut v l => rfl
  | behindDelete l => rfl
  | forgotten => rfl

lemma readLog_eq_of_compacts {f : Option ν → ν → ν} {obs : ν → μ} (h : Observes f obs) {l l' : List (LogEntry ν)}
    (hc : Relation.ReflTransGen (Compacts f) l l') : (readLog f l' []).map obs = (readLog f l []).map obs := by
  induction hc with
  | refl => rfl
  | tail _ hstep ih => rw [hstep.readLog_eq h, ih]

lemma Compacts.carries {f : Option ν → ν → ν} {P : ν → Prop} (hf : ∀ e a, P (f e a)) {l l' : List (LogEntry ν)}
    (hc : Compacts f l l') (hl : ∀ e ∈ l, e.Carries P) : ∀ e ∈ l', e.Carries P := by
  induction hc with
  | older e _ ih =>
    have htail := ih fun e' he' => hl e' (List.mem_cons_of_mem _ he')
    intro e' he'
    rcases List.mem_cons.mp he' with rfl | he'
    · exact hl _ List.mem_cons_self
    · exact htail e' he'
  | operands a b l => grind [LogEntry.Carries]
  | value v a l => grind [LogEntry.Carries]
  | deleted a l => grind [LogEntry.Carries]
  | first a => grind [LogEntry.Carries]
  | behindPut v l => grind
  | behindDelete l => grind
  | forgotten => grind

lemma carries_of_compacts {f : Option ν → ν → ν} {P : ν → Prop} (hf : ∀ e a, P (f e a)) {l l' : List (LogEntry ν)}
    (hc : Relation.ReflTransGen (Compacts f) l l') (hl : ∀ e ∈ l, e.Carries P) : ∀ e ∈ l', e.Carries P := by
  induction hc with
  | refl => exact hl
  | tail _ hstep ih => exact hstep.carries hf ih

lemma readLog_carries {f : Option ν → ν → ν} {P : ν → Prop} (hf : ∀ e a, P (f e a)) {l : List (LogEntry ν)}
    (hl : ∀ e ∈ l, e.Carries P) {v : ν} (hv : readLog f l [] = some v) : P v := by
  cases l with
  | nil => cases hv
  | cons e older =>
    rw [readLog_cons] at hv
    exact LogEntry.apply_of_carries hf (hl e List.mem_cons_self) hv

/-! ### The logs of all keys -/

variable [LinearOrder κ]

/-- The log of a key; a key that was never written has none. -/
def logOf (m : OrderedMap κ (List (LogEntry ν))) (k : κ) : List (LogEntry ν) := (m.find? k).getD []

def appendLog (m : OrderedMap κ (List (LogEntry ν))) (k : κ) (e : LogEntry ν) : OrderedMap κ (List (LogEntry ν)) :=
  m.set k (e :: logOf m k)

lemma logOf_appendLog (m : OrderedMap κ (List (LogEntry ν))) (k k' : κ) (e : LogEntry ν) :
    logOf (appendLog m k e) k' = if k' = k then e :: logOf m k else logOf m k' := by
  rw [logOf, appendLog, OrderedMap.find?_set]
  split_ifs <;> rfl

/-- The keys with a value, and their values. -/
def readLogs (f : Option ν → ν → ν) (m : OrderedMap κ (List (LogEntry ν))) : OrderedMap κ ν :=
  m.filterMapValues fun l => readLog f l []

lemma find?_readLogs (f : Option ν → ν → ν) (m : OrderedMap κ (List (LogEntry ν))) (k : κ) :
    (readLogs f m).find? k = readLog f (logOf m k) [] := by
  rw [readLogs, OrderedMap.find?_filterMapValues, logOf]
  cases m.find? k <;> rfl

lemma find?_readLogs_appendLog (f : Option ν → ν → ν) (m : OrderedMap κ (List (LogEntry ν))) (k k' : κ)
    (e : LogEntry ν) :
    (readLogs f (appendLog m k e)).find? k' =
      if k' = k then e.apply f ((readLogs f m).find? k) else (readLogs f m).find? k' := by
  simp only [find?_readLogs, logOf_appendLog]
  split_ifs with hk
  · exact readLog_cons f e _
  · rfl

/-- Any entries of any keys were compacted. -/
def Compacted (f : Option ν → ν → ν) (m m' : OrderedMap κ (List (LogEntry ν))) : Prop :=
  ∀ k, Relation.ReflTransGen (Compacts f) (logOf m k) (logOf m' k)

theorem Compacted.find?_readLogs {f : Option ν → ν → ν} {obs : ν → μ} (h : Observes f obs)
    {m m' : OrderedMap κ (List (LogEntry ν))} (hc : Compacted f m m') (k : κ) :
    ((readLogs f m').find? k).map obs = ((readLogs f m).find? k).map obs := by
  rw [Library.find?_readLogs, Library.find?_readLogs]
  exact readLog_eq_of_compacts h (hc k)

lemma Compacted.carries {f : Option ν → ν → ν} {P : ν → Prop} (hf : ∀ e a, P (f e a))
    {m m' : OrderedMap κ (List (LogEntry ν))} (hc : Compacted f m m') (hm : ∀ k, ∀ e ∈ logOf m k, e.Carries P)
    (k : κ) : ∀ e ∈ logOf m' k, e.Carries P :=
  carries_of_compacts hf (hc k) (hm k)

/-- Every log is brought down to the value it reads. -/
def compactLogs (f : Option ν → ν → ν) (m : OrderedMap κ (List (LogEntry ν))) : OrderedMap κ (List (LogEntry ν)) :=
  (readLogs f m).mapValues fun _ v => [.put v]

/-- One compaction after another brings a log down to its value. -/
lemma compacts_readLog (f : Option ν → ν → ν) (l : List (LogEntry ν)) :
    Relation.ReflTransGen (Compacts f) l ((readLog f l []).toList.map .put) := by
  induction l with
  | nil => exact .refl
  | cons e older ih =>
    rw [readLog_cons]
    cases e with
    | put v => exact .single (.behindPut v older)
    | delete => exact .tail (.single (.behindDelete older)) .forgotten
    | merge a =>
      have hunder : Relation.ReflTransGen (Compacts f) (.merge a :: older)
          (.merge a :: (readLog f older []).toList.map .put) :=
        ih.lift (LogEntry.merge a :: ·) fun _ _ => .older _
      apply hunder.tail
      cases readLog f older [] with
      | none => exact .first a
      | some v => exact .value v a []

lemma compacted_compactLogs (f : Option ν → ν → ν) (m : OrderedMap κ (List (LogEntry ν))) :
    Compacted f m (compactLogs f m) := by
  intro k
  have hlog : logOf (compactLogs f m) k = (readLog f (logOf m k) []).toList.map .put := by
    rw [logOf, compactLogs, OrderedMap.find?_mapValues, find?_readLogs]
    cases readLog f (logOf m k) [] <;> rfl
  rw [hlog]
  exact compacts_readLog f _

end WfcBtp.Library
