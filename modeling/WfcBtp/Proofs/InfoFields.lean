import WfcBtp.Library.RunningMax
import WfcBtp.Model.KeyCacheSelect

/-!
# The fields of the key info

What recording points does to the eighteen fields that keep a maximum, as one statement
about all of them.
-/

namespace WfcBtp
open Library

variable {W : Wrtstat}

/-- The fields that are recorded both plain and multiplied with the count. -/
inductive Field
  | avg | min | perc50 | perc80 | perc95 | perc99 | perc100 | max
  deriving DecidableEq, Repr

namespace Field

/-- The order that ranks by the field. -/
def sortBy : Field → SortBy
  | avg => .avg
  | min => .min
  | perc50 => .perc50
  | perc80 => .perc80
  | perc95 => .perc95
  | perc99 => .perc99
  | perc100 => .perc100
  | max => .max

/-- The value of the field in a point. -/
def value (f : Field) (p : AggregatedInfo) : ℤ := getByValue f.sortBy p

/-- The maximum recorded for the field. -/
def stored : Field → StoredBasic → StoredPair
  | avg, b => b.avg
  | min, b => b.min
  | perc50, b => b.perc50
  | perc80, b => b.perc80
  | perc95, b => b.perc95
  | perc99, b => b.perc99
  | perc100, b => b.perc100
  | max, b => b.max

lemma stored_updateBasic (f : Field) (value : ℤ → ℤ) (b : StoredBasic) (p : AggregatedInfo) :
    f.stored (KeyAggregator.updateBasic value b p) =
      KeyAggregator.updateField (f.stored b) (value (f.value p)) p.ts := by
  cases f <;> rfl

end Field

/-- The eighteen fields of the key info that record a maximum. -/
inductive InfoField
  | count | lossy
  | max (f : Field)
  | pow (f : Field)
  deriving DecidableEq, Repr

namespace InfoField

/-- The value of a point that is recorded in the field. -/
def value : InfoField → AggregatedInfo → ℤ
  | count, p => toValue p.count
  | lossy, p => toValue p.lossy
  | max f, p => f.value p
  | pow f, p => powValue (f.value p) p.count

def stored : InfoField → StoredValues → StoredPair
  | count, si => si.count
  | lossy, si => si.lossy
  | max f, si => f.stored si.max
  | pow f, si => f.stored si.pow

lemma updateInfo_count (ki : StoredKey) (p : AggregatedInfo) :
    (KeyAggregator.updateInfo ki p).count = KeyAggregator.updateField ki.count (toValue p.count) p.ts := by
  rw [KeyAggregator.updateInfo]

lemma updateInfo_lossy (ki : StoredKey) (p : AggregatedInfo) :
    (KeyAggregator.updateInfo ki p).lossy = KeyAggregator.updateField ki.lossy (toValue p.lossy) p.ts := by
  rw [KeyAggregator.updateInfo]

lemma stored_updateInfo (f : InfoField) (ki : StoredKey) (p : AggregatedInfo) :
    f.stored (KeyAggregator.updateInfo ki p).toStoredValues =
      KeyAggregator.updateField (f.stored ki.toStoredValues) (f.value p) p.ts := by
  cases f with
  | count => rw [stored, stored, value, updateInfo_count]
  | lossy => rw [stored, stored, value, updateInfo_lossy]
  | max f => exact f.stored_updateBasic id ki.max p
  | pow f => exact f.stored_updateBasic (powValue · p.count) ki.pow p

lemma stored_setInfo (f : InfoField) (ki : StoredKey) (si : StoredValues) :
    f.stored (KeyAggregator.setInfo ki si).toStoredValues =
      KeyAggregator.setField si.lastUpdate (f.stored ki.toStoredValues) (f.stored si) := by
  cases f with
  | count => rfl
  | lossy => rfl
  | max f => cases f <;> rfl
  | pow f => cases f <;> rfl

lemma stored_new (f : InfoField) (id : KeyId) : f.stored { id := id : StoredKey }.toStoredValues = {} := by
  cases f with
  | count => rfl
  | lossy => rfl
  | max f => cases f <;> rfl
  | pow f => cases f <;> rfl

end InfoField

lemma StoredBasic.eq_of_fields {a b : StoredBasic} (h : ∀ f : Field, f.stored a = f.stored b) : a = b := by
  cases a
  cases b
  rw [StoredBasic.mk.injEq]
  exact ⟨h .avg, h .perc50, h .perc80, h .perc95, h .perc99, h .perc100, h .min, h .max⟩

/-- Its last update and its eighteen fields are all there is in a key info. -/
lemma StoredValues.eq_of_fields {a b : StoredValues} (hlast : a.lastUpdate = b.lastUpdate)
    (h : ∀ f : InfoField, f.stored a = f.stored b) : a = b := by
  have hmax : a.max = b.max := StoredBasic.eq_of_fields fun f => h (.max f)
  have hpow : a.pow = b.pow := StoredBasic.eq_of_fields fun f => h (.pow f)
  have hcount : a.count = b.count := h .count
  have hlossy : a.lossy = b.lossy := h .lossy
  cases a
  cases b
  rw [StoredValues.mk.injEq]
  exact ⟨hlast, hcount, hlossy, hmax, hpow⟩

namespace StoredPair

/-- The recorded value, labelled with its time. -/
def labelled (f : StoredPair) : ℤ × ℤ := (f.value, f.ts)

lemma labelled_updateField (f : StoredPair) (v t : ℤ) :
    (KeyAggregator.updateField f v t).labelled = keepLarger f.labelled (v, t) := by
  unfold KeyAggregator.updateField keepLarger labelled
  split_ifs <;> rfl

end StoredPair

namespace KeyAggregator

lemma labelled_foldl_updateInfo (f : InfoField) (points : List AggregatedInfo) (ki : StoredKey) :
    (f.stored (points.foldl updateInfo ki).toStoredValues).labelled =
      (points.map fun p => (f.value p, p.ts)).foldl keepLarger (f.stored ki.toStoredValues).labelled := by
  induction points generalizing ki with
  | nil => rfl
  | cons p rest ih =>
    rw [List.foldl_cons, ih, f.stored_updateInfo, StoredPair.labelled_updateField, List.map_cons, List.foldl_cons]

lemma value_foldl_updateInfo (f : InfoField) (points : List AggregatedInfo) (ki : StoredKey) :
    (f.stored (points.foldl updateInfo ki).toStoredValues).value =
      (points.map f.value).foldl max (f.stored ki.toStoredValues).value := by
  have hpair := congrArg Prod.fst (labelled_foldl_updateInfo f points ki)
  rw [foldl_keepLarger_fst, List.map_map] at hpair
  exact hpair

/-- The key after `update_info_` has recorded the points. -/
def recordPoints (ka : KeyAggregator W) (points : List AggregatedInfo) : KeyAggregator W :=
  { ka with keyInfo := points.foldl updateInfo ka.keyInfo }

end KeyAggregator

end WfcBtp
