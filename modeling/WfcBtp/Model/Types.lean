import Mathlib.Data.Fin.Basic
import Mathlib.Data.List.Lex
import Mathlib.Data.Prod.Lex
import Mathlib.Algebra.Order.Ring.Int
import Mathlib.Algebra.Order.Ring.Nat

/-!
# Data types

The records that travel between the cache, the two storages and the aggregation
library. `size_type` values are natural numbers and `value_type`, `time_type` values
are integers; where the source converts one into the other, or multiplies them, the
conversion to 64 bits is written out.
-/

namespace WfcBtp

/-- A byte string. `std::string` compares its bytes as unsigned numbers. -/
abbrev Name := List (Fin 256)

/-- `key_id_t`, a 64-bit unsigned number. -/
abbrev KeyId := ℕ

/-- `bad_key`, the largest `key_id_t`. -/
def badKey : KeyId := 2 ^ 64 - 1

/-- A `size_type` read as a `value_type`. -/
def toValue (n : ℕ) : ℤ := (n : ℤ).bmod (2 ^ 64)

/-- A `value_type` read as a `size_type`. -/
def toSize (v : ℤ) : ℕ := (v % 2 ^ 64).toNat

/-- The product of a `value_type` and a `size_type`, read as a `value_type`. -/
def powValue (v : ℤ) (n : ℕ) : ℤ := (v * n).bmod (2 ^ 64)

/-- A `value_type` or a `time_type` holds the number. -/
def Fits (v : ℤ) : Prop := -2 ^ 63 ≤ v ∧ v < 2 ^ 63

instance (v : ℤ) : Decidable (Fits v) := by
  unfold Fits
  infer_instance

/-- `wrtstat::reduced_info`. -/
structure ReducedInfo where
  ts : ℤ := 0
  count : ℕ := 0
  lossy : ℕ := 0
  min : ℤ := 0
  max : ℤ := 0
  avg : ℤ := 0
  deriving DecidableEq, Repr, Inhabited

/-- `wrtstat::aggregated_perc`. -/
structure AggregatedPerc where
  perc50 : ℤ := 0
  perc80 : ℤ := 0
  perc95 : ℤ := 0
  perc99 : ℤ := 0
  perc100 : ℤ := 0
  deriving DecidableEq, Repr, Inhabited

/-- `aggregated_info`: one stored point. -/
structure AggregatedInfo extends ReducedInfo, AggregatedPerc
  deriving DecidableEq, Repr, Inhabited

/-- `wrtstat::reduced_data`. -/
structure ReducedData extends ReducedInfo where
  data : List ℤ := []
  deriving DecidableEq, Repr

/-- `aggregated_data`: what clients add and what the aggregation library returns. -/
structure AggregatedData extends ReducedData, AggregatedPerc
  deriving DecidableEq, Repr

/-- The two `static_cast` assignments that make a point from aggregated data. -/
def AggregatedData.toPoint (ag : AggregatedData) : AggregatedInfo :=
  { toReducedInfo := ag.toReducedInfo, toAggregatedPerc := ag.toAggregatedPerc }

@[simp] lemma AggregatedData.toPoint_ts (ag : AggregatedData) : ag.toPoint.ts = ag.ts := rfl

@[simp] lemma AggregatedData.toPoint_count (ag : AggregatedData) : ag.toPoint.count = ag.count := rfl

/-- A recorded maximum and the time it was first reached at. -/
structure StoredPair where
  value : ℤ := 0
  ts : ℤ := 0
  deriving DecidableEq, Repr

structure StoredBasic where
  avg : StoredPair := {}
  perc50 : StoredPair := {}
  perc80 : StoredPair := {}
  perc95 : StoredPair := {}
  perc99 : StoredPair := {}
  perc100 : StoredPair := {}
  min : StoredPair := {}
  max : StoredPair := {}
  deriving DecidableEq, Repr

structure StoredValues where
  lastUpdate : ℤ := 0
  count : StoredPair := {}
  lossy : StoredPair := {}
  max : StoredBasic := {}
  pow : StoredBasic := {}
  deriving DecidableEq, Repr

/-- The value kept under a name in key storage. -/
structure StoredKey extends StoredValues where
  id : KeyId := 0
  deriving DecidableEq, Repr

structure StoredName extends StoredKey where
  name : Name := []
  deriving DecidableEq, Repr

inductive SortBy
  | nosort | avg | count | perc50 | perc80 | perc95 | perc99 | perc100 | min | max | lossy
  deriving DecidableEq, Repr

inductive TreeNode
  | any | leaf | branch
  deriving DecidableEq, Repr

/-- `key_cache_options`, with the one inherited aggregator option the cache reads itself, whose
default is the library's. -/
structure KeyCacheOptions where
  aggregateLastPoint : Bool := false
  ttl : ℤ := 0
  gcInterval : ℤ := 0
  mutexHash : ℕ := 1024
  resolution : ℤ
  deriving DecidableEq, Repr

end WfcBtp
