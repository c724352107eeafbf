import WfcBtp.Model.Wrtstat

/-!
# Key aggregator

One cached key: its key info, which is persisted in key storage, and its aggregator,
which holds the period still open and lives in memory only.
-/

namespace WfcBtp

/-- `key_aggregator`. `mutex` is the index of the cache mutex the key was given. -/
structure KeyAggregator (W : Wrtstat) where
  mutex : ℕ
  keyInfo : StoredKey
  aggregator : W.Aggregator
  aggregateLastPoint : Bool

namespace KeyAggregator

variable {W : Wrtstat}

def create (m : ℕ) (id : KeyId) (ts : ℤ) (opt : KeyCacheOptions) : KeyAggregator W where
  mutex := m
  keyInfo := { id := id }
  aggregator := W.create ts
  aggregateLastPoint := opt.aggregateLastPoint

def getId (ka : KeyAggregator W) : KeyId := ka.keyInfo.id

def getKeyInfo (ka : KeyAggregator W) : StoredKey := ka.keyInfo

/-! ### Key info -/

def updateField (field : StoredPair) (v t : ℤ) : StoredPair :=
  if field.value < v then ⟨v, t⟩ else field

/-- The eight `update_field_` lines of one group; `value` is the identity for the plain
maxima and the product with the count for the power maxima. -/
def updateBasic (value : ℤ → ℤ) (b : StoredBasic) (data : AggregatedInfo) : StoredBasic where
  min := updateField b.min (value data.min) data.ts
  perc50 := updateField b.perc50 (value data.perc50) data.ts
  perc80 := updateField b.perc80 (value data.perc80) data.ts
  perc95 := updateField b.perc95 (value data.perc95) data.ts
  perc99 := updateField b.perc99 (value data.perc99) data.ts
  perc100 := updateField b.perc100 (value data.perc100) data.ts
  max := updateField b.max (value data.max) data.ts
  avg := updateField b.avg (value data.avg) data.ts

def updateInfo (ki : StoredKey) (data : AggregatedInfo) : StoredKey where
  id := ki.id
  lastUpdate := data.ts
  count := updateField ki.count (toValue data.count) data.ts
  lossy := updateField ki.lossy (toValue data.lossy) data.ts
  max := updateBasic id ki.max data
  pow := updateBasic (powValue · data.count) ki.pow data

def setField (begTs : ℤ) (f1 f2 : StoredPair) : StoredPair :=
  if f1.ts < begTs ∨ f1.value < f2.value then f2 else f1

/-- The eight `set_field_` lines of one group. -/
def setBasic (begTs : ℤ) (b1 b2 : StoredBasic) : StoredBasic where
  min := setField begTs b1.min b2.min
  perc50 := setField begTs b1.perc50 b2.perc50
  perc80 := setField begTs b1.perc80 b2.perc80
  perc95 := setField begTs b1.perc95 b2.perc95
  perc99 := setField begTs b1.perc99 b2.perc99
  perc100 := setField begTs b1.perc100 b2.perc100
  max := setField begTs b1.max b2.max
  avg := setField begTs b1.avg b2.avg

def setInfo (ki : StoredKey) (si : StoredValues) : StoredKey where
  id := ki.id
  lastUpdate := si.lastUpdate
  count := setField si.lastUpdate ki.count si.count
  lossy := setField si.lastUpdate ki.lossy si.lossy
  max := setBasic si.lastUpdate ki.max si.max
  pow := setBasic si.lastUpdate ki.pow si.pow

/-- The `reduced_data` a restored key is seeded with: its recorded maxima. -/
def seed (si : StoredValues) : ReducedData where
  ts := si.count.ts
  count := toSize si.count.value
  lossy := toSize si.lossy.value
  min := si.max.min.value
  max := si.max.max.value
  avg := si.max.avg.value

def setKeyInfo (ka : KeyAggregator W) (si : StoredValues) : KeyAggregator W :=
  { ka with keyInfo := setInfo ka.keyInfo si, aggregator := W.add ka.aggregator (seed si) }

def getAggregatedInfo (ka : KeyAggregator W) (pow : Bool) : AggregatedInfo :=
  let b := if pow then ka.keyInfo.pow else ka.keyInfo.max
  { count := toSize ka.keyInfo.count.value
    lossy := toSize ka.keyInfo.lossy.value
    min := b.min.value
    perc50 := b.perc50.value
    perc80 := b.perc80.value
    perc95 := b.perc95.value
    perc99 := b.perc99.value
    perc100 := b.perc100.value
    max := b.max.value
    avg := b.avg.value }

/-! ### Adding and merging data -/

/-- Data that came late bypass the aggregator. -/
def latePoint (W : Wrtstat) (data : AggregatedData) : AggregatedInfo :=
  let data := W.calcPerc data
  { data.toPoint with ts := W.getTs data.ts }

/-- Data without values but with percentiles get a hundred values made from them. -/
def fillData (data : AggregatedData) : AggregatedData :=
  if data.data.isEmpty ∧ data.max ≠ 0 then
    { data with data := List.replicate 51 data.perc50 ++ List.replicate 30 data.perc80 ++
        List.replicate 15 data.perc95 ++ List.replicate 4 data.perc99 ++ [data.perc100] }
  else data

def addHandler (ka : KeyAggregator W) (upData : List AggregatedInfo) (ag : AggregatedData) :
    KeyAggregator W × List AggregatedInfo :=
  ({ ka with keyInfo := updateInfo ka.keyInfo ag.toPoint }, upData ++ [ag.toPoint])

def addHandlers (ka : KeyAggregator W) (upData : List AggregatedInfo) :
    List AggregatedData → KeyAggregator W × List AggregatedInfo
  | [] => (ka, upData)
  | ag :: rest =>
    let r := addHandler ka upData ag
    addHandlers r.1 r.2 rest

def aggregateLastPointIf (ka : KeyAggregator W) (upData : List AggregatedInfo) (force : Bool) :
    KeyAggregator W × List AggregatedInfo :=
  if ka.aggregateLastPoint then
    let r := if force then W.forcePop ka.aggregator else W.aggregateCurrent ka.aggregator
    let ka := { ka with aggregator := r.2 }
    match r.1 with
    | some ag => ({ ka with keyInfo := updateInfo ka.keyInfo ag.toPoint }, upData ++ [ag.toPoint])
    | none => (ka, upData)
  else (ka, upData)

/-- The test that sends data past the aggregator. -/
def isLate (ka : KeyAggregator W) (ts : ℤ) : Prop :=
  ts ≠ 0 ∧ ts < W.currentTime ka.aggregator

instance (ka : KeyAggregator W) (ts : ℤ) : Decidable (ka.isLate ts) := by
  unfold isLate
  infer_instance

/-- `add`; the last component is `is_last`. -/
def add (ka : KeyAggregator W) (data : AggregatedData) (upData : List AggregatedInfo) :
    KeyAggregator W × List AggregatedInfo × Bool :=
  if ka.isLate data.ts then (ka, upData ++ [latePoint W data], false)
  else
    let r := W.push ka.aggregator (fillData data)
    let h := addHandlers { ka with aggregator := r.2 } upData r.1
    let l := aggregateLastPointIf h.1 h.2 false
    (l.1, l.2, true)

/-- Appends a point, or combines it with the last one when they have the same time. -/
def mergePoint (W : Wrtstat) (upData : List AggregatedInfo) (d : AggregatedInfo) : List AggregatedInfo :=
  match upData.getLast? with
  | none => upData ++ [d]
  | some b => if b.ts ≠ d.ts then upData ++ [d] else upData.dropLast ++ [W.plus b d]

def merge (ka : KeyAggregator W) (upData : List AggregatedInfo) :
    List AggregatedInfo → KeyAggregator W × List AggregatedInfo
  | [] => (ka, upData)
  | d :: rest =>
    let d := { d with ts := W.getTs d.ts }
    merge { ka with keyInfo := updateInfo ka.keyInfo d } (mergePoint W upData d) rest

/-! ### What one call does -/

/-- The points an on-time add hands on: the finished period, then the open one if the
option is set. -/
def currentPoints (ka : KeyAggregator W) (data : AggregatedData) : List AggregatedInfo :=
  let r := W.push ka.aggregator (fillData data)
  (r.1 ++ if ka.aggregateLastPoint then (W.aggregateCurrent r.2).1.toList else []).map
    AggregatedData.toPoint

/-- The aggregator after an on-time add. -/
def currentAggregator (ka : KeyAggregator W) (data : AggregatedData) : W.Aggregator :=
  let r := W.push ka.aggregator (fillData data)
  if ka.aggregateLastPoint then (W.aggregateCurrent r.2).2 else r.2

@[simp] lemma updateInfo_id (ki : StoredKey) (d : AggregatedInfo) : (updateInfo ki d).id = ki.id := rfl

lemma foldl_updateInfo_id (ds : List AggregatedInfo) (ki : StoredKey) :
    (ds.foldl updateInfo ki).id = ki.id := by
  induction ds generalizing ki with
  | nil => rfl
  | cons d rest ih => rw [List.foldl_cons, ih, updateInfo_id]

@[simp] lemma fillData_toReducedInfo (d : AggregatedData) :
    (fillData d).toReducedInfo = d.toReducedInfo := by
  unfold fillData
  split <;> rfl

lemma addHandlers_eq (ags : List AggregatedData) (ka : KeyAggregator W) (upData : List AggregatedInfo) :
    addHandlers ka upData ags =
      ({ ka with keyInfo := (ags.map AggregatedData.toPoint).foldl updateInfo ka.keyInfo },
        upData ++ ags.map AggregatedData.toPoint) := by
  induction ags generalizing ka upData with
  | nil => simp [addHandlers]
  | cons ag rest ih => simp [addHandlers, addHandler, ih]

lemma add_of_late {ka : KeyAggregator W} {data : AggregatedData} (h : ka.isLate data.ts)
    (upData : List AggregatedInfo) : ka.add data upData = (ka, upData ++ [latePoint W data], false) := by
  rw [add, if_pos h]

/-- An on-time add records exactly the points it hands on. -/
lemma add_of_not_late {ka : KeyAggregator W} {data : AggregatedData} (h : ¬ka.isLate data.ts)
    (upData : List AggregatedInfo) :
    ka.add data upData =
      ({ ka with keyInfo := (ka.currentPoints data).foldl updateInfo ka.keyInfo,
                 aggregator := ka.currentAggregator data },
        upData ++ ka.currentPoints data, true) := by
  rw [add, if_neg h]
  simp only [addHandlers_eq, aggregateLastPointIf, currentPoints, currentAggregator]
  by_cases hl : ka.aggregateLastPoint = true
  · simp only [hl, ite_true, Bool.false_eq_true, ite_false]
    cases (W.aggregateCurrent (W.push ka.aggregator (fillData data)).2).1 with
    | none => simp
    | some ag => simp
  · simp [hl]

/-- A merge records every point with its time aligned. -/
lemma merge_keyInfo (data : List AggregatedInfo) (ka : KeyAggregator W) (upData : List AggregatedInfo) :
    (ka.merge upData data).1 =
      { ka with keyInfo := (data.map fun d => { d with ts := W.getTs d.ts }).foldl updateInfo ka.keyInfo } := by
  induction data generalizing ka upData with
  | nil => rfl
  | cons d rest ih => rw [merge, ih]; rfl

@[simp] lemma add_getId (ka : KeyAggregator W) (data : AggregatedData) (upData : List AggregatedInfo) :
    (ka.add data upData).1.getId = ka.getId := by
  by_cases h : ka.isLate data.ts
  · rw [add_of_late h]
  · rw [add_of_not_late h]
    exact foldl_updateInfo_id _ _

@[simp] lemma add_aggregateLastPoint (ka : KeyAggregator W) (data : AggregatedData)
    (upData : List AggregatedInfo) : (ka.add data upData).1.aggregateLastPoint = ka.aggregateLastPoint := by
  by_cases h : ka.isLate data.ts
  · rw [add_of_late h]
  · rw [add_of_not_late h]

@[simp] lemma merge_getId (ka : KeyAggregator W) (upData data : List AggregatedInfo) :
    (ka.merge upData data).1.getId = ka.getId := by
  rw [merge_keyInfo]
  exact foldl_updateInfo_id _ _

end KeyAggregator

end WfcBtp
