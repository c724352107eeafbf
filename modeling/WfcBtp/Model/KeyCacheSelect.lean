import WfcBtp.Model.KeyCache

/-!
# Queries over the cached names

The two overloads of `select`, and `tree`. Sorting is a parameter, since the order of
equal elements is left open by `std::sort`. A result is `none` where the source would move
an iterator beyond the end.
-/

namespace WfcBtp
open Library

abbrev NameValue := Name × ℤ

/-- `std::sort` with a comparator, at any element type. -/
abbrev SortFunction := (α : Type) → (α → α → Bool) → List α → List α

def checkPrefix (value start : Name) : Bool :=
  if !start.isEmpty then
    if value.length < start.length then false else value.take start.length == start
  else true

def checkSuffix (value ending : Name) : Bool :=
  if !ending.isEmpty then
    if value.length < ending.length then false else value.drop (value.length - ending.length) == ending
  else true

def findLoop (str : Name) : Name → ℕ → Option ℕ
  | [], i => if str.isPrefixOf [] then some i else none
  | c :: rest, i => if str.isPrefixOf (c :: rest) then some i else findLoop str rest (i + 1)

/-- `std::string::find`, with `none` for `npos`. -/
def strFind (value str : Name) (pos : ℕ) : Option ℕ :=
  if value.length < pos then none else findLoop str (value.drop pos) pos

def getByValue (by' : SortBy) (ai : AggregatedInfo) : ℤ :=
  match by' with
  | .nosort => 0
  | .avg => ai.avg
  | .count => toValue ai.count
  | .perc50 => ai.perc50
  | .perc80 => ai.perc80
  | .perc95 => ai.perc95
  | .perc99 => ai.perc99
  | .perc100 => ai.perc100
  | .min => ai.min
  | .max => ai.max
  | .lossy => toValue ai.lossy

/-- `create_compare`. There is no comparator for `nosort`, which never sorts. -/
def createCompare (by' : SortBy) (left right : Name × AggregatedInfo) : Bool :=
  match by' with
  | .nosort => false
  | .avg => left.2.avg > right.2.avg
  | .count => left.2.count > right.2.count
  | .perc50 => left.2.perc50 > right.2.perc50
  | .perc80 => left.2.perc80 > right.2.perc80
  | .perc95 => left.2.perc95 > right.2.perc95
  | .perc99 => left.2.perc99 > right.2.perc99
  | .perc100 => left.2.perc100 > right.2.perc100
  | .min => left.2.min > right.2.min
  | .max => left.2.max > right.2.max
  | .lossy => left.2.lossy > right.2.lossy

namespace KeyCache

variable {W : Wrtstat} {ν : Type}

/-- The scan of the first `select`. -/
def selectLoop (start ending : Name) : List (Name × ν) → ℕ → ℕ → List NameValue → List NameValue
  | [], _, _, result => result
  | e :: rest, offset, limit, result =>
    if !checkPrefix e.1 start then result
    else if !checkSuffix e.1 ending then selectLoop start ending rest offset limit result
    else if offset ≠ 0 then selectLoop start ending rest (offset - 1) limit result
    else
      let result := result ++ [(e.1, 0)]
      if limit ≠ 0 ∧ result.length = limit then result
      else selectLoop start ending rest offset limit result

/-- The scan of the second `select`. -/
def selectionLoop (start ending : Name) (info : ν → AggregatedInfo) :
    List (Name × ν) → List (Name × AggregatedInfo) → List (Name × AggregatedInfo)
  | [], selection => selection
  | e :: rest, selection =>
    if !checkPrefix e.1 start then selection
    else if checkSuffix e.1 ending then
      selectionLoop start ending info rest (selection ++ [(e.1, info e.2)])
    else selectionLoop start ending info rest selection

def selectNames (c : KeyCache W) (start ending : Name) (offset limit : ℕ) : List NameValue :=
  selectLoop start ending (c.keyMap.lowerBound start) offset limit []

/-- The range from `beg` to `end` of a vector, where both are within it. -/
def range {α : Type} (l : List α) (beg end' : ℕ) : Option (List α) :=
  if beg ≤ end' ∧ end' ≤ l.length then some ((l.drop beg).take (end' - beg)) else none

def select (sort : SortFunction) (c : KeyCache W) (start ending : Name) (offset limit : ℕ) (by' : SortBy)
    (power : Bool) : Option (List NameValue) :=
  if by' = .nosort then some (c.selectNames start ending offset limit)
  else
    let selection := selectionLoop start ending (·.getAggregatedInfo power) (c.keyMap.lowerBound start) []
    if selection.length < offset then some []
    else
      let selection := sort _ (createCompare by') selection
      let end' := if limit ≠ 0 ∧ selection.length > (offset + limit) % 2 ^ 64 then offset + limit
        else selection.length
      (range selection offset end').map (List.map fun agn => (agn.1, getByValue by' agn.2))

/-- The loop of `tree` that looks for the separator `depth` times from `pos` on. -/
def cutPos (name sep : Name) : ℕ → ℕ → Option ℕ
  | 0, pos => some pos
  | depth + 1, pos =>
    match strFind name sep pos with
    | none => none
    | some pos => cutPos name sep depth pos

/-- The loop of `tree` over the selected names. -/
def treeLoop (head sep : Name) (depth : ℕ) (node : TreeNode) : List NameValue → List NameValue →
    List NameValue
  | [], res => res
  | item :: rest, res =>
    match cutPos item.1 sep depth head.length with
    | none =>
      if node ≠ .branch then treeLoop head sep depth node rest (res ++ [(item.1.drop head.length, item.2)])
      else treeLoop head sep depth node rest res
    | some pos =>
      if node ≠ .leaf then
        let size1 := match strFind item.1 sep pos with
          | some pos => pos - head.length
          | none => item.1.length - head.length
        treeLoop head sep depth node rest (res ++ [((item.1.drop head.length).take size1, item.2)])
      else treeLoop head sep depth node rest res

/-- `std::unique` by name: the first of every run of equal names stays. -/
def uniqueNames : List NameValue → List NameValue
  | [] => []
  | a :: rest =>
    match uniqueNames rest with
    | [] => [a]
    | b :: rest' => if a.1 = b.1 then a :: rest' else a :: b :: rest'

def tree (sort : SortFunction) (c : KeyCache W) (start sep : Name) (depth offset limit : ℕ) (node : TreeNode)
    (by' : SortBy) (power : Bool) : Option (List NameValue) :=
  if depth = 0 then some []
  else
    let head := if start.isEmpty then [] else start ++ sep
    match c.select sort head [] 0 0 (if node = .leaf then by' else .nosort) power with
    | none => none
    | some [] => some []
    | some lst =>
      let res := treeLoop head sep depth node lst []
      let res := if node ≠ .leaf then uniqueNames (sort _ (fun a b => decide (a.1 < b.1)) res) else res
      if offset = 0 then
        if limit ≠ 0 ∧ res.length > limit then some (res.take limit) else some res
      else if res.length < offset then some []
      else
        let end' := if res.length < (offset + limit) % 2 ^ 64 then res.length else offset + limit
        range res offset end'

/-! ### What the queries depend on -/

/-- The aggregated info of every cached name. -/
def infos (c : KeyCache W) (power : Bool) : OrderedMap Name AggregatedInfo :=
  c.keyMap.mapValues fun _ ka => ka.getAggregatedInfo power

lemma selectLoop_map {ν' : Type} (start ending : Name) (f : ν → ν') (l : List (Name × ν)) (offset limit : ℕ)
    (result : List NameValue) :
    selectLoop start ending (l.map fun e => (e.1, f e.2)) offset limit result =
      selectLoop start ending l offset limit result := by
  induction l generalizing offset result with
  | nil => rfl
  | cons e rest ih =>
    simp only [List.map_cons, selectLoop, ih]

lemma selectionLoop_map (start ending : Name) (info : ν → AggregatedInfo) (l : List (Name × ν))
    (selection : List (Name × AggregatedInfo)) :
    selectionLoop start ending id (l.map fun e => (e.1, info e.2)) selection =
      selectionLoop start ending info l selection := by
  induction l generalizing selection with
  | nil => rfl
  | cons e rest ih =>
    simp only [List.map_cons, selectionLoop, ih, id]

/-- Caches with the same infos under the same names answer a query alike. -/
lemma select_congr {c c' : KeyCache W} {power : Bool} (h : c.infos power = c'.infos power)
    (sort : SortFunction) (start ending : Name) (offset limit : ℕ) (by' : SortBy) :
    c.select sort start ending offset limit by' power = c'.select sort start ending offset limit by' power := by
  have hrows := congrArg (fun m => m.lowerBound start) h
  simp only [infos, OrderedMap.lowerBound_mapValues] at hrows
  have hnames : c.selectNames start ending offset limit = c'.selectNames start ending offset limit := by
    unfold selectNames
    have hmap := selectLoop_map start ending (fun ka : KeyAggregator W => ka.getAggregatedInfo power)
    rw [← hmap (c.keyMap.lowerBound start), ← hmap (c'.keyMap.lowerBound start), hrows]
  have hselection : selectionLoop start ending (·.getAggregatedInfo power) (c.keyMap.lowerBound start) [] =
      selectionLoop start ending (·.getAggregatedInfo power) (c'.keyMap.lowerBound start) [] := by
    have hmap := selectionLoop_map start ending (fun ka : KeyAggregator W => ka.getAggregatedInfo power)
    rw [← hmap (c.keyMap.lowerBound start), ← hmap (c'.keyMap.lowerBound start), hrows]
  unfold select
  rw [hnames, hselection]

lemma tree_congr {c c' : KeyCache W} {power : Bool} (h : c.infos power = c'.infos power)
    (sort : SortFunction) (start sep : Name) (depth offset limit : ℕ) (node : TreeNode) (by' : SortBy) :
    c.tree sort start sep depth offset limit node by' power =
      c'.tree sort start sep depth offset limit node by' power := by
  unfold tree
  simp only [select_congr h]

end KeyCache

end WfcBtp
