import WfcBtp.Proofs.AttemptTable

/-!
# The table of counts

What a storage is for: it keeps, for every known name, the data that were added to it, and
answers with the sums of their counts per period. Its ids, its cache, its aggregators and
its databases are one way to do that.
-/

namespace WfcBtp
open Library

/-! ### The table -/

/-- The data added to every known name. -/
abbrev CountTable := Name → Option (List AggregatedData)

/-- A call of a client, or a cleanup. -/
inductive TableCall
  | add (clock : ℤ) (name : Name) (data : AggregatedData)
  | del (name : Name)
  | get (clock : ℤ) (name : Name) (ts : ℤ) (offset limit : ℕ)
  | gc (clock : ℤ)

/-- The call with none of its writes failing. -/
def TableCall.client : TableCall → ClientCall
  | .add clock name data => .add clock allOk name data
  | .del name => .del allOk name
  | .get clock name ts offset limit => .get clock name ts offset limit
  | .gc clock => .gc clock

namespace CountTable

variable (W : Wrtstat)

/-- The periods of the data from a time on, ascending, with the sums of their counts. -/
structure Sums (l : List AggregatedData) (ts : ℤ) (rows : List (ℤ × ℕ)) : Prop where
  ascending : rows.Pairwise fun a b => a.1 < b.1
  mem_iff : ∀ t n, (t, n) ∈ rows ↔ ts ≤ t ∧ recorded W l t = some n

/-- What the table answers and becomes. A cleanup may forget any known names. -/
inductive Step (opt : StorageOptions) (resultLimit : ℕ) :
    CountTable → TableCall → TableAnswer → CountTable → Prop
  | add (T : CountTable) (clock : ℤ) (name : Name) (data : AggregatedData) :
    Step opt resultLimit T (.add clock name data) (.returned (.ok ()))
      (Function.update T name (some ((T name).getD [] ++ [data])))
  | del {T : CountTable} {name : Name} (known : (T name).isSome) :
    Step opt resultLimit T (.del name) (.returned (.ok ())) (Function.update T name none)
  | delUnknown {T : CountTable} {name : Name} (unknown : T name = none) :
    Step opt resultLimit T (.del name) (.returned (.error .badKey)) T
  | get {T : CountTable} {clock : ℤ} {name : Name} {ts : ℤ} {offset limit : ℕ} {l : List AggregatedData}
    {rows : List (ℤ × ℕ)} (known : T name = some l)
    (sums : Sums W l (if ts = 0 then (clock - opt.dataTtl) * opt.keyCache.resolution else ts) rows) :
    Step opt resultLimit T (.get clock name ts offset limit)
      (.counts (.ok (((rows.drop offset).take (DataStorage.window limit resultLimit)).map Prod.snd))) T
  | getUnknown {T : CountTable} {clock : ℤ} {name : Name} {ts : ℤ} {offset limit : ℕ} (unknown : T name = none) :
    Step opt resultLimit T (.get clock name ts offset limit) (.counts (.error .badKey)) T
  | gc {T : CountTable} {clock : ℤ} (forgotten : Finset Name) (known : ∀ name ∈ forgotten, (T name).isSome) :
    Step opt resultLimit T (.gc clock) (.forgot forgotten.card) fun name =>
      if name ∈ forgotten then none else T name

end CountTable

variable {W : Wrtstat}

namespace AttemptTable

/-- Every add returned true, and these are their data. -/
structure AllTaken (A : AttemptTable) (T : CountTable) : Prop where
  sent : ∀ name, T name = (A name).map AttemptEntry.sent
  taken : ∀ name e, A name = some e → ∀ a ∈ e.attempts, a.2 = true

namespace AllTaken

variable {A : AttemptTable} {T : CountTable}

lemma isSome_iff (h : AllTaken A T) (name : Name) : (T name).isSome ↔ (A name).isSome := by
  rw [h.sent, Option.isSome_map]

lemma getD (h : AllTaken A T) (name : Name) : (T name).getD [] = (A.entry name).sent := by
  rw [h.sent, entry]
  cases A name <;> rfl

lemma add (h : AllTaken A T) {name : Name} {data : AggregatedData} {e : AttemptEntry}
    (he : e.attempts = (A.entry name).attempts ++ [(data, true)]) :
    AllTaken (Function.update A name (some e)) (Function.update T name (some ((T name).getD [] ++ [data]))) where
  sent name' := by
    by_cases hname : name' = name
    · subst hname
      rw [Function.update_self, Function.update_self, h.getD, Option.map_some, AttemptEntry.sent, AttemptEntry.sent, he,
        List.map_append]
      rfl
    · rw [Function.update_of_ne hname, Function.update_of_ne hname, h.sent]
  taken name' e' h' a ha := by
    by_cases hname : name' = name
    · subst hname
      rw [Function.update_self] at h'
      cases h'
      rw [he, List.mem_append, List.mem_singleton] at ha
      rcases ha with ha | rfl
      · rw [entry] at ha
        cases hA : A name' with
        | none =>
          rw [hA] at ha
          exact absurd ha List.not_mem_nil
        | some e₀ =>
          rw [hA] at ha
          exact h.taken name' e₀ hA a ha
      · rfl
    · rw [Function.update_of_ne hname] at h'
      exact h.taken name' e' h' a ha

/-- Some names are forgotten. -/
lemma forget (h : AllTaken A T) (gone : Name → Prop) [DecidablePred gone] :
    AllTaken (fun name => if gone name then none else A name) fun name => if gone name then none else T name where
  sent name := by
    split_ifs
    · rfl
    · exact h.sent name
  taken name e he := by
    split_ifs at he
    exact h.taken name e he

lemma del (h : AllTaken A T) (name : Name) :
    AllTaken (Function.update A name none) (Function.update T name none) := by
  have hupdate : ∀ {β : Type} (f : Name → Option β),
      Function.update f name none = fun name' => if name' = name then none else f name' := by
    intro β f
    funext name'
    exact Function.update_apply _ _ _ _
  rw [hupdate, hupdate]
  exact h.forget (· = name)

end AllTaken

end AttemptTable

namespace Storage

/-- What the storage answers and becomes, when no database write fails. -/
def answer (s : Storage W) : TableCall → TableAnswer × Storage W
  | .add clock name data => (.returned (s.add clock allOk name data).1, (s.add clock allOk name data).2)
  | .del name => (.returned (s.del allOk name).1, (s.del allOk name).2)
  | .get clock name ts offset limit =>
    (.counts ((s.get clock name ts offset limit).map fun points => points.map (·.count)), s)
  | .gc clock => (.forgot (s.gc clock).1, (s.gc clock).2)

/-- The names of the table have accounts in which every add returned true. -/
def Tracks (opened : W.Aggregator → Option ℕ) (opt : StorageOptions) (resultLimit n : ℕ) (s : Storage W)
    (T : CountTable) : Prop :=
  ∃ A, Accounts opened opt resultLimit n s A ∧ AttemptTable.AllTaken A T

namespace Tracks

variable {opened : W.Aggregator → Option ℕ} {opt : StorageOptions} {limits n : ℕ} {s : Storage W} {T : CountTable}

lemma fresh (W : Wrtstat) (opened : W.Aggregator → Option ℕ) (opt : StorageOptions) (clock : ℤ)
    (hashSize resultLimit : ℕ) {n : ℕ} (hn : n < badKey) :
    Tracks opened opt resultLimit n (Storage.fresh W opt clock hashSize resultLimit) fun _ => none :=
  ⟨fun _ => none, Accounts.fresh W opened opt clock hashSize resultLimit hn, fun _ => rfl, nofun⟩

lemma add (hA : W.AlignsTime) (hS : W.SumsCounts opened) (hC : W.CombinesCounts)
    (hlast : opt.keyCache.aggregateLastPoint = true) (hmerge : opt.disableMerge = false)
    (h : Tracks opened opt limits (n + 1) s T) (clock : ℤ) (name : Name) {data : AggregatedData} (hts : data.ts ≠ 0) :
    (s.add clock allOk name data).1 = .ok () ∧
      Tracks opened opt limits n (s.add clock allOk name data).2
        (Function.update T name (some ((T name).getD [] ++ [data]))) := by
  obtain ⟨A, haccounts, htaken⟩ := h
  have hok := (add_status_iff s clock name data).mpr (haccounts.keyId_ne_badKey name)
  obtain ⟨e, he, -, -, hnext⟩ := haccounts.add hA hS hC hlast hmerge clock allOk name hts
  rw [hok] at he
  exact ⟨hok, _, hnext, htaken.add he⟩

/-- The counts of a known name are the sums of its data. -/
lemma counts {A : AttemptTable} (h : Accounts opened opt limits n s A) (htaken : AttemptTable.AllTaken A T) {name : Name}
    {e : AttemptEntry} (he : A name = some e) :
    T name = some e.sent ∧ e.counts = recorded W e.sent := by
  have hknown : (s.keyCache.keyMap.find? name).isSome := (h.isSome_iff name).mp (by rw [he]; rfl)
  obtain ⟨ka, hk⟩ := Option.isSome_iff_exists.mp hknown
  obtain ⟨e', he', haccount⟩ := h.known name ka hk
  obtain rfl : e = e' := Option.some.inj (he.symm.trans he')
  refine ⟨?_, haccount.bounded.eq_sent (htaken.taken name e he)⟩
  rw [htaken.sent, he]
  rfl

/-- A call is answered as the table says. -/
lemma step (hA : W.AlignsTime) (hS : W.SumsCounts opened) (hC : W.CombinesCounts)
    (hlast : opt.keyCache.aggregateLastPoint = true) (hmerge : opt.disableMerge = false) {c : TableCall}
    (hc : ∀ clock name data, c = .add clock name data → data.ts ≠ 0) (h : Tracks opened opt limits (n + 1) s T) :
    ∃ T', CountTable.Step W opt limits T c (s.answer c).1 T' ∧ Tracks opened opt limits n (s.answer c).2 T' := by
  cases c with
  | add clock name data =>
    obtain ⟨hok, hnext⟩ := h.add hA hS hC hlast hmerge clock name (hc clock name data rfl)
    refine ⟨_, ?_, hnext⟩
    simp only [answer, hok]
    exact .add T clock name data
  | del name =>
    obtain ⟨A, haccounts, htaken⟩ := h
    obtain ⟨A', hstep, hnext⟩ := haccounts.del allOk name
    have hok : (A name).isSome → (s.del allOk name).1 = .ok () := by
      intro known
      rw [del_status_iff, del_fst_eq haccounts.toSeparate, if_pos ((haccounts.isSome_iff name).mp known)]
      exact haccounts.keyId_ne_badKey name
    rw [answer]
    generalize (s.del allOk name).1 = status at hstep hok ⊢
    cases hstep with
    | del known =>
      rw [hok known]
      exact ⟨_, .del ((htaken.isSome_iff name).mpr known), _, hnext, htaken.del name⟩
    | delUnknown unknown =>
      have hnone : T name = none := by rw [htaken.sent, unknown, Option.map_none]
      exact ⟨T, .delUnknown hnone, A, hnext, htaken⟩
  | get clock name ts offset limit =>
    obtain ⟨A, haccounts, htaken⟩ := h
    have hstep := haccounts.get clock name ts offset limit
    refine ⟨T, ?_, A, { haccounts with toSeparate := haccounts.fewer }, htaken⟩
    rw [answer]
    generalize (s.get clock name ts offset limit).map (fun points => points.map (·.count)) = result at hstep ⊢
    cases hstep with
    | get known rows_of =>
      obtain ⟨hsent, hcounts⟩ := counts haccounts htaken known
      rw [hcounts] at rows_of
      exact .get hsent ⟨rows_of.ascending, rows_of.mem_iff⟩
    | getUnknown unknown =>
      have hnone : T name = none := by rw [htaken.sent, unknown, Option.map_none]
      exact .getUnknown hnone
  | gc clock =>
    obtain ⟨A, haccounts, htaken⟩ := h
    obtain ⟨A', hstep, hnext⟩ := Accounts.gc { haccounts with toSeparate := haccounts.fewer } clock
    rw [answer]
    generalize (s.gc clock).1 = n at hstep ⊢
    cases hstep with
    | gc forgotten known =>
      refine ⟨_, .gc forgotten fun name hname => (htaken.isSome_iff name).mpr (known name hname), _, hnext, ?_⟩
      exact htaken.forget (· ∈ forgotten)

end Tracks

/-- Whatever names are added to, deleted, read and cleaned up, in whatever order and however
late the data are: every call returns, and every answer is one the table of counts gives. -/
theorem refines_count_table {opened : W.Aggregator → Option ℕ} (hA : W.AlignsTime) (hS : W.SumsCounts opened)
    (hC : W.CombinesCounts) (opt : StorageOptions) (hlast : opt.keyCache.aggregateLastPoint = true)
    (hmerge : opt.disableMerge = false) (clock : ℤ) (hashSize resultLimit : ℕ) (calls : List TableCall)
    (hts : ∀ clock name data, .add clock name data ∈ calls → data.ts ≠ 0) (hids : calls.length < badKey)
    {room : ℕ} (hbounded : Bounded room opt resultLimit (calls.map TableCall.client)) :
    RunMeets (fun s c => (s.reply c).2) (Answers room) (Storage.fresh W opt clock hashSize resultLimit)
        (calls.map TableCall.client) ∧
      ∃ T, Allowed (CountTable.Step W opt resultLimit) (fun _ => none) calls
        (answers Storage.answer (Storage.fresh W opt clock hashSize resultLimit) calls) T := by
  refine ⟨hbounded.run_answers W clock hashSize, ?_⟩
  have hok : ∀ c ∈ calls, ∀ clock name data, c = .add clock name data → data.ts ≠ 0 := by
    rintro c hc clock name data rfl
    exact hts clock name data hc
  have hstep : ∀ n (s : Storage W) T c, (∀ clock name data, c = .add clock name data → data.ts ≠ 0) →
      Tracks opened opt resultLimit (n + 1) s T →
      ∃ T', CountTable.Step W opt resultLimit T c (s.answer c).1 T' ∧ Tracks opened opt resultLimit n (s.answer c).2 T' :=
    fun n s T c hc h => h.step hA hS hC hlast hmerge hc
  obtain ⟨T, hT, -⟩ := allowed_of_simulation hstep hok (Tracks.fresh W opened opt clock hashSize resultLimit hids)
  exact ⟨T, hT⟩

theorem refines_count_table_across_del :
    let W := Wrtstat.reference 5 false
    let opt : StorageOptions := { keyCache := { aggregateLastPoint := true, resolution := 1 } }
    let calls : List TableCall := [.add 0 [97] { ts := 7, count := 1 }, .add 0 [97] { ts := 12, count := 2 },
      .add 0 [97] { ts := 6, count := 4 }, .get 0 [97] 1 0 0, .del [97], .get 0 [97] 1 0 0,
      .add 0 [97] { ts := 8, count := 3 }, .get 0 [97] 1 0 0]
    answers Storage.answer (Storage.fresh W opt 0 4 10) calls =
        [.returned (.ok ()), .returned (.ok ()), .returned (.ok ()), .counts (.ok [5, 2]), .returned (.ok ()),
          .counts (.error .badKey), .returned (.ok ()), .counts (.ok [3])] ∧
      RunMeets (fun s c => (s.reply c).2) (Answers 10) (Storage.fresh W opt 0 4 10) (calls.map TableCall.client) ∧
        ∃ T, Allowed (CountTable.Step W opt 10) (fun _ => none) calls
          (answers Storage.answer (Storage.fresh W opt 0 4 10) calls) T := by
  intro W opt calls
  constructor
  · decide +kernel
  · apply refines_count_table (Wrtstat.reference_alignsTime (by omega) false) (Wrtstat.reference_sumsCounts 5 false)
      (Wrtstat.reference_combinesCounts 5 false) opt rfl rfl 0 4 10 calls
    · intro clock name data hmem
      simp only [calls, List.mem_cons, List.not_mem_nil, TableCall.add.injEq, reduceCtorEq, or_false, false_or] at hmem
      rcases hmem with ⟨-, -, rfl⟩ | ⟨-, -, rfl⟩ | ⟨-, -, rfl⟩ | ⟨-, -, rfl⟩ <;> decide
    · decide
    · exact ⟨by decide, le_rfl, fun clock name offset limit hmem => by simp [calls, TableCall.client] at hmem⟩

end Storage

end WfcBtp
