import WfcBtp.Library.Locks

/-!
# Critical sections

Programs that serve operations on an abstract state, each in one section of the same lock. What
stands for the abstract state changes in sections only, and only so that what was known of it
stays true. However the steps of the threads are interleaved, their results are those of the
operations served one after another, in an order that keeps the order of every thread.
-/

namespace WfcBtp.Library

universe u

variable {σ L α β τ κ ρ : Type} {ω : Type u}

/-- `part` is what the lock guards; it stands for an abstract state. `grows` tells which of its
later values are possible. -/
structure Sections (σ L τ κ : Type) (ω : Type u) (ρ : Type) where
  lock : L
  part : σ → τ
  grows : τ → τ → Prop
  refl : ∀ a, grows a a
  trans : ∀ a b c, grows a b → grows b c → grows a c
  stands : τ → κ → Prop
  serve : κ → ω → ρ × κ

/-- Where a thread is: outside of the lock it knows a past value of the part, inside of it the
present one and the abstract state it has found. -/
inductive Mode (τ κ : Type) (ω : Type u)
  | outside (todo : List ω) (past : τ)
  | inside (o : ω) (todo : List ω) (k : κ) (now : τ)

/-- The operations that are not served yet. -/
def Mode.todo : Mode τ κ ω → List ω
  | .outside todo _ => todo
  | .inside o todo _ _ => o :: todo

namespace Sections

variable [DecidableEq L] (S : Sections σ L τ κ ω ρ)

/-- From a mode and the results so far, the program serves operations and ends as stated. It
may pass over an operation that changes nothing, at an access outside of the lock. -/
def Serves (post : α → Mode τ κ ω → List ρ → Prop) : Prog σ L α → Mode τ κ ω → List ρ → Prop
  | .done a, m, results => post a m results
  | .acquire l p, .outside todo past, results =>
    if l = S.lock then
      ∃ o rest, todo = o :: rest ∧
        ∀ a k, S.grows past a → S.stands a k → Serves post p (.inside o rest k a) results
    else Serves post p (.outside todo past) results
  | .acquire l p, .inside o rest k now, results => l ≠ S.lock ∧ Serves post p (.inside o rest k now) results
  | .release l p, .outside todo past, results => l ≠ S.lock ∧ Serves post p (.outside todo past) results
  | .release l p, .inside o rest k now, results =>
    if l = S.lock then
      S.stands now (S.serve k o).2 ∧ Serves post p (.outside rest now) (results ++ [(S.serve k o).1])
    else Serves post p (.inside o rest k now) results
  | .access _ f next, .outside todo past, results =>
    (∀ s, S.part (f s) = S.part s) ∧ ∀ s, S.grows past (S.part s) →
      Serves post (next s) (.outside todo (S.part s)) results ∨
        ∃ o rest r, todo = o :: rest ∧ (∀ k, S.serve k o = (r, k)) ∧
          Serves post (next s) (.outside rest (S.part s)) (results ++ [r])
  | .access _ f next, .inside o rest k now, results =>
    ∀ s, S.part s = now →
      S.grows now (S.part (f s)) ∧ Serves post (next s) (.inside o rest k (S.part (f s))) results

variable {S} {post : α → Mode τ κ ω → List ρ → Prop}

lemma Serves.bind {p : Prog σ L β} {next : β → Prog σ L α} {mid : β → Mode τ κ ω → List ρ → Prop}
    {m : Mode τ κ ω} {results : List ρ} (hp : S.Serves mid p m results)
    (hnext : ∀ b m' results', mid b m' results' → S.Serves post (next b) m' results') :
    S.Serves post (p >>= next) m results := by
  change S.Serves post (p.bind next) m results
  induction p generalizing m results with
  | done b => exact hnext b m results hp
  | acquire l p ih =>
    cases m with
    | outside todo past =>
      by_cases hl : l = S.lock
      · simp only [Serves, if_pos hl] at hp
        simp only [Prog.bind, Serves, if_pos hl]
        obtain ⟨o, rest, htodo, hp⟩ := hp
        exact ⟨o, rest, htodo, fun a k hpast hk => ih (hp a k hpast hk)⟩
      · simp only [Serves, if_neg hl] at hp
        simp only [Prog.bind, Serves, if_neg hl]
        exact ih hp
    | inside o rest k now => exact ⟨hp.1, ih hp.2⟩
  | release l p ih =>
    cases m with
    | outside todo past => exact ⟨hp.1, ih hp.2⟩
    | inside o rest k now =>
      by_cases hl : l = S.lock
      · simp only [Serves, if_pos hl] at hp
        simp only [Prog.bind, Serves, if_pos hl]
        exact ⟨hp.1, ih hp.2⟩
      · simp only [Serves, if_neg hl] at hp
        simp only [Prog.bind, Serves, if_neg hl]
        exact ih hp
  | access guard f next' ih =>
    cases m with
    | outside todo past =>
      refine ⟨hp.1, fun s hs => ?_⟩
      rcases hp.2 s hs with hrest | ⟨o, rest, r, htodo, hserve, hrest⟩
      · exact .inl (ih s hrest)
      · exact .inr ⟨o, rest, r, htodo, hserve, ih s hrest⟩
    | inside o rest k now => exact fun s hs => ⟨(hp s hs).1, ih s (hp s hs).2⟩

lemma Serves.imp {post' : α → Mode τ κ ω → List ρ → Prop} {p : Prog σ L α} {m : Mode τ κ ω} {results : List ρ}
    (hp : S.Serves post p m results) (himp : ∀ a m' results', post a m' results' → post' a m' results') :
    S.Serves post' p m results := by
  have hbind : S.Serves post' (p >>= Prog.done) m results := hp.bind himp
  change S.Serves post' (p.bind Prog.done) m results at hbind
  rw [Prog.bind_done] at hbind
  exact hbind

/-- A whole section. -/
lemma serves_locked {p : Prog σ L α} {o : ω} {rest : List ω} {past : τ} {results : List ρ}
    (hp : ∀ a k, S.grows past a → S.stands a k →
      S.Serves (fun x m results' => ∃ now, m = .inside o rest k now ∧ results' = results ∧
        S.stands now (S.serve k o).2 ∧ post x (.outside rest now) (results ++ [(S.serve k o).1]))
        p (.inside o rest k a) results) :
    S.Serves post (Prog.locked S.lock p) (.outside (o :: rest) past) results := by
  simp only [Prog.locked, Serves, if_true]
  refine ⟨o, rest, rfl, fun a k hpast hk => (hp a k hpast hk).bind fun x m results' hx => ?_⟩
  obtain ⟨now, rfl, rfl, hnow, hx⟩ := hx
  simp only [Serves, if_true]
  exact ⟨hnow, hx⟩

/-- The scope of another lock. -/
lemma serves_locked_other {l : L} (hl : l ≠ S.lock) {p : Prog σ L α} {m : Mode τ κ ω} {results : List ρ}
    (hp : S.Serves post p m results) : S.Serves post (Prog.locked l p) m results := by
  have hrelease : S.Serves post (p >>= fun a => .release l (.done a)) m results := by
    refine Serves.bind hp fun a m' results' ha => ?_
    cases m' with
    | outside todo past => exact ⟨hl, ha⟩
    | inside o rest k now =>
      simp only [Serves, if_neg hl]
      exact ha
  cases m with
  | outside todo past =>
    simp only [Prog.locked, Serves, if_neg hl]
    exact hrelease
  | inside o rest k now => exact ⟨hl, hrelease⟩

lemma serves_touch_outside {guard : Option L} {f : σ → α × σ} {todo : List ω} {past : τ} {results : List ρ}
    (hpart : ∀ s, S.part (f s).2 = S.part s)
    (hpost : ∀ s, S.grows past (S.part s) → post (f s).1 (.outside todo (S.part s)) results) :
    S.Serves post (Prog.touch guard f) (.outside todo past) results :=
  ⟨hpart, fun s hs => .inl (hpost s hs)⟩

/-- The operation changes nothing, and is passed over. -/
lemma serves_touch_passing {guard : Option L} {f : σ → α × σ} {o : ω} {rest : List ω} {past : τ} {results : List ρ}
    {r : ρ} (hpart : ∀ s, S.part (f s).2 = S.part s) (hserve : ∀ k, S.serve k o = (r, k))
    (hpost : ∀ s, S.grows past (S.part s) → post (f s).1 (.outside rest (S.part s)) (results ++ [r])) :
    S.Serves post (Prog.touch guard f) (.outside (o :: rest) past) results :=
  ⟨hpart, fun s hs => .inr ⟨o, rest, r, rfl, hserve, hpost s hs⟩⟩

lemma serves_touch_inside {guard : Option L} {f : σ → α × σ} {o : ω} {rest : List ω} {k : κ} {now : τ}
    {results : List ρ} (hpost : ∀ s, S.part s = now →
      S.grows now (S.part (f s).2) ∧ post (f s).1 (.inside o rest k (S.part (f s).2)) results) :
    S.Serves post (Prog.touch guard f) (.inside o rest k now) results :=
  hpost

end Sections

/-! ### The order of the sections -/

namespace Sections

/-- The operations of a log served one after another, each for a thread. -/
def served (S : Sections σ L τ κ ω ρ) (k : κ) : List (ℕ × ω) → List (ℕ × ρ) × κ
  | [] => ([], k)
  | e :: rest => ((e.1, (S.serve k e.2).1) :: (S.served (S.serve k e.2).2 rest).1, (S.served (S.serve k e.2).2 rest).2)

lemma served_append (S : Sections σ L τ κ ω ρ) (k : κ) (log more : List (ℕ × ω)) :
    S.served k (log ++ more) =
      ((S.served k log).1 ++ (S.served (S.served k log).2 more).1, (S.served (S.served k log).2 more).2) := by
  induction log generalizing k with
  | nil => rfl
  | cons e rest ih =>
    simp only [List.cons_append, served, ih]

end Sections

/-- The entries of a thread. -/
def ofThread {γ : Type u} (i : ℕ) (l : List (ℕ × γ)) : List γ := (l.filter fun e => e.1 = i).map Prod.snd

lemma ofThread_append {γ : Type u} (i : ℕ) (l l' : List (ℕ × γ)) :
    ofThread i (l ++ l') = ofThread i l ++ ofThread i l' := by
  rw [ofThread, List.filter_append, List.map_append]
  rfl

lemma ofThread_singleton {γ : Type u} (i j : ℕ) (x : γ) : ofThread j [(i, x)] = if i = j then [x] else [] := by
  unfold ofThread
  by_cases h : i = j
  · rw [List.filter_cons_of_pos (by simpa using h), if_pos h]
    rfl
  · rw [List.filter_cons_of_neg (by simpa using h), if_neg h]
    rfl

namespace Sections

variable {S : Sections σ L τ κ ω ρ}

lemma ofThread_served_snoc (k : κ) (log : List (ℕ × ω)) (i j : ℕ) (o : ω) :
    ofThread j (S.served k (log ++ [(i, o)])).1 =
      ofThread j (S.served k log).1 ++ if i = j then [(S.serve (S.served k log).2 o).1] else [] := by
  rw [served_append, ofThread_append]
  exact congrArg _ (ofThread_singleton i j _)

lemma served_snoc_snd (k : κ) (log : List (ℕ × ω)) (i : ℕ) (o : ω) :
    (S.served k (log ++ [(i, o)])).2 = (S.serve (S.served k log).2 o).2 := by
  rw [served_append]
  rfl

variable [DecidableEq L]

/-- The log has the operations in the order in which they were served, and what stands for the
state after the last of them is there while no thread is inside. -/
structure Serial (S : Sections σ L τ κ ω ρ) (post : α → Mode τ κ ω → List ρ → Prop) (ops : ℕ → List ω) (k₀ : κ)
    (t : Threads σ L α) (log : List (ℕ × ω)) (modes : ℕ → Mode τ κ ω) : Prop where
  prog : ∀ i p, t.progs[i]? = some p → S.Serves post p (modes i) (ofThread i (S.served k₀ log).1)
  order : ∀ i, ofThread i log ++ (modes i).todo = ops i
  past : ∀ i todo past, modes i = .outside todo past → S.grows past (S.part t.shared)
  free : t.owner S.lock = none → S.stands (S.part t.shared) (S.served k₀ log).2
  outside : ∀ i, t.owner S.lock ≠ some i → ∃ todo past, modes i = .outside todo past
  inside : ∀ i, t.owner S.lock = some i → ∃ o rest, modes i = .inside o rest (S.served k₀ log).2 (S.part t.shared)

variable {post : α → Mode τ κ ω → List ρ → Prop} {ops : ℕ → List ω} {k₀ : κ} {t : Threads σ L α}
  {log : List (ℕ × ω)} {modes : ℕ → Mode τ κ ω}

lemma serial_start {s : σ} {progs : List (Prog σ L α)} (hk : S.stands (S.part s) k₀)
    (hprogs : ∀ i p, progs[i]? = some p → S.Serves post p (.outside (ops i) (S.part s)) []) :
    Serial S post ops k₀ (Threads.start s progs) [] fun i => .outside (ops i) (S.part s) where
  prog := hprogs
  order i := rfl
  past i todo past h := by
    cases h
    exact S.refl _
  free _ := hk
  outside i _ := ⟨_, _, rfl⟩
  inside i h := by cases h

/-- Thread `i` goes on, and the others stay where they are. -/
lemma Serial.move (h : Serial S post ops k₀ t log modes) {i : ℕ} {p p' : Prog σ L α} (hp : t.progs[i]? = some p)
    {s : σ} {owner : L → Option ℕ} {log' : List (ℕ × ω)} {m : Mode τ κ ω}
    (hserves : S.Serves post p' m (ofThread i (S.served k₀ log').1))
    (horder : ofThread i log' ++ m.todo = ops i)
    (hothers : ∀ j, j ≠ i → ofThread j log' = ofThread j log ∧
      ofThread j (S.served k₀ log').1 = ofThread j (S.served k₀ log).1)
    (hgrows : S.grows (S.part t.shared) (S.part s))
    (hpast : ∀ todo past, m = .outside todo past → S.grows past (S.part s))
    (hfree : owner S.lock = none → S.stands (S.part s) (S.served k₀ log').2)
    (houtside : ∀ j, owner S.lock ≠ some j → ∃ todo past, Function.update modes i m j = .outside todo past)
    (hinside : ∀ j, owner S.lock = some j →
      ∃ o rest, Function.update modes i m j = .inside o rest (S.served k₀ log').2 (S.part s)) :
    Serial S post ops k₀ ⟨s, owner, t.progs.set i p'⟩ log' (Function.update modes i m) where
  prog j q hq := by
    obtain ⟨hi, -⟩ := List.getElem?_eq_some_iff.mp hp
    by_cases hj : j = i
    · subst hj
      rw [List.getElem?_set_self hi] at hq
      obtain rfl := Option.some.inj hq
      rw [Function.update_self]
      exact hserves
    · rw [List.getElem?_set_ne (Ne.symm hj)] at hq
      rw [Function.update_of_ne hj, (hothers j hj).2]
      exact h.prog j q hq
  order j := by
    by_cases hj : j = i
    · rw [hj, Function.update_self]
      exact horder
    · rw [Function.update_of_ne hj, (hothers j hj).1]
      exact h.order j
  past j todo past hm := by
    by_cases hj : j = i
    · rw [hj, Function.update_self] at hm
      exact hpast todo past hm
    · rw [Function.update_of_ne hj] at hm
      exact S.trans _ _ _ (h.past j todo past hm) hgrows
  free := hfree
  outside := houtside
  inside := hinside

/-- A step that leaves the lock and the part alone, and serves nothing. -/
lemma Serial.stay (h : Serial S post ops k₀ t log modes) {i : ℕ} {p p' : Prog σ L α} (hp : t.progs[i]? = some p)
    {owner : L → Option ℕ} (howner : owner S.lock = t.owner S.lock)
    (hserves : S.Serves post p' (modes i) (ofThread i (S.served k₀ log).1)) :
    Serial S post ops k₀ ⟨t.shared, owner, t.progs.set i p'⟩ log modes := by
  have hmove : Serial S post ops k₀ ⟨t.shared, owner, t.progs.set i p'⟩ log (Function.update modes i (modes i)) := by
    apply h.move hp hserves (h.order i) (fun _ _ => ⟨rfl, rfl⟩) (S.refl _) (h.past i)
    · rw [howner]
      exact h.free
    · rw [Function.update_eq_self, howner]
      exact h.outside
    · rw [Function.update_eq_self, howner]
      exact h.inside
  rw [Function.update_eq_self] at hmove
  exact hmove

/-- A thread that takes the lock of the part finds there what stands for an abstract state. -/
lemma Serial.acquire (h : Serial S post ops k₀ t log modes) {i : ℕ} {l : L} {p : Prog σ L α}
    (at' : t.progs[i]? = some (.acquire l p)) (free : t.owner l = none) :
    ∃ modes', Serial S post ops k₀ { t with owner := Function.update t.owner l (some i), progs := t.progs.set i p }
      log modes' := by
  have hserves := h.prog i _ at'
  by_cases hl : l = S.lock
  · subst hl
    obtain ⟨todo, past, hm⟩ := h.outside i (by simp [free])
    rw [hm] at hserves
    simp only [Serves, if_true] at hserves
    obtain ⟨o, rest, rfl, hserves⟩ := hserves
    have horder := h.order i
    rw [hm] at horder
    refine ⟨_, h.move at' (hserves _ _ (h.past i _ _ hm) (h.free free)) horder (fun _ _ => ⟨rfl, rfl⟩)
      (S.refl _) (fun _ _ heq => by cases heq) (fun hnone => ?_) (fun j hj => ?_) fun j hj => ?_⟩
    · rw [Function.update_self] at hnone
      cases hnone
    · rw [Function.update_self] at hj
      rw [Function.update_of_ne fun heq => hj (congrArg some heq.symm)]
      exact h.outside j (by simp [free])
    · rw [Function.update_self] at hj
      obtain rfl := Option.some.inj hj
      rw [Function.update_self]
      exact ⟨o, rest, rfl⟩
  · refine ⟨modes, h.stay at' (Function.update_of_ne (Ne.symm hl) _ _) ?_⟩
    cases hm : modes i with
    | outside todo past =>
      rw [hm] at hserves
      simp only [Serves, if_neg hl] at hserves
      exact hserves
    | inside o rest k now =>
      rw [hm] at hserves
      exact hserves.2

/-- A thread that gives the lock of the part back has served an operation. -/
lemma Serial.release (h : Serial S post ops k₀ t log modes) {i : ℕ} {l : L} {p : Prog σ L α}
    (at' : t.progs[i]? = some (.release l p)) (own : t.owner l = some i) :
    ∃ log' modes', Serial S post ops k₀ { t with owner := Function.update t.owner l none, progs := t.progs.set i p }
      log' modes' := by
  have hserves := h.prog i _ at'
  by_cases hl : l = S.lock
  · subst hl
    obtain ⟨o, rest, hm⟩ := h.inside i own
    rw [hm] at hserves
    simp only [Serves, if_true] at hserves
    obtain ⟨hstands, hserves⟩ := hserves
    have horder := h.order i
    rw [hm] at horder
    have hlater : (S.served k₀ (log ++ [(i, o)])).2 = (S.serve (S.served k₀ log).2 o).2 := served_snoc_snd _ _ _ _
    refine ⟨log ++ [(i, o)], _, h.move at' (m := .outside rest (S.part t.shared)) ?_ ?_ (fun j hj => ?_) (S.refl _)
      (fun _ _ heq => ?_) (fun _ => ?_) (fun j _ => ?_) fun j hj => ?_⟩
    · rw [ofThread_served_snoc, if_pos rfl]
      exact hserves
    · rw [ofThread_append, ofThread_singleton, if_pos rfl, List.append_assoc]
      exact horder
    · rw [ofThread_append, ofThread_singleton, ofThread_served_snoc, if_neg (Ne.symm hj), if_neg (Ne.symm hj),
        List.append_nil, List.append_nil]
      exact ⟨rfl, rfl⟩
    · cases heq
      exact S.refl _
    · rw [hlater]
      exact hstands
    · by_cases hj : j = i
      · rw [hj, Function.update_self]
        exact ⟨_, _, rfl⟩
      · rw [Function.update_of_ne hj]
        exact h.outside j (by rw [own]; exact fun heq => hj (Option.some.inj heq).symm)
    · rw [Function.update_self] at hj
      cases hj
  · refine ⟨log, modes, h.stay at' (Function.update_of_ne (Ne.symm hl) _ _) ?_⟩
    cases hm : modes i with
    | outside todo past =>
      rw [hm] at hserves
      exact hserves.2
    | inside o rest k now =>
      rw [hm] at hserves
      simp only [Serves, if_neg hl] at hserves
      exact hserves

/-- An access by the thread that has the lock of the part. -/
lemma Serial.accessInside (h : Serial S post ops k₀ t log modes) {i : ℕ} {guard : Option L} {f : σ → σ}
    {next : σ → Prog σ L α} (at' : t.progs[i]? = some (.access guard f next)) (hi : t.owner S.lock = some i) :
    ∃ modes', Serial S post ops k₀ { t with shared := f t.shared, progs := t.progs.set i (next t.shared) }
      log modes' := by
  have hserves := h.prog i _ at'
  obtain ⟨o, rest, hm⟩ := h.inside i hi
  rw [hm] at hserves
  obtain ⟨hgrows, hserves⟩ := hserves t.shared rfl
  have horder := h.order i
  rw [hm] at horder
  refine ⟨_, h.move at' hserves horder (fun _ _ => ⟨rfl, rfl⟩) hgrows (fun _ _ heq => by cases heq)
    (fun hnone => ?_) (fun j hj => ?_) fun j hj => ?_⟩
  · rw [hi] at hnone
    cases hnone
  · rw [Function.update_of_ne fun heq => hj (by rw [hi, heq])]
    exact h.outside j hj
  · rw [hi] at hj
    obtain rfl := Option.some.inj hj
    rw [Function.update_self]
    exact ⟨o, rest, rfl⟩

/-- An access by another thread leaves the part alone, and may pass over an operation. -/
lemma Serial.accessOutside (h : Serial S post ops k₀ t log modes) {i : ℕ} {guard : Option L} {f : σ → σ}
    {next : σ → Prog σ L α} (at' : t.progs[i]? = some (.access guard f next)) (hi : t.owner S.lock ≠ some i) :
    ∃ log' modes', Serial S post ops k₀ { t with shared := f t.shared, progs := t.progs.set i (next t.shared) }
      log' modes' := by
  have hserves := h.prog i _ at'
  obtain ⟨todo, past, hm⟩ := h.outside i hi
  rw [hm] at hserves
  obtain ⟨hpart, hserves⟩ := hserves
  have horder := h.order i
  rw [hm] at horder
  have hgo : ∀ (log' : List (ℕ × ω)) (rest : List ω), (S.served k₀ log').2 = (S.served k₀ log).2 →
      S.Serves post (next t.shared) (.outside rest (S.part t.shared)) (ofThread i (S.served k₀ log').1) →
      ofThread i log' ++ rest = ops i →
      (∀ j, j ≠ i → ofThread j log' = ofThread j log ∧
        ofThread j (S.served k₀ log').1 = ofThread j (S.served k₀ log).1) →
      ∃ log' modes', Serial S post ops k₀
        { t with shared := f t.shared, progs := t.progs.set i (next t.shared) } log' modes' := by
    intro log' rest hsame hserves horder hothers
    refine ⟨log', _, h.move at' (m := .outside rest (S.part t.shared)) hserves horder hothers ?_
      (fun _ _ heq => ?_) (fun hnone => ?_) (fun j hj => ?_) fun j hj => ?_⟩
    · rw [hpart]
      exact S.refl _
    · cases heq
      rw [hpart]
      exact S.refl _
    · rw [hpart, hsame]
      exact h.free hnone
    · by_cases hji : j = i
      · rw [hji, Function.update_self]
        exact ⟨_, _, rfl⟩
      · rw [Function.update_of_ne hji]
        exact h.outside j hj
    · rw [Function.update_of_ne fun heq => hi (by rw [hj, heq]), hpart, hsame]
      exact h.inside j hj
  rcases hserves t.shared (h.past i _ _ hm) with hserves | ⟨o, rest, r, rfl, hserve, hserves⟩
  · exact hgo log todo rfl hserves horder fun _ _ => ⟨rfl, rfl⟩
  · refine hgo (log ++ [(i, o)]) rest ?_ ?_ ?_ fun j hj => ?_
    · rw [served_snoc_snd, hserve]
    · rw [ofThread_served_snoc, if_pos rfl, hserve]
      exact hserves
    · rw [ofThread_append, ofThread_singleton, if_pos rfl, List.append_assoc]
      exact horder
    · rw [ofThread_append, ofThread_singleton, ofThread_served_snoc, if_neg (Ne.symm hj), if_neg (Ne.symm hj),
        List.append_nil, List.append_nil]
      exact ⟨rfl, rfl⟩

lemma Serial.step {t' : Threads σ L α} (h : Serial S post ops k₀ t log modes) (hs : Threads.Step t t') :
    ∃ log' modes', Serial S post ops k₀ t' log' modes' := by
  cases hs with
  | acquire at' free => exact ⟨log, h.acquire at' free⟩
  | release at' own => exact h.release at' own
  | @access i guard f next at' =>
    by_cases hi : t.owner S.lock = some i
    · exact ⟨log, h.accessInside at' hi⟩
    · exact h.accessOutside at' hi

/-- The results of a thread that has come to its end. -/
def AllServed (out : α → List ρ → Prop) (a : α) (m : Mode τ κ ω) (results : List ρ) : Prop :=
  m.todo = [] ∧ out a results

/-- When all threads have come to their end, their operations were served one after another. -/
theorem serial_of_done {out : α → List ρ → Prop} {s : σ} {progs : List (Prog σ L α)} (hk : S.stands (S.part s) k₀)
    (hprogs : ∀ i p, progs[i]? = some p → S.Serves (AllServed out) p (.outside (ops i) (S.part s)) [])
    (hops : ∀ i, progs[i]? = none → ops i = [])
    (ht : Relation.ReflTransGen Threads.Step (Threads.start s progs) t) (hdone : t.Done) :
    ∃ log, (∀ i, ofThread i log = ops i) ∧ S.stands (S.part t.shared) (S.served k₀ log).2 ∧
      ∀ i a, t.progs[i]? = some (.done a) → out a (ofThread i (S.served k₀ log).1) := by
  have hserial : t.progs.length = progs.length ∧ ∃ log modes, Serial S (AllServed out) ops k₀ t log modes := by
    clear hdone
    induction ht with
    | refl => exact ⟨rfl, _, _, serial_start hk hprogs⟩
    | tail _ hs ih =>
      obtain ⟨hlength, log, modes, h⟩ := ih
      refine ⟨?_, h.step hs⟩
      rw [← hlength]
      cases hs with
      | acquire at' free => exact List.length_set
      | release at' own => exact List.length_set
      | access at' => exact List.length_set
  obtain ⟨hlength, log, modes, h⟩ := hserial
  refine ⟨log, fun i => ?_, h.free (hdone.2 S.lock), fun i a hi => (h.prog i _ hi).2⟩
  have horder := h.order i
  have htodo : (modes i).todo = [] := by
    cases hi : t.progs[i]? with
    | some p =>
      obtain ⟨a, rfl⟩ := hdone.1 p (List.mem_of_getElem? hi)
      exact (h.prog i _ hi).1
    | none =>
      have hnone : ops i = [] := hops i (by rw [List.getElem?_eq_none_iff] at hi ⊢; rwa [← hlength])
      rw [hnone, List.append_eq_nil_iff] at horder
      exact horder.2
  rw [htodo, List.append_nil] at horder
  exact horder

end Sections

namespace Threads

/-- What holds in every final state that is reached. -/
lemma Finishes.imp {S : Type} {step : S → S → Prop} {final final' : S → Prop} {s : S} (h : Finishes step final s)
    (himp : ∀ t, Relation.ReflTransGen step s t → final t → final' t) : Finishes step final' s := by
  induction h with
  | @intro s goes rest ih =>
    refine .intro (goes.imp (himp s .refl) id) fun s' hs => ih s' hs fun t ht => himp t (.head hs ht)

end Threads

end WfcBtp.Library
