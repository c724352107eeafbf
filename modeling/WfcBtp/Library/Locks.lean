import Mathlib.Data.List.MinMax
import Mathlib.Logic.Hydra
import Mathlib.Logic.Relation
import WfcBtp.Library.Interleaving

/-!
# Threads and locks

A program takes and gives back locks and makes accesses to a shared state, some of which are
guarded by a lock. If all programs take their locks in ascending order of a rank, they all
come to an end, in whatever order their steps are made, and no two threads are at accesses with
the same guard.
-/

namespace WfcBtp.Library

variable {σ L α β : Type}

/-- `next` gets the state as the access found it. -/
inductive Prog (σ L α : Type)
  | done (a : α)
  | acquire (l : L) (next : Prog σ L α)
  | release (l : L) (next : Prog σ L α)
  | access (guard : Option L) (f : σ → σ) (next : σ → Prog σ L α)

namespace Prog

def bind : Prog σ L α → (α → Prog σ L β) → Prog σ L β
  | .done a, k => k a
  | .acquire l p, k => .acquire l (p.bind k)
  | .release l p, k => .release l (p.bind k)
  | .access guard f next, k => .access guard f fun s => (next s).bind k

instance : Monad (Prog σ L) where
  pure := .done
  bind := .bind

/-- The program inside of the scope of a lock guard. -/
def locked (l : L) (p : Prog σ L α) : Prog σ L α :=
  .acquire l (p.bind fun a => .release l (.done a))

/-- One access that returns something. -/
def touch (guard : Option L) (f : σ → α × σ) : Prog σ L α := .access guard (fun s => (f s).2) fun s => .done (f s).1

/-- The program without other threads. -/
def alone : Prog σ L α → σ → α × σ
  | .done a, s => (a, s)
  | .acquire _ p, s => p.alone s
  | .release _ p, s => p.alone s
  | .access _ f next, s => (next s).alone (f s)

@[simp] lemma alone_done (a : α) (s : σ) : (done a : Prog σ L α).alone s = (a, s) := rfl

@[simp] lemma alone_pure (a : α) (s : σ) : (pure a : Prog σ L α).alone s = (a, s) := rfl

@[simp] lemma alone_touch (guard : Option L) (f : σ → α × σ) (s : σ) : (touch guard f).alone s = f s := rfl

@[simp] lemma alone_bind (p : Prog σ L α) (k : α → Prog σ L β) (s : σ) :
    (p >>= k).alone s = (k (p.alone s).1).alone (p.alone s).2 := by
  induction p generalizing s with
  | done a => rfl
  | acquire l p ih => exact ih s
  | release l p ih => exact ih s
  | access guard f next ih => exact ih s (f s)

@[simp] lemma alone_locked (l : L) (p : Prog σ L α) (s : σ) : (locked l p).alone s = p.alone s :=
  alone_bind p (fun a => .release l (.done a)) s

lemma bind_done (p : Prog σ L α) : p.bind .done = p := by
  induction p with
  | done a => rfl
  | acquire l p ih => exact congrArg (Prog.acquire l) ih
  | release l p ih => exact congrArg (Prog.release l) ih
  | access guard f next ih => exact congrArg (Prog.access guard f) (funext ih)

/-- Without other threads, the program ends with a result and in a state as stated. -/
def Ends (p : Prog σ L α) (s : σ) (post : α → σ → Prop) : Prop := post (p.alone s).1 (p.alone s).2

lemma Ends.bind {p : Prog σ L α} {k : α → Prog σ L β} {s : σ} {mid : α → σ → Prop} {post : β → σ → Prop}
    (hp : p.Ends s mid) (hk : ∀ a s', mid a s' → (k a).Ends s' post) : (p >>= k).Ends s post := by
  rw [Ends, alone_bind]
  exact hk _ _ hp

lemma ends_locked {l : L} {p : Prog σ L α} {s : σ} {post : α → σ → Prop} (hp : p.Ends s post) :
    (locked l p).Ends s post := by
  rw [Ends, alone_locked]
  exact hp

section Discipline

variable [DecidableEq L] (rank : L → ℕ)

/-- From holding the one locks to holding the others, the program takes every lock above those
it holds, gives back what it holds, and makes guarded accesses with their guards. -/
def Disciplined : List L → Prog σ L α → List L → Prop
  | held, .done _, held' => held' = held
  | held, .acquire l p, held' => (∀ h ∈ held, rank h < rank l) ∧ Disciplined (l :: held) p held'
  | held, .release l p, held' => l ∈ held ∧ Disciplined (held.erase l) p held'
  | held, .access guard _ next, held' => (∀ l ∈ guard, l ∈ held) ∧ ∀ s, Disciplined held (next s) held'

variable {rank} {held held' held'' : List L}

lemma disciplined_pure (a : α) : Disciplined rank held (pure a : Prog σ L α) held := rfl

lemma Disciplined.bind {p : Prog σ L α} {k : α → Prog σ L β} (hp : p.Disciplined rank held held')
    (hk : ∀ a, (k a).Disciplined rank held' held'') : (p >>= k).Disciplined rank held held'' := by
  induction p generalizing held with
  | done a =>
    cases hp
    exact hk a
  | acquire l p ih => exact ⟨hp.1, ih hp.2⟩
  | release l p ih => exact ⟨hp.1, ih hp.2⟩
  | access guard f next ih => exact ⟨hp.1, fun s => ih s (hp.2 s)⟩

lemma disciplined_touch {guard : Option L} (h : ∀ l ∈ guard, l ∈ held) (f : σ → α × σ) :
    (touch guard f).Disciplined rank held held :=
  ⟨h, fun _ => rfl⟩

lemma Disciplined.locked {l : L} {p : Prog σ L α} (hl : ∀ h ∈ held, rank h < rank l)
    (hp : p.Disciplined rank (l :: held) (l :: held)) : (locked l p).Disciplined rank held held := by
  refine ⟨hl, hp.bind fun a => ⟨List.mem_cons_self, ?_⟩⟩
  rw [List.erase_cons_head]
  rfl

end Discipline

/-- No access of the program ends the invariant. -/
def Keeps (inv : σ → Prop) : Prog σ L α → Prop
  | .done _ => True
  | .acquire _ p => p.Keeps inv
  | .release _ p => p.Keeps inv
  | .access _ f next => (∀ s, inv s → inv (f s)) ∧ ∀ s, (next s).Keeps inv

section Keeping

variable {inv : σ → Prop}

lemma keeps_pure (a : α) : (pure a : Prog σ L α).Keeps inv := trivial

lemma Keeps.bind {p : Prog σ L α} {k : α → Prog σ L β} (hp : p.Keeps inv) (hk : ∀ a, (k a).Keeps inv) :
    (p >>= k).Keeps inv := by
  induction p with
  | done a => exact hk a
  | acquire l p ih => exact ih hp
  | release l p ih => exact ih hp
  | access guard f next ih => exact ⟨hp.1, fun s => ih s (hp.2 s)⟩

lemma keeps_touch {guard : Option L} {f : σ → α × σ} (h : ∀ s, inv s → inv (f s).2) :
    (touch guard f).Keeps inv :=
  ⟨h, fun _ => trivial⟩

lemma Keeps.locked {l : L} {p : Prog σ L α} (hp : p.Keeps inv) : (locked l p).Keeps inv :=
  hp.bind fun _ => trivial

end Keeping

/-- The guard of the access that comes next. -/
def guard? : Prog σ L α → Option L
  | .access guard _ _ => guard
  | _ => none

/-- What is left of a program after its first step. -/
inductive Rest : Prog σ L α → Prog σ L α → Prop
  | acquire (l : L) (p : Prog σ L α) : Rest p (.acquire l p)
  | release (l : L) (p : Prog σ L α) : Rest p (.release l p)
  | access (guard : Option L) (f : σ → σ) (next : σ → Prog σ L α) (s : σ) : Rest (next s) (.access guard f next)

lemma wellFounded_rest : WellFounded (Rest : Prog σ L α → Prog σ L α → Prop) := by
  constructor
  intro p
  induction p with
  | done a =>
    constructor
    intro q hq
    cases hq
  | acquire l p ih =>
    constructor
    intro q hq
    cases hq
    exact ih
  | release l p ih =>
    constructor
    intro q hq
    cases hq
    exact ih
  | access guard f next ih =>
    constructor
    intro q hq
    cases hq with
    | access _ _ _ s => exact ih s

end Prog

/-! ### Threads -/

structure Threads (σ L α : Type) where
  shared : σ
  owner : L → Option ℕ
  progs : List (Prog σ L α)

namespace Threads

def start (s : σ) (progs : List (Prog σ L α)) : Threads σ L α := ⟨s, fun _ => none, progs⟩

/-- All threads have come to their end, and no lock is taken. -/
def Done (t : Threads σ L α) : Prop := (∀ p ∈ t.progs, ∃ a, p = .done a) ∧ ∀ l, t.owner l = none

/-- No two threads are at accesses with the same guard. -/
def Exclusive (t : Threads σ L α) : Prop :=
  ∀ (i j : ℕ) (p q : Prog σ L α) (l : L), t.progs[i]? = some p → t.progs[j]? = some q → p.guard? = some l →
    q.guard? = some l → i = j

/-- Whatever steps are made, they come to an end, and only in a final state. -/
inductive Finishes {S : Type} (step : S → S → Prop) (final : S → Prop) : S → Prop
  | intro {s : S} (goes : final s ∨ ∃ s', step s s') (rest : ∀ s', step s s' → Finishes step final s') :
    Finishes step final s

/-- One program has become what is left of it. -/
lemma cutExpand_set {progs : List (Prog σ L α)} {i : ℕ} {p p' : Prog σ L α} (hp : progs[i]? = some p)
    (hrest : Prog.Rest p' p) : Relation.CutExpand Prog.Rest (progs.set i p' : Multiset (Prog σ L α)) progs := by
  obtain ⟨hprogs, hset⟩ := split_at hp
  have hmiddle : ∀ q, ((progs.take i ++ q :: progs.drop (i + 1) : List (Prog σ L α)) : Multiset (Prog σ L α)) =
      {q} + (progs.take i ++ progs.drop (i + 1) : List (Prog σ L α)) := by
    intro q
    rw [Multiset.singleton_add, Multiset.cons_coe, Multiset.coe_eq_coe]
    exact List.perm_middle
  rw [hset p', hmiddle]
  conv_rhs => rw [hprogs]
  rw [hmiddle]
  exact Relation.cutExpand_single_add hrest _

section Steps

variable [DecidableEq L]

/-- A thread can take a lock that is free, and give back a lock that it has. -/
inductive Step : Threads σ L α → Threads σ L α → Prop
  | acquire {t : Threads σ L α} {i : ℕ} {l : L} {p : Prog σ L α} (at' : t.progs[i]? = some (.acquire l p))
    (free : t.owner l = none) :
    Step t { t with owner := Function.update t.owner l (some i), progs := t.progs.set i p }
  | release {t : Threads σ L α} {i : ℕ} {l : L} {p : Prog σ L α} (at' : t.progs[i]? = some (.release l p))
    (own : t.owner l = some i) :
    Step t { t with owner := Function.update t.owner l none, progs := t.progs.set i p }
  | access {t : Threads σ L α} {i : ℕ} {guard : Option L} {f : σ → σ} {next : σ → Prog σ L α}
    (at' : t.progs[i]? = some (.access guard f next)) :
    Step t { t with shared := f t.shared, progs := t.progs.set i (next t.shared) }

lemma Step.cutExpand {t t' : Threads σ L α} (h : Step t t') :
    Relation.CutExpand Prog.Rest (t'.progs : Multiset (Prog σ L α)) t.progs := by
  cases h with
  | acquire at' free => exact cutExpand_set at' (.acquire _ _)
  | release at' own => exact cutExpand_set at' (.release _ _)
  | access at' => exact cutExpand_set at' (.access _ _ _ _)

/-! ### The invariant -/

/-- `held` tells which locks every thread has. -/
structure Orderly (rank : L → ℕ) (held : ℕ → List L) (t : Threads σ L α) : Prop where
  prog : ∀ (i : ℕ) (p : Prog σ L α), t.progs[i]? = some p → p.Disciplined rank (held i) []
  nobody : ∀ i, t.progs.length ≤ i → held i = []
  nodup : ∀ i, (held i).Nodup
  owner_iff : ∀ l i, t.owner l = some i ↔ l ∈ held i

variable {rank : L → ℕ} {held : ℕ → List L}

lemma orderly_start (s : σ) {progs : List (Prog σ L α)} (h : ∀ p ∈ progs, p.Disciplined rank [] []) :
    Orderly rank (fun _ => []) (start s progs) where
  prog _ p hp := h p (List.mem_of_getElem? hp)
  nobody _ _ := rfl
  nodup _ := List.nodup_nil
  owner_iff l i := iff_of_false (by simp [start]) List.not_mem_nil

/-- A step of thread `i` changes what that thread holds, and nothing that others do. -/
lemma Orderly.set {t : Threads σ L α} (h : Orderly rank held t) {i : ℕ} {p p' : Prog σ L α}
    (hp : t.progs[i]? = some p) {mine : List L} (hp' : p'.Disciplined rank mine []) (hnodup : mine.Nodup)
    {owner : L → Option ℕ} (howner : ∀ l j, owner l = some j ↔ l ∈ Function.update held i mine j) (s : σ) :
    Orderly rank (Function.update held i mine) ⟨s, owner, t.progs.set i p'⟩ where
  prog j q hq := by
    obtain ⟨hi, -⟩ := List.getElem?_eq_some_iff.mp hp
    by_cases hj : j = i
    · subst hj
      rw [List.getElem?_set_self hi] at hq
      obtain rfl := Option.some.inj hq
      rw [Function.update_self]
      exact hp'
    · rw [List.getElem?_set_ne (Ne.symm hj)] at hq
      rw [Function.update_of_ne hj]
      exact h.prog j q hq
  nobody j hj := by
    obtain ⟨hi, -⟩ := List.getElem?_eq_some_iff.mp hp
    rw [List.length_set] at hj
    rw [Function.update_of_ne (hi.trans_le hj).ne']
    exact h.nobody j hj
  nodup j := by
    by_cases hj : j = i
    · rw [hj, Function.update_self]
      exact hnodup
    · rw [Function.update_of_ne hj]
      exact h.nodup j
  owner_iff := howner

lemma Orderly.step {t t' : Threads σ L α} (h : Orderly rank held t) (hs : Step t t') :
    ∃ held', Orderly rank held' t' := by
  cases hs with
  | @acquire i l p at' free =>
    obtain ⟨-, hp⟩ := h.prog i _ at'
    have hfree : ∀ j, l ∉ held j := fun j hl => by
      rw [(h.owner_iff l j).mpr hl] at free
      cases free
    refine ⟨_, h.set at' hp (List.nodup_cons.mpr ⟨hfree i, h.nodup i⟩) (fun l' j => ?_) t.shared⟩
    by_cases hl : l' = l
    · subst hl
      rw [Function.update_self]
      by_cases hj : j = i
      · rw [hj, Function.update_self]
        exact iff_of_true rfl List.mem_cons_self
      · rw [Function.update_of_ne hj]
        exact iff_of_false (fun heq => hj (Option.some.inj heq).symm) (hfree j)
    · rw [Function.update_of_ne hl, h.owner_iff]
      by_cases hj : j = i
      · rw [hj, Function.update_self, List.mem_cons, or_iff_right hl]
      · rw [Function.update_of_ne hj]
  | @release i l p at' own =>
    obtain ⟨hmem, hp⟩ := h.prog i _ at'
    refine ⟨_, h.set at' hp ((h.nodup i).erase l) (fun l' j => ?_) t.shared⟩
    by_cases hl : l' = l
    · subst hl
      rw [Function.update_self]
      refine iff_of_false (by simp) fun hmem' => ?_
      by_cases hj : j = i
      · rw [hj, Function.update_self] at hmem'
        exact (h.nodup i).not_mem_erase hmem'
      · rw [Function.update_of_ne hj, ← h.owner_iff, own] at hmem'
        exact hj (Option.some.inj hmem').symm
    · rw [Function.update_of_ne hl, h.owner_iff]
      by_cases hj : j = i
      · rw [hj, Function.update_self, List.mem_erase_of_ne hl]
      · rw [Function.update_of_ne hj]
  | @access i guard f next at' =>
    obtain ⟨-, hp⟩ := h.prog i _ at'
    refine ⟨_, h.set at' (hp t.shared) (h.nodup i) (fun l j => ?_) (f t.shared)⟩
    rw [Function.update_eq_self]
    exact h.owner_iff l j

lemma Orderly.exclusive {t : Threads σ L α} (h : Orderly rank held t) : t.Exclusive := by
  have howner : ∀ (i : ℕ) (p : Prog σ L α) (l : L), t.progs[i]? = some p → p.guard? = some l → t.owner l = some i := by
    intro i p l hp hguard
    cases p with
    | access guard f next =>
      rw [h.owner_iff]
      exact (h.prog i _ hp).1 l hguard
    | done a => cases hguard
    | acquire l p => cases hguard
    | release l p => cases hguard
  intro i j p q l hp hq hpl hql
  exact Option.some.inj ((howner i p l hp hpl).symm.trans (howner j q l hq hql))

/-- The lock a program is about to take. -/
def waits? : Prog σ L α → Option L
  | .acquire l _ => some l
  | _ => none

/-- If not all threads are done, one of them can make a step: among those that wait, the one
that waits for the highest lock does not wait for a thread that waits. -/
lemma Orderly.progress {t : Threads σ L α} (h : Orderly rank held t) : t.Done ∨ ∃ t', Step t t' := by
  by_contra hstuck
  rw [not_or, not_exists] at hstuck
  obtain ⟨hnot, hno⟩ := hstuck
  -- a thread that cannot make a step is done, or waits for a lock that another thread has
  have hwaits : ∀ (i : ℕ) (p : Prog σ L α), t.progs[i]? = some p →
      (∃ a, p = .done a) ∨ ∃ l j, waits? p = some l ∧ t.owner l = some j := by
    intro i p hp
    cases p with
    | done a => exact .inl ⟨a, rfl⟩
    | acquire l p =>
      cases ho : t.owner l with
      | none => exact absurd (.acquire hp ho) (hno _)
      | some j => exact .inr ⟨l, j, rfl, ho⟩
    | release l p => exact absurd (.release hp ((h.owner_iff l i).mpr (h.prog i _ hp).1)) (hno _)
    | access guard f next => exact absurd (.access hp) (hno _)
  -- an owner is a thread that is not done, and so waits for a higher lock
  have hhigher : ∀ l j, t.owner l = some j →
      ∃ p l', t.progs[j]? = some p ∧ waits? p = some l' ∧ rank l < rank l' := by
    intro l j ho
    have hmem := (h.owner_iff l j).mp ho
    have hj : j < t.progs.length := by
      by_contra hge
      rw [h.nobody j (not_lt.mp hge)] at hmem
      exact List.not_mem_nil hmem
    have hp := List.getElem?_eq_getElem hj
    have hdisc := h.prog j _ hp
    rcases hwaits j _ hp with ⟨a, hdone⟩ | ⟨l', -, hl', -⟩
    · rw [hdone] at hdisc
      rw [← hdisc] at hmem
      exact absurd hmem List.not_mem_nil
    · refine ⟨_, l', hp, hl', ?_⟩
      cases hprog : t.progs[j] with
      | acquire l'' p =>
        rw [hprog] at hdisc hl'
        obtain rfl := Option.some.inj hl'
        exact hdisc.1 l hmem
      | done a =>
        rw [hprog] at hl'
        cases hl'
      | release l p =>
        rw [hprog] at hl'
        cases hl'
      | access guard f next =>
        rw [hprog] at hl'
        cases hl'
  have hmem : ∀ {i : ℕ} {p : Prog σ L α} {l : L}, t.progs[i]? = some p → waits? p = some l →
      l ∈ t.progs.filterMap waits? := fun hp hl => List.mem_filterMap.mpr ⟨_, List.mem_of_getElem? hp, hl⟩
  cases htop : (t.progs.filterMap waits?).argmax rank with
  | none =>
    rw [List.argmax_eq_none] at htop
    have hnone : ∀ l j, t.owner l ≠ some j := by
      intro l j ho
      obtain ⟨p, l', hp, hl', -⟩ := hhigher l j ho
      exact List.not_mem_nil (htop ▸ hmem hp hl')
    refine hnot ⟨fun p hp => ?_, fun l => ?_⟩
    · obtain ⟨i, hi⟩ := List.mem_iff_getElem?.mp hp
      exact (hwaits i p hi).resolve_right fun ⟨l, j, _, ho⟩ => hnone l j ho
    · exact Option.eq_none_iff_forall_ne_some.mpr (hnone l)
  | some l =>
    obtain ⟨p, hp, hl⟩ := List.mem_filterMap.mp (List.argmax_mem htop)
    obtain ⟨i, hi⟩ := List.mem_iff_getElem?.mp hp
    rcases hwaits i p hi with ⟨a, rfl⟩ | ⟨l', j, hl', ho⟩
    · cases hl
    · obtain rfl := Option.some.inj (hl.symm.trans hl')
      obtain ⟨p', l'', hp', hl'', hlt⟩ := hhigher l j ho
      exact absurd (List.le_of_mem_argmax (hmem hp' hl'') htop) hlt.not_ge

/-! ### Runs -/

lemma Orderly.finishes {t : Threads σ L α} (h : ∃ held, Orderly rank held t) : Finishes Step Done t := by
  have hwf : WellFounded fun t' t : Threads σ L α =>
      Relation.CutExpand Prog.Rest (t'.progs : Multiset (Prog σ L α)) t.progs :=
    InvImage.wf _ Prog.wellFounded_rest.cutExpand
  induction t using hwf.induction with
  | _ t ih =>
    obtain ⟨held, hheld⟩ := h
    exact .intro hheld.progress fun t' hs => ih t' hs.cutExpand (hheld.step hs)

/-- What no access ends holds in every state that is reached. -/
lemma keeps_of_reached {inv : σ → Prop} {s : σ} {progs : List (Prog σ L α)} (h : ∀ p ∈ progs, p.Keeps inv) (hs : inv s)
    {t : Threads σ L α} (ht : Relation.ReflTransGen Step (start s progs) t) : inv t.shared := by
  have hall : inv t.shared ∧ ∀ (i : ℕ) (p : Prog σ L α), t.progs[i]? = some p → p.Keeps inv := by
    induction ht with
    | refl => exact ⟨hs, fun i p hp => h p (List.mem_of_getElem? hp)⟩
    | @tail t t' _ hstep ih =>
      obtain ⟨hinv, hprogs⟩ := ih
      have hset : ∀ (i : ℕ) (p p' : Prog σ L α), t.progs[i]? = some p → p'.Keeps inv →
          ∀ (j : ℕ) (q : Prog σ L α), (t.progs.set i p')[j]? = some q → q.Keeps inv := by
        intro i p p' hp hp' j q hq
        by_cases hj : j = i
        · subst hj
          rw [List.getElem?_set_self (List.getElem?_eq_some_iff.mp hp).1] at hq
          rw [← Option.some.inj hq]
          exact hp'
        · rw [List.getElem?_set_ne (Ne.symm hj)] at hq
          exact hprogs j q hq
      cases hstep with
      | @acquire i l p at' free =>
        have hp : p.Keeps inv := hprogs i (.acquire l p) at'
        exact ⟨hinv, hset i _ p at' hp⟩
      | @release i l p at' own =>
        have hp : p.Keeps inv := hprogs i (.release l p) at'
        exact ⟨hinv, hset i _ p at' hp⟩
      | @access i guard f next at' =>
        obtain ⟨hf, hnext⟩ := hprogs i (.access guard f next) at'
        exact ⟨hf _ hinv, hset i _ _ at' (hnext _)⟩
  exact hall.1

/-- A thread without others does what its program does alone. -/
lemma alone_of_done {s : σ} {p : Prog σ L α} {t : Threads σ L α} (ht : Relation.ReflTransGen Step (start s [p]) t)
    (hdone : t.Done) : t.progs = [.done (p.alone s).1] ∧ t.shared = (p.alone s).2 := by
  have hrest : ∃ q, t.progs = [q] ∧ q.alone t.shared = p.alone s := by
    clear hdone
    induction ht with
    | refl => exact ⟨p, rfl, rfl⟩
    | tail _ hs ih =>
      obtain ⟨q, hprogs, hq⟩ := ih
      cases hs with
      | @acquire i l p' at' free =>
        rw [hprogs, List.getElem?_singleton] at at'
        split_ifs at at' with hi
        obtain rfl := Option.some.inj at'
        exact ⟨p', by rw [hprogs, hi]; rfl, hq⟩
      | @release i l p' at' own =>
        rw [hprogs, List.getElem?_singleton] at at'
        split_ifs at at' with hi
        obtain rfl := Option.some.inj at'
        exact ⟨p', by rw [hprogs, hi]; rfl, hq⟩
      | @access i guard f next at' =>
        rw [hprogs, List.getElem?_singleton] at at'
        split_ifs at at' with hi
        obtain rfl := Option.some.inj at'
        exact ⟨_, by rw [hprogs, hi]; rfl, hq⟩
  obtain ⟨q, hprogs, hq⟩ := hrest
  obtain ⟨a, rfl⟩ := hdone.1 q (hprogs ▸ List.mem_singleton_self q)
  rw [hprogs, ← hq]
  exact ⟨rfl, rfl⟩

/-- Programs that take their locks in ascending order come to an end, and keep out of each
other's guarded accesses. -/
theorem finishes_and_exclusive {rank : L → ℕ} {progs : List (Prog σ L α)}
    (h : ∀ p ∈ progs, p.Disciplined rank [] []) (s : σ) :
    Finishes Step Done (start s progs) ∧
      ∀ t, Relation.ReflTransGen Step (start s progs) t → t.Exclusive := by
  have hstart : ∃ held, Orderly rank held (start s progs) := ⟨_, orderly_start s h⟩
  refine ⟨Orderly.finishes hstart, fun t ht => ?_⟩
  have horderly : ∃ held, Orderly rank held t := by
    induction ht with
    | refl => exact hstart
    | tail _ hs ih =>
      obtain ⟨held, hheld⟩ := ih
      exact hheld.step hs
  obtain ⟨held, hheld⟩ := horderly
  exact hheld.exclusive

end Steps

end Threads

end WfcBtp.Library
