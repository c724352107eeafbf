import Mathlib.Data.List.Basic
import Mathlib.Logic.Basic
import Mathlib.Tactic.Tauto

/-!
# Interleaved writes

Several writers each have a queue of writes still to make, the writer that started first
in front. Making all of them, one queue after the other, is what the writers come to in
whatever order they really write, as long as no write overtakes one that it does not
commute with.
-/

namespace WfcBtp.Library

variable {σ ω α : Type}

/-- The state once the pending writes are made, the front queue first. -/
def flush (apply : σ → ω → σ) (s : σ) (queues : List (List ω)) : σ := queues.flatten.foldl apply s

/-- The order of the two writes makes no difference. -/
def Commutes (apply : σ → ω → σ) (w w' : ω) : Prop :=
  ∀ s, apply (apply s w) w' = apply (apply s w') w

/-- A list around one of its positions. -/
lemma split_at {l : List α} {i : ℕ} {a : α} (h : l[i]? = some a) :
    l = l.take i ++ a :: l.drop (i + 1) ∧ ∀ b, l.set i b = l.take i ++ b :: l.drop (i + 1) := by
  obtain ⟨hi, hget⟩ := List.getElem?_eq_some_iff.mp h
  constructor
  · rw [← hget, List.getElem_cons_drop, List.take_append_drop]
  · intro b
    rw [List.set_eq_take_append_cons_drop, if_pos hi]

lemma forall_mem_set {l : List α} {i : ℕ} {b : α} {P : α → Prop} (hb : P b) (hl : ∀ x ∈ l, P x) :
    ∀ x ∈ l.set i b, P x := by
  intro x hx
  rcases List.mem_or_eq_of_mem_set hx with hx | rfl
  · exact hl x hx
  · exact hb

lemma forall_mem_of_set {l : List α} {i : ℕ} {a b : α} (h : l[i]? = some a) {P : α → Prop} (ha : P b → P a)
    (hset : ∀ x ∈ l.set i b, P x) : ∀ x ∈ l, P x := by
  obtain ⟨hl, hb⟩ := split_at h
  rw [hb b] at hset
  intro x hx
  rw [hl, List.mem_append, List.mem_cons] at hx
  rcases hx with hx | rfl | hx
  · exact hset x (List.mem_append_left _ hx)
  · exact ha (hset b (List.mem_append_right _ List.mem_cons_self))
  · exact hset x (List.mem_append_right _ (List.mem_cons_of_mem _ hx))

lemma mem_filterMap_set {β : Type} {l : List α} {i : ℕ} {a b : α} (h : l[i]? = some a) {f : α → Option β}
    (hb : f b = none) (p : β) : p ∈ l.filterMap f ↔ p ∈ (l.set i b).filterMap f ∨ f a = some p := by
  obtain ⟨hl, hset⟩ := split_at h
  conv_lhs => rw [hl]
  rw [hset b]
  simp only [List.filterMap_append, List.filterMap_cons, hb, List.mem_append]
  cases f a with
  | none => simp
  | some q =>
    simp only [List.mem_cons, Option.some.injEq]
    tauto

lemma filterMap_set_of_eq {β : Type} {l : List α} {i : ℕ} {a b : α} (h : l[i]? = some a) {f : α → Option β}
    (hf : f b = f a) : (l.set i b).filterMap f = l.filterMap f := by
  obtain ⟨hl, hset⟩ := split_at h
  conv_rhs => rw [hl]
  simp only [hset b, List.filterMap_append, List.filterMap_cons, hf]

/-- Replacing an element by one that `f` takes to the same value. -/
lemma map_set_of_eq {β : Type} {l : List α} {i : ℕ} {a b : α} (h : l[i]? = some a) {f : α → β}
    (hf : f b = f a) : (l.set i b).map f = l.map f := by
  obtain ⟨hl, hset⟩ := split_at h
  conv_rhs => rw [hl]
  rw [hset b, List.map_append, List.map_append, List.map_cons, List.map_cons, hf]

variable {apply : σ → ω → σ}

/-- A write moves in front of writes it commutes with. -/
lemma foldl_of_commutes {w : ω} {before : List ω} (h : ∀ w' ∈ before, Commutes apply w w') (s : σ) :
    before.foldl apply (apply s w) = apply (before.foldl apply s) w := by
  induction before generalizing s with
  | nil => rfl
  | cons w' rest ih =>
    rw [List.foldl_cons, List.foldl_cons, h w' List.mem_cons_self]
    exact ih (fun w'' hw => h w'' (List.mem_cons_of_mem _ hw)) _

/-- A new writer comes last. -/
lemma flush_snoc (s : σ) (queues : List (List ω)) (q : List ω) :
    flush apply s (queues ++ [q]) = q.foldl apply (flush apply s queues) := by
  simp [flush]

lemma flush_of_empty {queues : List (List ω)} (h : ∀ q ∈ queues, q = []) (s : σ) :
    flush apply s queues = s := by
  have hnil : queues.flatten = [] := List.flatten_eq_nil_iff.mpr h
  rw [flush, hnil]
  rfl

/-- Making the next write of any writer changes nothing in the end, if it commutes with
what the writers in front of it still have to write. -/
theorem flush_write {queues : List (List ω)} {i : ℕ} {w : ω} {rest : List ω}
    (h : queues[i]? = some (w :: rest)) (hc : ∀ q ∈ queues.take i, ∀ w' ∈ q, Commutes apply w w') (s : σ) :
    flush apply (apply s w) (queues.set i rest) = flush apply s queues := by
  obtain ⟨hqueues, hset⟩ := split_at h
  have hbefore : ∀ w' ∈ (queues.take i).flatten, Commutes apply w w' := by
    intro w' hw
    obtain ⟨q, hq, hw⟩ := List.mem_flatten.mp hw
    exact hc q hq w' hw
  calc flush apply (apply s w) (queues.set i rest)
      = (rest ++ (queues.drop (i + 1)).flatten).foldl apply
          ((queues.take i).flatten.foldl apply (apply s w)) := by
        rw [flush, hset rest, List.flatten_append, List.flatten_cons, List.foldl_append]
    _ = (rest ++ (queues.drop (i + 1)).flatten).foldl apply
          (apply ((queues.take i).flatten.foldl apply s) w) := by
        rw [foldl_of_commutes hbefore]
    _ = flush apply s (queues.take i ++ (w :: rest) :: queues.drop (i + 1)) := by
        simp only [flush, List.flatten_append, List.flatten_cons, List.foldl_append, List.foldl_cons]
    _ = flush apply s queues := by rw [← hqueues]

end WfcBtp.Library
