import Mathlib.Data.List.Perm.Basic
import Mathlib.Data.List.Range

/-!
# Ownership of handles

Computations that open handles, give them back, and may go wrong. A triple says that from
the handles a part of the state owns a computation does not go wrong, and which handles
that part owns afterwards; what the rest of the state owns is left alone.
-/

namespace WfcBtp.Library

/-- How many handles were opened, numbered in that order, and those given back. -/
structure Handles where
  opened : ℕ := 0
  released : List ℕ := []
  deriving DecidableEq, Repr

/-- Every opened handle is owned or was given back, once. -/
def Handles.Accounted (h : Handles) (owned : List ℕ) : Prop :=
  (h.released ++ owned).Perm (List.range h.opened)

/-- Which handles are owned matters, not their order. -/
lemma Handles.Accounted.perm {h : Handles} {owned owned' : List ℕ} (hacc : h.Accounted owned)
    (hperm : owned.Perm owned') : h.Accounted owned' :=
  (hperm.append_left h.released).symm.trans hacc

/-- A computation with handles; `none` when it goes wrong. -/
abbrev Owning (α : Type) := StateT Handles Option α

namespace Owning

variable {α β : Type}

def acquire : Owning ℕ := fun h => some (h.opened, { h with opened := h.opened + 1 })

def release (d : ℕ) : Owning Unit := fun h => some ((), { h with released := h.released ++ [d] })

def fault : Owning α := fun _ => none

/-- It goes wrong whatever the handles are. -/
def Faults (m : Owning α) : Prop := ∀ h, m h = none

/-- Owning `owned` it does not go wrong, and owns what `post` says afterwards. -/
def Triple (owned : List ℕ) (m : Owning α) (post : α → List ℕ → Prop) : Prop :=
  ∀ h rest, h.Accounted (owned ++ rest) →
    ∃ a owned' h', m h = some (a, h') ∧ post a owned' ∧ h'.Accounted (owned' ++ rest)

variable {owned owned' : List ℕ} {m : Owning α} {f : α → Owning β} {post : α → List ℕ → Prop}
  {post' : β → List ℕ → Prop}

lemma bind_apply (m : Owning α) (f : α → Owning β) (h : Handles) :
    (m >>= f) h = (m h).bind fun r => f r.1 r.2 := rfl

lemma faults_fault : Faults (fault : Owning α) := fun _ => rfl

lemma Faults.bind (hm : Faults m) (f : α → Owning β) : Faults (m >>= f) := by
  intro h
  rw [bind_apply, hm h]
  rfl

/-- Whatever the first part returns, the second goes wrong. -/
lemma Faults.of_forall (hf : ∀ a, Faults (f a)) : Faults (m >>= f) := by
  intro h
  rw [bind_apply]
  cases m h with
  | none => rfl
  | some r => exact hf r.1 r.2

namespace Triple

lemma pure {a : α} (h : post a owned) : Triple owned (Pure.pure a) post :=
  fun s _ hs => ⟨a, owned, s, rfl, h, hs⟩

lemma bind (hm : Triple owned m post) (hf : ∀ a o, post a o → Triple o (f a) post') :
    Triple owned (m >>= f) post' := by
  intro h rest hacc
  obtain ⟨a, o, h₁, hrun, hpost, hacc₁⟩ := hm h rest hacc
  obtain ⟨b, o', h₂, hrun', hpost', hacc₂⟩ := hf a o hpost h₁ rest hacc₁
  refine ⟨b, o', h₂, ?_, hpost', hacc₂⟩
  rw [bind_apply, hrun]
  exact hrun'

/-- What stands behind the owned handles stays. -/
lemma frame (hm : Triple owned m post) (other : List ℕ) :
    Triple (owned ++ other) m fun a o => ∃ o', o = o' ++ other ∧ post a o' := by
  intro h rest hacc
  rw [List.append_assoc] at hacc
  obtain ⟨a, o', h', hrun, hpost, hacc'⟩ := hm h (other ++ rest) hacc
  refine ⟨a, o' ++ other, h', hrun, ⟨o', rfl, hpost⟩, ?_⟩
  rwa [List.append_assoc]

/-- What stands before them stays. -/
lemma frame_left (hm : Triple owned m post) (other : List ℕ) :
    Triple (other ++ owned) m fun a o => ∃ o', o = other ++ o' ∧ post a o' := by
  intro h rest hacc
  obtain ⟨a, _, h', hrun, ⟨o', rfl, hpost⟩, hacc'⟩ :=
    hm.frame other h rest (hacc.perm (List.perm_append_comm.append_right rest))
  exact ⟨a, other ++ o', h', hrun, ⟨o', rfl, hpost⟩, hacc'.perm (List.perm_append_comm.append_right rest)⟩

/-- The first part needs only what it owns itself. -/
lemma bind_frame {other : List ℕ} (hm : Triple owned m post)
    (hf : ∀ a o, post a o → Triple (o ++ other) (f a) post') : Triple (owned ++ other) (m >>= f) post' := by
  refine (hm.frame other).bind ?_
  rintro a _ ⟨o, rfl, hpost⟩
  exact hf a o hpost

/-- The first part owns nothing. -/
lemma bind_nil (hm : Triple [] m post) (hf : ∀ a o, post a o → Triple (o ++ owned) (f a) post') :
    Triple owned (m >>= f) post' := hm.bind_frame hf

lemma acquire : Triple [] Owning.acquire fun d o => o = [d] := by
  intro h rest hacc
  refine ⟨h.opened, [h.opened], _, rfl, rfl, ?_⟩
  change (h.released ++ (h.opened :: rest)).Perm (List.range (h.opened + 1))
  rw [List.range_succ]
  exact List.perm_middle.trans ((hacc.cons h.opened).trans (List.perm_append_singleton _ _).symm)

lemma release (d : ℕ) : Triple [d] (Owning.release d) fun _ o => o = [] := by
  intro h rest hacc
  refine ⟨(), [], _, rfl, rfl, ?_⟩
  change (h.released ++ [d] ++ rest).Perm (List.range h.opened)
  rwa [List.append_assoc]

end Triple

end Owning

end WfcBtp.Library
