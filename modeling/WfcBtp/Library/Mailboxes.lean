import Mathlib.Data.List.Perm.Basic
import Mathlib.Logic.Function.Basic

/-!
# Mailboxes

One sender and any number of receivers. What was sent to a receiver waits in its mailbox and is
delivered in any order; `κ` is what the receiver reads of its surroundings when it handles a message.
-/

namespace WfcBtp.Library

variable {σ ι κ μ : Type} {ρ : ℕ → Type}

structure Mailboxes (σ μ : Type) (ρ : ℕ → Type) where
  sender : σ
  mail : ℕ → List μ
  receiver : ∀ i, ρ i

inductive MailStep (ι κ : Type)
  | input (a : ι)
  | deliver (i k : ℕ) (e : κ)

/-- The messages of a list to one receiver. -/
def mailTo (i : ℕ) (sent : List (ℕ × μ)) : List μ := (sent.filter fun m => m.1 = i).map Prod.snd

lemma mailTo_append (i : ℕ) (a b : List (ℕ × μ)) : mailTo i (a ++ b) = mailTo i a ++ mailTo i b := by
  rw [mailTo, List.filter_append, List.map_append]
  rfl

/-- Everything that is sent while the inputs are handled. -/
def sentFor (send : σ → ι → List (ℕ × μ) × σ) : σ → List ι → List (ℕ × μ)
  | _, [] => []
  | s, a :: rest => (send s a).1 ++ sentFor send (send s a).2 rest

def afterSends (send : σ → ι → List (ℕ × μ) × σ) : σ → List ι → σ := List.foldl fun s a => (send s a).2

def MailStep.input? : MailStep ι κ → Option ι
  | .input a => some a
  | .deliver _ _ _ => none

namespace Mailboxes

variable (send : σ → ι → List (ℕ × μ) × σ) (handle : ∀ i, ρ i → κ → μ → ρ i)

/-- A delivery takes any message of the mailbox, and does nothing if there is none at its index. -/
def step (p : Mailboxes σ μ ρ) : MailStep ι κ → Mailboxes σ μ ρ
  | .input a =>
    let r := send p.sender a
    { p with sender := r.2, mail := fun i => p.mail i ++ mailTo i r.1 }
  | .deliver i k e =>
    match (p.mail i)[k]? with
    | some m =>
      { p with
        mail := Function.update p.mail i ((p.mail i).eraseIdx k)
        receiver := Function.update p.receiver i (handle i (p.receiver i) e m) }
    | none => p

/-- What a step delivers to one receiver. -/
def delivery (p : Mailboxes σ μ ρ) (i : ℕ) : MailStep ι κ → List (κ × μ)
  | .input _ => []
  | .deliver j k e => if j = i then ((p.mail i)[k]?.map fun m => (e, m)).toList else []

/-- What a run delivers to one receiver, in that order. -/
def deliveries (i : ℕ) : Mailboxes σ μ ρ → List (MailStep ι κ) → List (κ × μ)
  | _, [] => []
  | p, a :: rest => p.delivery i a ++ deliveries i (p.step send handle a) rest

variable {send handle}

lemma step_deliver_none (p : Mailboxes σ μ ρ) {i k : ℕ} (e : κ) (h : (p.mail i)[k]? = none) :
    p.step send handle (.deliver i k e) = p := by
  simp only [step, h]

lemma step_deliver_some (p : Mailboxes σ μ ρ) {i k : ℕ} (e : κ) {m : μ} (h : (p.mail i)[k]? = some m) :
    p.step send handle (.deliver i k e) =
      { p with
        mail := Function.update p.mail i ((p.mail i).eraseIdx k)
        receiver := Function.update p.receiver i (handle i (p.receiver i) e m) } := by
  simp only [step, h]

lemma step_sender (p : Mailboxes σ μ ρ) (a : MailStep ι κ) :
    (p.step send handle a).sender = afterSends send p.sender a.input?.toList := by
  cases a with
  | input a => rfl
  | deliver i k e =>
    cases hm : (p.mail i)[k]? with
    | none =>
      rw [step_deliver_none p e hm]
      rfl
    | some m =>
      rw [step_deliver_some p e hm]
      rfl

lemma step_receiver (p : Mailboxes σ μ ρ) (a : MailStep ι κ) (i : ℕ) :
    (p.step send handle a).receiver i = (p.delivery i a).foldl (fun r m => handle i r m.1 m.2) (p.receiver i) := by
  cases a with
  | input a => rfl
  | deliver j k e =>
    cases hm : (p.mail j)[k]? with
    | none =>
      rw [step_deliver_none p e hm, delivery]
      split_ifs with hj
      · rw [← hj, hm]
        rfl
      · rfl
    | some m =>
      rw [step_deliver_some p e hm, delivery]
      split_ifs with hj
      · subst hj
        rw [hm]
        exact Function.update_self j _ p.receiver
      · exact Function.update_of_ne (Ne.symm hj) _ p.receiver

/-- What is delivered in a step, and what is in the mailbox after it, was there before or is sent in it. -/
lemma step_mail_perm (p : Mailboxes σ μ ρ) (a : MailStep ι κ) (i : ℕ) :
    ((p.delivery i a).map Prod.snd ++ (p.step send handle a).mail i).Perm
      (p.mail i ++ mailTo i (sentFor send p.sender a.input?.toList)) := by
  cases a with
  | input a =>
    have hsent : sentFor send p.sender [a] = (send p.sender a).1 := List.append_nil _
    change (p.mail i ++ mailTo i (send p.sender a).1).Perm (p.mail i ++ mailTo i (sentFor send p.sender [a]))
    rw [hsent]
  | deliver j k e =>
    change List.Perm _ (p.mail i ++ [])
    rw [List.append_nil]
    cases hm : (p.mail j)[k]? with
    | none =>
      have hnone : p.delivery i (MailStep.deliver j k e : MailStep ι κ) = [] := by
        rw [delivery]
        split_ifs with hj
        · rw [← hj, hm]
          rfl
        · rfl
      rw [step_deliver_none p e hm, hnone]
      exact List.Perm.refl _
    | some m =>
      rw [step_deliver_some p e hm, delivery]
      split_ifs with hj
      · subst hj
        have hmail : Function.update p.mail j ((p.mail j).eraseIdx k) j = (p.mail j).eraseIdx k :=
          Function.update_self j _ p.mail
        dsimp only
        rw [hmail, hm]
        obtain ⟨hk, rfl⟩ := List.getElem?_eq_some_iff.mp hm
        exact List.getElem_cons_eraseIdx_perm hk
      · have hmail : Function.update p.mail j ((p.mail j).eraseIdx k) i = p.mail i :=
          Function.update_of_ne (Ne.symm hj) _ p.mail
        dsimp only
        rw [hmail]
        exact List.Perm.refl _

/-! ### Runs -/

variable (send handle)

lemma run_receiver (p : Mailboxes σ μ ρ) (steps : List (MailStep ι κ)) (i : ℕ) :
    (steps.foldl (step send handle) p).receiver i =
      (deliveries send handle i p steps).foldl (fun r m => handle i r m.1 m.2) (p.receiver i) := by
  induction steps generalizing p with
  | nil => rfl
  | cons a rest ih => rw [List.foldl_cons, ih, step_receiver, deliveries, List.foldl_append]

/-- Nothing that was sent gets lost, and nothing is delivered twice. -/
theorem run_mail_perm (p : Mailboxes σ μ ρ) (steps : List (MailStep ι κ)) (i : ℕ) :
    ((deliveries send handle i p steps).map Prod.snd ++ (steps.foldl (step send handle) p).mail i).Perm
      (p.mail i ++ mailTo i (sentFor send p.sender (steps.filterMap MailStep.input?))) := by
  induction steps generalizing p with
  | nil => exact List.Perm.of_eq (List.append_nil _).symm
  | cons a rest ih =>
    have hsent : sentFor send p.sender ((a :: rest).filterMap MailStep.input?) =
        sentFor send p.sender a.input?.toList ++
          sentFor send (p.step send handle a).sender (rest.filterMap MailStep.input?) := by
      cases a with
      | input a => exact congrArg (· ++ _) (List.append_nil _).symm
      | deliver j k e =>
        rw [step_sender]
        rfl
    rw [deliveries, List.map_append, List.append_assoc, List.foldl_cons, hsent, mailTo_append]
    refine ((ih _).append_left _).trans ?_
    rw [← List.append_assoc, ← List.append_assoc]
    exact (p.step_mail_perm a i).append_right _

lemma deliveries_length_le (p : Mailboxes σ μ ρ) (steps : List (MailStep ι κ)) (i : ℕ) :
    (deliveries send handle i p steps).length ≤ steps.length := by
  induction steps generalizing p with
  | nil => exact Nat.le_refl 0
  | cons a rest ih =>
    have hone : (p.delivery i a).length ≤ 1 := by
      cases a with
      | input a => exact Nat.zero_le 1
      | deliver j k e =>
        rw [delivery]
        split_ifs
        · cases (p.mail i)[k]? with
          | none => exact Nat.zero_le 1
          | some m => exact Nat.le_refl 1
        · exact Nat.zero_le 1
    rw [deliveries, List.length_append, List.length_cons, Nat.add_comm]
    exact Nat.add_le_add (ih _) hone

end Mailboxes

end WfcBtp.Library
