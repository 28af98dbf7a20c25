import Bass.Proof.StepInvariant
import Bass.Sessions
import Mathlib.Data.List.Induction

/-!
# What a session has committed

A `Bill` follows a session from outside: it collects what the calls are charged for and notes when a
checkpoint commits it and when a new attempt abandons it. What is charged is left open.
-/

namespace Bass

open Interaction

variable {A B : Type} {runId : String}

/-- A checkpoint that the store accepted. -/
def Op.accepted : (op : Op) → op.Res → Bool
  | .checkpoint .., .ok _ => true
  | _, _ => false

theorem Op.eq_checkpoint_of_accepted {op : Op} {answer : op.Res} (h : op.accepted answer = true) :
    ∃ run events, (⟨op, answer⟩ : (op : Op) × op.Res) = ⟨.checkpoint run events, .ok ()⟩ := by
  cases op with
  | checkpoint run events =>
      cases answer with
      | ok value => exact ⟨run, events, rfl⟩
      | error e => cases h
  | _ => cases h

theorem Op.Inner.rejected {op : Op} (hop : op.Inner) (answer : op.Res) :
    op.accepted answer = false := by
  cases op <;> first | rfl | exact hop.elim

/-- The charges a checkpoint has committed, those of the attempt under way since, and those of
attempts that were abandoned before a checkpoint. -/
structure Bill (A : Type) where
  committed : List A := []
  pending : List A := []
  lost : List A := []

/-- One label of a session, when an answered call is charged `charge`. -/
def Bill.step (charge : (op : Op) → op.Res → List A) (b : Bill A) : Session.Label runId → Bill A
  | .start _ => { b with pending := [], lost := b.lost ++ b.pending }
  | .call call answer =>
      let pending := b.pending ++ charge call.op answer
      if call.op.accepted answer then { b with committed := b.committed ++ pending, pending := [] }
      else { b with pending := pending }
  | .env _ => b

variable (charge : (op : Op) → op.Res → List A)

def bill (h : Session.History runId) : Bill A := h.foldl (Bill.step charge) {}

/-- All the charges of a history, in order. -/
def charges (h : Session.History runId) : List A :=
  h.flatMap fun label => match label with
    | .call call answer => charge call.op answer
    | _ => []

@[simp] theorem bill_nil : bill charge ([] : Session.History runId) = {} := rfl

theorem bill_append_singleton (h : Session.History runId) (label : Session.Label runId) :
    bill charge (h ++ [label]) = (bill charge h).step charge label := by
  simp [bill]

/-- What others do is charged to nobody. -/
theorem bill_append_env (h : Session.History runId) (events : List Outside) :
    bill charge (h ++ events.map Serial.Label.env) = bill charge h := by
  induction events generalizing h with
  | nil => rw [List.map_nil, List.append_nil]
  | cons event events ih =>
      rw [List.map_cons, ← List.singleton_append, ← List.append_assoc, ih, bill_append_singleton]
      rfl

variable {charge}

theorem Bill.step_accepted {b : Bill A} {call : Call} {answer : call.Res}
    (h : call.op.accepted answer = true) :
    b.step charge (.call call answer : Session.Label runId) =
      { b with committed := b.committed ++ (b.pending ++ charge call.op answer), pending := [] } := by
  simp [Bill.step, h]

theorem Bill.step_pending {b : Bill A} {call : Call} {answer : call.Res}
    (h : call.op.accepted answer = false) :
    b.step charge (.call call answer : Session.Label runId) =
      { b with pending := b.pending ++ charge call.op answer } := by
  simp [Bill.step, h]

theorem Bill.step_free {b : Bill A} {call : Call} {answer : call.Res}
    (h : call.op.accepted answer = false) (hfree : charge call.op answer = []) :
    b.step charge (.call call answer : Session.Label runId) = b := by
  rw [step_pending h, hfree, List.append_nil]

/-- Every charge is committed, pending or lost. -/
theorem bill_length (h : Session.History runId) :
    (bill charge h).committed.length + (bill charge h).pending.length + (bill charge h).lost.length =
      (charges charge h).length := by
  induction h using List.reverseRecOn with
  | nil => rfl
  | append_singleton h label ih =>
      have happend : charges charge (h ++ [label]) = charges charge h ++ charges charge [label] :=
        List.flatMap_append
      rw [bill_append_singleton, happend, List.length_append, ← ih]
      cases label with
      | start attempt =>
          simp [Bill.step, charges]
          omega
      | env event => simp [Bill.step, charges]
      | call call answer =>
          cases haccepted : call.op.accepted answer <;> simp [Bill.step, charges, haccepted] <;> omega

/-- Charges that are a part of other charges are billed as that part of the other bill. -/
theorem bill_part {charge' : (op : Op) → op.Res → List B} {g : List A → List B} (hnil : g [] = [])
    (happend : ∀ xs ys, g (xs ++ ys) = g xs ++ g ys)
    (hcharge : ∀ op answer, charge' op answer = g (charge op answer)) (h : Session.History runId) :
    bill charge' h =
      ⟨g (bill charge h).committed, g (bill charge h).pending, g (bill charge h).lost⟩ := by
  induction h using List.reverseRecOn with
  | nil => simp [hnil]
  | append_singleton h label ih =>
      rw [bill_append_singleton, bill_append_singleton, ih]
      cases label with
      | start attempt => simp [Bill.step, hnil, happend]
      | env event => rfl
      | call call answer =>
          cases haccepted : call.op.accepted answer <;>
            simp [Bill.step, haccepted, hnil, happend, hcharge]

/-! ### Sessions that lose nothing -/

namespace Session

/-- A checkpoint is accepted before the attempt under way is abandoned. -/
def Commits : History runId → Prop
  | [] => False
  | .start _ :: _ => False
  | .call call answer :: rest => call.op.accepted answer ∨ Commits rest
  | .env _ :: rest => Commits rest

instance decidableCommits : (h : History runId) → Decidable (Commits h)
  | [] => inferInstanceAs (Decidable False)
  | .start _ :: _ => inferInstanceAs (Decidable False)
  | .call call answer :: rest =>
      have := decidableCommits rest
      inferInstanceAs (Decidable (call.op.accepted answer ∨ Commits rest))
  | .env _ :: rest => decidableCommits rest

/-- No attempt is abandoned between a call that `p` selects and the checkpoint after it. -/
def Settled (p : Op → Bool) : History runId → Prop
  | [] => True
  | .call call _ :: rest => (p call.op → Commits rest) ∧ Settled p rest
  | .start _ :: rest | .env _ :: rest => Settled p rest

instance decidableSettled (p : Op → Bool) : (h : History runId) → Decidable (Settled p h)
  | [] => inferInstanceAs (Decidable True)
  | .call call _ :: rest =>
      have := decidableSettled p rest
      inferInstanceAs (Decidable ((p call.op → Commits rest) ∧ Settled p rest))
  | .start _ :: rest | .env _ :: rest => decidableSettled p rest

end Session

/-- What is pending when the rest of a settled session starts is committed in it, unless there is
nothing. -/
theorem settled_foldl {p : Op → Bool} (hfree : ∀ op answer, p op = false → charge op answer = [])
    (h : Session.History runId) (b : Bill A) (hsettled : Session.Settled p h)
    (hpending : b.pending = [] ∨ Session.Commits h) :
    h.foldl (Bill.step charge) b =
      { b with committed := b.committed ++ b.pending ++ charges charge h, pending := [] } := by
  induction h generalizing b with
  | nil =>
      have hnone := hpending.resolve_right id
      obtain ⟨committed, pending, lost⟩ := b
      subst hnone
      simp [charges]
  | cons label h ih =>
      rw [List.foldl_cons]
      cases label with
      | start attempt =>
          have hnone := hpending.resolve_right id
          rw [ih _ hsettled (Or.inl rfl)]
          simp [Bill.step, charges, hnone]
      | env event =>
          change h.foldl (Bill.step charge) b = _
          rw [ih b hsettled hpending]
          rfl
      | call call answer =>
          obtain ⟨hcommits, hsettled'⟩ := hsettled
          cases haccepted : call.op.accepted answer with
          | true =>
              rw [Bill.step_accepted haccepted, ih _ hsettled' (Or.inl rfl)]
              simp [charges]
          | false =>
              rw [Bill.step_pending haccepted, ih _ hsettled' ?_]
              · simp [charges]
              · cases hp : p call.op with
                | true => exact Or.inr (hcommits hp)
                | false =>
                    rcases hpending with hnone | htrue | hcommits'
                    · exact Or.inl (by simp [hnone, hfree _ _ hp])
                    · rw [haccepted] at htrue
                      cases htrue
                    · exact Or.inr hcommits'

/-- A settled session commits all its charges. -/
theorem committed_of_settled {p : Op → Bool}
    (hfree : ∀ op answer, p op = false → charge op answer = [])
    {h : Session.History runId} (hsettled : Session.Settled p h) :
    (bill charge h).committed = charges charge h := by
  rw [bill, settled_foldl hfree h {} hsettled (Or.inl rfl)]
  rfl

end Bass
