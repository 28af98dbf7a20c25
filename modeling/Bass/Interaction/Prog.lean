import Mathlib.Logic.Relation

/-!
# Programs that call their environment

A sequential program is a tree of *calls*: at each node it makes one call `o` and continues
according to the answer, a value of `R o`. One node is one atomic step, so a tree cut at a node is
a program stopped between two calls, and interleavings and crashes are statements about nodes. The
trees are well founded: a program makes finitely many calls whatever the answers are.
-/

namespace Interaction

/-- A program over the calls `O`, the call `o` being answered by a value of `R o`. -/
inductive Prog (O : Type) (R : O → Type) (α : Type) : Type where
  | pure (value : α)
  | call (op : O) (next : R op → Prog O R α)

namespace Prog

variable {O : Type} {R : O → Type} {α β γ σ : Type}

def bind : Prog O R α → (α → Prog O R β) → Prog O R β
  | .pure value, f => f value
  | .call op next, f => .call op fun answer => (next answer).bind f

/-- The program that makes one call and returns its answer. -/
def perform (op : O) : Prog O R (R op) := .call op .pure

instance : Monad (Prog O R) where
  pure := .pure
  bind := bind

@[simp] theorem pure_eq (value : α) : (Pure.pure value : Prog O R α) = .pure value := rfl

@[simp] theorem pure_bind (value : α) (f : α → Prog O R β) :
    (.pure value : Prog O R α) >>= f = f value := rfl

@[simp] theorem call_bind (op : O) (next : R op → Prog O R α) (f : α → Prog O R β) :
    Prog.call op next >>= f = .call op fun answer => next answer >>= f := rfl

/-- Replace every call by a program over other calls: what a layer is when the layer below it
implements its calls. -/
def interp {O' : Type} {R' : O' → Type} (f : (op : O) → Prog O' R' (R op)) :
    Prog O R α → Prog O' R' α
  | .pure value => .pure value
  | .call op next => f op >>= fun answer => (next answer).interp f

/-- One call with its answer. -/
abbrev Event (O : Type) (R : O → Type) : Type := (op : O) × R op

/-- `p.Exec step s trace p' s'`: making the calls of `trace` takes the program `p` in state `s` to
what is left of it, `p'`, in state `s'`. The run need not be complete. -/
inductive Exec (step : σ → (op : O) → R op → σ → Prop) :
    Prog O R α → σ → List (Event O R) → Prog O R α → σ → Prop where
  | nil (p : Prog O R α) (s : σ) : Exec step p s [] p s
  | cons {op : O} {next : R op → Prog O R α} {s s₁ s' : σ} {answer : R op}
      {trace : List (Event O R)} {p' : Prog O R α}
      (head : step s op answer s₁) (tail : Exec step (next answer) s₁ trace p' s') :
      Exec step (.call op next) s (⟨op, answer⟩ :: trace) p' s'

/-- What is known of every call of a run may be put into the step. -/
theorem Exec.with_events {step : σ → (op : O) → R op → σ → Prop} {ok : Event O R → Prop}
    {p p' : Prog O R α} {s s' : σ} {trace : List (Event O R)} (h : Exec step p s trace p' s')
    (hok : ∀ event ∈ trace, ok event) :
    Exec (fun x op answer y => step x op answer y ∧ ok ⟨op, answer⟩) p s trace p' s' := by
  induction h with
  | nil p s => exact .nil p s
  | cons head _ ih =>
      refine .cons ⟨head, hok _ List.mem_cons_self⟩ (ih fun event hmem => ?_)
      exact hok event (List.mem_cons_of_mem _ hmem)

/-- A run of several calls, cut in two. -/
theorem Exec.split {step : σ → (op : O) → R op → σ → Prop} {p p' : Prog O R α} {s s' : σ}
    {before after : List (Event O R)} (h : Exec step p s (before ++ after) p' s') :
    ∃ p₁ s₁, Exec step p s before p₁ s₁ ∧ Exec step p₁ s₁ after p' s' := by
  induction before generalizing p s with
  | nil => exact ⟨p, s, .nil p s, h⟩
  | cons event before ih =>
      cases h with
      | cons head tail =>
          obtain ⟨p₁, s₁, hbefore, hafter⟩ := ih tail
          exact ⟨p₁, s₁, .cons head hbefore, hafter⟩

/-- Calls that are remembered. -/
def Recording (step : σ → (op : O) → R op → σ → Prop) (x : σ × List (Event O R)) (op : O)
    (answer : R op) (y : σ × List (Event O R)) : Prop :=
  step x.1 op answer y.1 ∧ y.2 = x.2 ++ [⟨op, answer⟩]

theorem Exec.recorded {step : σ → (op : O) → R op → σ → Prop} {p p' : Prog O R α} {s s' : σ}
    {trace : List (Event O R)} (h : Exec step p s trace p' s') (h₀ : List (Event O R)) :
    Exec (Recording step) p (s, h₀) trace p' (s', h₀ ++ trace) := by
  induction h generalizing h₀ with
  | nil p s =>
      rw [List.append_nil]
      exact .nil p (s, h₀)
  | @cons op next s s₁ s' answer trace p' head _ ih =>
      have htail := ih (h₀ ++ [⟨op, answer⟩])
      rw [List.append_assoc] at htail
      have hhead : Recording step (s, h₀) op answer (s₁, h₀ ++ [⟨op, answer⟩]) := ⟨head, rfl⟩
      exact .cons hhead htail

theorem Exec.eq_append {step : σ → (op : O) → R op → σ → Prop} {p p' : Prog O R α}
    {x x' : σ × List (Event O R)} {trace : List (Event O R)}
    (h : Exec (Recording step) p x trace p' x') : x'.2 = x.2 ++ trace := by
  induction h with
  | nil p x => exact (List.append_nil _).symm
  | cons head _ ih =>
      rw [ih, head.2, List.append_assoc]
      rfl

/-- What is known of every call of a recorded run, given those before it, may be put into the
step. -/
theorem Exec.restrict {step : σ → (op : O) → R op → σ → Prop}
    {ok : List (Event O R) → (op : O) → R op → Prop} {p p' : Prog O R α}
    {x x' : σ × List (Event O R)} {trace : List (Event O R)}
    (h : Exec (Recording step) p x trace p' x')
    (hok : ∀ before op answer after, trace = before ++ ⟨op, answer⟩ :: after →
      ok (x.2 ++ before) op answer) :
    Exec (fun x op answer y => step x.1 op answer y.1 ∧ ok x.2 op answer ∧
      y.2 = x.2 ++ [⟨op, answer⟩]) p x trace p' x' := by
  induction h with
  | nil p x => exact .nil p x
  | @cons op next x x₁ x' answer trace p' head _ ih =>
      have hhead := hok [] op answer trace rfl
      rw [List.append_nil] at hhead
      refine .cons ⟨head.1, hhead, head.2⟩ (ih fun before op' answer' after heq => ?_)
      have := hok (⟨op, answer⟩ :: before) op' answer' after (by rw [heq]; rfl)
      rwa [head.2, List.append_assoc]

/-- Run a program to its end against an environment that computes its answers. -/
def complete (serve : σ → (op : O) → R op × σ) : Prog O R α → σ → List (Event O R) × α × σ
  | .pure value, s => ([], value, s)
  | .call op next, s =>
      let answer := serve s op
      let out := (next answer.1).complete serve answer.2
      (⟨op, answer.1⟩ :: out.1, out.2)

theorem complete_exec {step : σ → (op : O) → R op → σ → Prop} {serve : σ → (op : O) → R op × σ}
    (hserve : ∀ s op, step s op (serve s op).1 (serve s op).2) (p : Prog O R α) (s : σ) :
    Exec step p s (p.complete serve s).1 (.pure (p.complete serve s).2.1)
      (p.complete serve s).2.2 := by
  induction p generalizing s with
  | pure value => exact .nil _ s
  | call op next ih => exact .cons (hserve s op) (ih _ _)

end Prog

end Interaction
