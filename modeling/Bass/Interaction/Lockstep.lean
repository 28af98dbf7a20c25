import Bass.Interaction.Act
import Mathlib.Data.List.Forall2

/-!
# Two programs in lockstep

A coupling says which calls of two programs correspond and which answers to corresponding calls do. Two
programs are in lockstep when they make corresponding calls as long as they get corresponding answers.
For stateful programs the relation goes through `do` notation construct by construct, `Act.Twin`, with
one relation between the private states and one between the results.
-/

namespace Interaction

variable {O : Type} {R : O → Type} {α α' β β' σ σ' : Type}

structure Coupling (O : Type) (R : O → Type) where
  calls : O → O → Prop
  answers : (op op' : O) → R op → R op' → Prop

namespace Prog

variable (C : Coupling O R)

/-- The programs make corresponding calls and, whatever corresponding answers they get, end together
with results that `Q` relates. -/
def Lockstep (Q : α → α' → Prop) : Prog O R α → Prog O R α' → Prop
  | .pure value, .pure value' => Q value value'
  | .call op next, .call op' next' => C.calls op op' ∧
      ∀ answer answer', C.answers op op' answer answer' → (next answer).Lockstep Q (next' answer')
  | _, _ => False

variable {C} {Q : α → α' → Prop} {Q' : β → β' → Prop}

theorem lockstep_bind {p : Prog O R α} {p' : Prog O R α'} {f : α → Prog O R β} {f' : α' → Prog O R β'}
    (h : p.Lockstep C Q p') (hf : ∀ value value', Q value value' → (f value).Lockstep C Q' (f' value')) :
    (p >>= f).Lockstep C Q' (p' >>= f') := by
  induction p generalizing p' with
  | pure value =>
      cases p' with
      | pure value' => exact hf value value' h
      | call op' next' => exact h.elim
  | call op next ih =>
      cases p' with
      | pure value' => exact h.elim
      | call op' next' =>
          obtain ⟨hcalls, hnext⟩ := h
          exact ⟨hcalls, fun answer answer' hanswer => ih answer (hnext answer answer' hanswer)⟩

theorem lockstep_mono {Q₁ : α → α' → Prop} (hQ : ∀ value value', Q value value' → Q₁ value value')
    {p : Prog O R α} {p' : Prog O R α'} (h : p.Lockstep C Q p') : p.Lockstep C Q₁ p' := by
  induction p generalizing p' with
  | pure value =>
      cases p' with
      | pure value' => exact hQ value value' h
      | call op' next' => exact h.elim
  | call op next ih =>
      cases p' with
      | pure value' => exact h.elim
      | call op' next' => exact ⟨h.1, fun answer answer' hanswer => ih answer (h.2 answer answer' hanswer)⟩

/-- A relation between the states that corresponding steps keep holds at the ends. What else is known of
the answers may be used to see that they correspond. -/
theorem Exec.lockstep_inv {step : σ → (op : O) → R op → σ → Prop}
    {step' : σ' → (op : O) → R op → σ' → Prop} {I : σ → σ' → Prop}
    {G : (op op' : O) → R op → R op' → Prop}
    (hstep : ∀ {s s₁ s' s₁' op op' answer answer'}, I s s' → C.calls op op' →
      G op op' answer answer' → step s op answer s₁ → step' s' op' answer' s₁' →
      C.answers op op' answer answer' ∧ I s₁ s₁')
    {p q : Prog O R α} {p' q' : Prog O R α'} {s s₁ : σ} {s' s₁' : σ'} {trace trace' : List (Event O R)}
    (h : Exec step p s trace q s₁) (h' : Exec step' p' s' trace' q' s₁') (hp : p.Lockstep C Q p')
    (hI : I s s')
    (hgiven : List.Forall₂ (fun e e' : Event O R => G e.1 e'.1 e.2 e'.2) trace trace') : I s₁ s₁' := by
  induction h generalizing p' s' trace' with
  | nil p s =>
      cases hgiven
      cases h'
      exact hI
  | cons head _ ih =>
      obtain _ | ⟨hhead, hrest⟩ := hgiven
      obtain _ | ⟨head', htail⟩ := h'
      obtain ⟨hcalls, hnext⟩ := hp
      obtain ⟨hanswer, hI₁⟩ := hstep hI hcalls hhead head head'
      exact ih htail (hnext _ _ hanswer) hI₁ hrest

end Prog

/-- Both computations return related values, or both raise the same exception. -/
def SameOutcome {ε : Type} (A : α → α' → Prop) : Except ε α → Except ε α' → Prop
  | .ok value, .ok value' => A value value'
  | .error e, .error e' => e = e'
  | _, _ => False

theorem sameOutcome_mono {ε : Type} {A A₁ : α → α' → Prop}
    (hA : ∀ value value', A value value' → A₁ value value') {x : Except ε α} {x' : Except ε α'}
    (h : SameOutcome A x x') : SameOutcome A₁ x x' := by
  cases x with
  | error e =>
      cases x' with
      | error e' => exact h
      | ok value' => exact h.elim
  | ok value =>
      cases x' with
      | error e' => exact h.elim
      | ok value' => exact hA value value' h

/-! ### Stateful programs -/

namespace Act

variable {μ ε : Type} {R : O → Type} {C : Coupling (Site O μ) fun site => R site.op} {J : μ → μ → Prop}
  {A : α → α' → Prop} {B : β → β' → Prop}

/-- From related private states the programs run in lockstep, and end alike in related states. -/
def Twin (C : Coupling (Site O μ) fun site => R site.op) (J : μ → μ → Prop) (A : α → α' → Prop)
    (x : Act O R μ ε α) (x' : Act O R μ ε α') : Prop :=
  ∀ m m', J m m' →
    (x.exec m).Lockstep C (fun out out' => SameOutcome A out.1 out'.1 ∧ J out.2 out'.2) (x'.exec m')

theorem twin_pure {value : α} {value' : α'} (h : A value value') :
    Twin C J A (pure value : Act O R μ ε α) (pure value' : Act O R μ ε α') :=
  fun _ _ hJ => ⟨h, hJ⟩

theorem twin_throw (e : ε) :
    Twin C J A (throw e : Act O R μ ε α) (throw e : Act O R μ ε α') :=
  fun _ _ hJ => ⟨rfl, hJ⟩

theorem twin_ofExcept {x : Except ε α} {x' : Except ε α'} (h : SameOutcome A x x') :
    Twin C J A (ofExcept x : Act O R μ ε α) (ofExcept x' : Act O R μ ε α') :=
  fun _ _ hJ => ⟨h, hJ⟩

theorem twin_mono {A₁ : α → α' → Prop} (hA : ∀ value value', A value value' → A₁ value value')
    {x : Act O R μ ε α} {x' : Act O R μ ε α'} (h : Twin C J A x x') : Twin C J A₁ x x' := by
  intro m m' hJ
  refine Prog.lockstep_mono (fun out out' hout => ⟨?_, hout.2⟩) (h m m' hJ)
  exact sameOutcome_mono hA hout.1

theorem twin_bind {x : Act O R μ ε α} {x' : Act O R μ ε α'} {f : α → Act O R μ ε β}
    {f' : α' → Act O R μ ε β'} (hx : Twin C J A x x')
    (hf : ∀ value value', A value value' → Twin C J B (f value) (f' value')) :
    Twin C J B (x >>= f) (x' >>= f') := by
  intro m m' hJ
  rw [exec_bind, exec_bind]
  refine Prog.lockstep_bind (hx m m' hJ) fun out out' hout => ?_
  obtain ⟨r, m₁⟩ := out
  obtain ⟨r', m₁'⟩ := out'
  obtain ⟨hr, hJ₁⟩ := hout
  cases r with
  | error e =>
      cases r' with
      | error e' => exact ⟨hr, hJ₁⟩
      | ok value' => exact hr.elim
  | ok value =>
      cases r' with
      | error e' => exact hr.elim
      | ok value' => exact hf value value' hr m₁ m₁' hJ₁

theorem twin_tryCatch {x : Act O R μ ε α} {x' : Act O R μ ε α'} {handler : ε → Act O R μ ε α}
    {handler' : ε → Act O R μ ε α'} (hx : Twin C J A x x')
    (hh : ∀ e, Twin C J A (handler e) (handler' e)) :
    Twin C J A (tryCatch x handler) (tryCatch x' handler') := by
  intro m m' hJ
  rw [exec_tryCatch, exec_tryCatch]
  refine Prog.lockstep_bind (hx m m' hJ) fun out out' hout => ?_
  obtain ⟨r, m₁⟩ := out
  obtain ⟨r', m₁'⟩ := out'
  obtain ⟨hr, hJ₁⟩ := hout
  cases r with
  | error e =>
      cases r' with
      | error e' =>
          obtain rfl : e = e' := hr
          exact hh e m₁ m₁' hJ₁
      | ok value' => exact hr.elim
  | ok value =>
      cases r' with
      | error e' => exact hr.elim
      | ok value' => exact ⟨hr, hJ₁⟩

theorem twin_get : Twin C J J (get : Act O R μ ε μ) (get : Act O R μ ε μ) :=
  fun _ _ hJ => ⟨hJ, hJ⟩

theorem twin_modify {f f' : μ → μ} (hf : ∀ m m', J m m' → J (f m) (f' m')) :
    Twin C J Eq (modify f : Act O R μ ε PUnit) (modify f' : Act O R μ ε PUnit) :=
  fun m m' hJ => ⟨rfl, hf m m' hJ⟩

theorem twin_perform {op op' : O} {A : R op → R op' → Prop}
    (hcalls : ∀ m m', J m m' → C.calls ⟨m, op⟩ ⟨m', op'⟩)
    (hanswers : ∀ m m' answer answer', C.answers ⟨m, op⟩ ⟨m', op'⟩ answer answer' → A answer answer') :
    Twin C J A (perform op : Act O R μ ε (R op)) (perform op' : Act O R μ ε (R op')) :=
  fun m m' hJ => ⟨hcalls m m' hJ, fun answer answer' h => ⟨hanswers m m' answer answer' h, hJ⟩⟩

end Act

end Interaction
