import Bass.Proof.StepInvariant

/-!
# A proof outline of the engine

`Outline` annotates the step loop with an assertion at each of its control points: at the head of the
loop, before a try of the step that was entered, after it returned and after it raised. One
obligation for each edge of the loop suffices for the whole of `resume`. The outline also settles
that the loop never stops for want of iterations: each one uses a step, and the budget runs out
first.
-/

namespace Bass

open Interaction EngineM

variable {σ : Type}

/-! ### Steps are counted -/

section Count

variable {S : Spec Call Call.Res σ} {cfg : EngineConfig} {wf : Workflow}

/-- Whatever a step does, it does not count as another one. -/
theorem stepInv_stepsUsed (S : Spec Call Call.Res σ) (cfg : EngineConfig) (wf : Workflow) (k : Nat) :
    StepInv cfg wf { S with guar := fun _ _ => True } fun m _ => m.run.stepsUsed = k := by
  have hcheckpoint : Act.Keeps { S with guar := fun _ _ => True }
      (fun m _ => m.run.stepsUsed = k) EngineM.checkpoint :=
    keeps_checkpoint_call fun _ _ hJ _ _ => ⟨trivial, fun _ _ _ => ⟨hJ, hJ⟩⟩
  refine stepInv_of_calls (fun m m' s h hJ => h.stepsUsed.trans hJ) (fun op _ => ?_) wf
    (savedIn_of_keeps hcheckpoint _) (savedIn_of_keeps hcheckpoint _)
  exact Act.keeps_perform fun _ _ hJ _ _ => ⟨trivial, fun _ _ _ => hJ⟩

/-- An iteration that does not raise was within budget and used one step. -/
theorem iterate_counts (budget : Budget) (stepId : String) (m : Mem) (s : σ) :
    Act.wp { S with guar := fun _ _ => True } (WorkflowEngine.iterate cfg wf budget stepId)
      (fun _ m' _ => (m.run.stepsUsed : Int) ≤ budget.maxSteps ∧
        m'.run.stepsUsed = m.run.stepsUsed + 1)
      (fun _ _ _ => True) m s := by
  unfold WorkflowEngine.iterate
  split
  · trivial
  · rename_i step hstep
    refine (wp_getRun_bind _).mpr ?_
    split
    · refine (Act.wp_bind _ _).mpr (Act.wp_mono _ (fun _ _ _ _ => trivial) (fun _ _ _ _ => trivial)
        ((stepInv_stepsUsed S cfg wf m.run.stepsUsed).failRun _ _ m s rfl))
    · rename_i hbudget
      have hinv := stepInv_stepsUsed S cfg wf (m.run.stepsUsed + 1)
      refine (wp_modifyRun_bind _ _).mpr ((wp_emit_bind _ _ _ _ _ _).mpr ?_)
      refine (Act.wp_perform_bind _ _).mpr fun s₁ _ => ⟨trivial, fun _ s₂ _ => ?_⟩
      have hkeeps : Act.Keeps { S with guar := fun _ _ => True }
          (fun m' _ => m'.run.stepsUsed = m.run.stepsUsed + 1) (do
            let next ← tryCatch (WorkflowEngine.runStepWithRetry cfg step)
              (WorkflowEngine.stepFailed cfg wf step)
            WorkflowEngine.advance next
            return next) :=
        Act.keeps_bind (Act.keeps_tryCatch (hinv.attempts ⟨stepId, hstep⟩ _ _ _)
          fun e => hinv.stepFailed step e) fun next =>
            Act.keeps_bind (hinv.advance (keeps_checkpoint_call fun _ _ hJ _ _ =>
              ⟨trivial, fun _ _ _ => ⟨hJ, hJ⟩⟩) next) fun _ => Act.keeps_pure next
      refine Act.wp_mono _ (fun _ m' _ h => ?_) (fun _ _ _ _ => trivial) (hkeeps _ s₂ rfl)
      exact ⟨budget.stepsUsed_le_of_check hbudget, h⟩

/-- The loop ends for want of a next step, not for want of iterations. -/
theorem drive_ends (n : Nat) (next : Option String) (m : Mem) (s : σ)
    (hn : (wf.maxSteps + 1 - m.run.stepsUsed).toNat + 1 ≤ n) :
    Act.wp { S with guar := fun _ _ => True }
      (WorkflowEngine.drive cfg wf ⟨wf.budgetUsd, wf.maxSteps⟩ n next)
      (fun out _ _ => out = none) (fun _ _ _ => True) m s := by
  induction n generalizing next m s with
  | zero => omega
  | succ n ih =>
      cases next with
      | none => rfl
      | some stepId =>
          refine (Act.wp_bind _ _).mpr (Act.wp_mono _ ?_ (fun _ _ _ _ => trivial)
            (iterate_counts _ stepId m s))
          rintro next' m' s' ⟨hle, hcount⟩
          have hle' : (m.run.stepsUsed : Int) ≤ wf.maxSteps := hle
          cases next' with
          | none => cases n <;> rfl
          | some stepId' => exact ih (some stepId') m' s' (by rw [hcount]; omega)

end Count

/-- `resume` returns at once on a run that is already terminal. -/
theorem resume_of_terminal {S : Spec Call Call.Res σ} {cfg : EngineConfig}
    {wf : Workflow} {Q : Unit → Mem → σ → Prop} {E : Exc → Mem → σ → Prop} {m : Mem} {s : σ}
    (hterminal : m.run.status.terminal = true) (hQ : Q () m s) :
    Act.wp S (WorkflowEngine.resume cfg wf) Q E m s := by
  refine (wp_getRun_bind _).mpr ?_
  rw [if_pos hterminal]
  exact hQ

/-! ### The outline -/

structure Outline (cfg : EngineConfig) (wf : Workflow) (S : Spec Call Call.Res σ)
    (head : Option String → Mem → σ → Prop) (entered : Step → Mem → σ → Prop)
    (done : Step → Option String → Mem → σ → Prop) (raised : Step → Exc → Mem → σ → Prop)
    (ended : Exc → Mem → σ → Prop) : Prop where
  unknown : ∀ stepId m s, wf.steps.get? stepId = none → head (some stepId) m s →
    ended (.bass .workflowError s!"unknown step '{stepId}'") m s
  budget : ∀ stepId step violation m s, wf.steps.get? stepId = some step →
    head (some stepId) m s → (Budget.mk wf.budgetUsd wf.maxSteps).check m.run = some violation →
    Act.wp S (WorkflowEngine.failRun "budget exceeded" violation)
      (fun _ => ended (.bass .budgetExceeded violation)) ended m s
  enter : ∀ stepId step m s, wf.steps.get? stepId = some step → head (some stepId) m s →
    (Budget.mk wf.budgetUsd wf.maxSteps).check m.run = none →
    Act.wp S (do
      modifyRun fun run => { run with stepsUsed := run.stepsUsed + 1 }
      emit "state_transition"
        (.obj [("entering_step", .str step.id), ("type", .str step.nodeType.value)]) (some step.id)
      perform (.stepSpan step)) (fun _ => entered step) ended m s
  run : ∀ step m s, wf.HasStep step → 0 < step.maxAttempts → entered step m s →
    Act.wp S (WorkflowEngine.runStep cfg step) (done step) (raised step) m s
  retry : ∀ step e attempt m s, wf.HasStep step → e.isConnectorError = true → raised step e m s →
    Act.wp S (emit "step_retry" (WorkflowEngine.retryPayload step attempt e) (some step.id))
      (fun _ m s => entered step m s ∧ raised step e m s) (raised step) m s
  exhausted : ∀ step m s, entered step m s → raised step (.assertionError "") m s
  denied : ∀ step e m s, wf.HasStep step → e.isPolicyDenied = true → raised step e m s →
    Act.wp S (WorkflowEngine.failRun "policy denied" e.str) (fun _ => ended e) ended m s
  failed : ∀ step e m s, wf.HasStep step → e.isConnectorError = true → raised step e m s →
    Act.wp S (do
      WorkflowEngine.compensate cfg wf step
      WorkflowEngine.failRun "step failed" e.str) (fun _ => ended e) ended m s
  other : ∀ step e m s, wf.HasStep step → e.isPolicyDenied = false → e.isConnectorError = false →
    raised step e m s → ended e m s
  finish : ∀ step next m s, wf.HasStep step → done step next m s →
    Act.wp S (WorkflowEngine.advance next) (fun _ => head next) ended m s

namespace Outline

variable {cfg : EngineConfig} {wf : Workflow} {S : Spec Call Call.Res σ}
  {head : Option String → Mem → σ → Prop} {entered : Step → Mem → σ → Prop}
  {done : Step → Option String → Mem → σ → Prop} {raised : Step → Exc → Mem → σ → Prop}
  {ended : Exc → Mem → σ → Prop}

theorem attempts (h : Outline cfg wf S head entered done raised ended) {step : Step}
    (hstep : wf.HasStep step) (n attempt : Nat) (last : Option Exc) (m : Mem) (s : σ)
    (hleft : n ≤ step.maxAttempts.toNat) (hentered : entered step m s)
    (hlast : ∀ e, last = some e → raised step e m s) :
    Act.wp S (WorkflowEngine.attempts cfg step n attempt last) (done step) (raised step) m s := by
  induction n generalizing attempt last m s with
  | zero =>
      cases last with
      | none => exact h.exhausted step m s hentered
      | some e => exact hlast e rfl
  | succ n ih =>
      refine (Act.wp_tryCatch _ _).mpr (Act.wp_mono _ (fun _ _ _ hdone => hdone) ?_
        (h.run step m s hstep (by omega) hentered))
      intro e m' s' hraised
      split
      · rename_i hconnector
        refine (Act.wp_bind _ _).mpr (Act.wp_mono _ ?_ (fun _ _ _ he => he)
          (h.retry step e attempt m' s' hstep hconnector hraised))
        rintro - m'' s'' ⟨hentered', hraised'⟩
        refine ih (attempt + 1) (some e) m'' s'' (by omega) hentered' fun e' he => ?_
        cases he
        exact hraised'
      · exact hraised

theorem stepFailed (h : Outline cfg wf S head entered done raised ended) {step : Step}
    (hstep : wf.HasStep step) (e : Exc) (m : Mem) (s : σ) (hraised : raised step e m s)
    (Q : Option String → Mem → σ → Prop) :
    Act.wp S (WorkflowEngine.stepFailed cfg wf step e) Q ended m s := by
  unfold WorkflowEngine.stepFailed
  split
  · rename_i hdenied
    exact (Act.wp_bind _ _).mpr (Act.wp_mono _ (fun _ _ _ hover => hover) (fun _ _ _ hover => hover)
      (h.denied step e m s hstep hdenied hraised))
  · rename_i hdenied
    split
    · rename_i hconnector
      have hfailed := h.failed step e m s hstep hconnector hraised
      rw [Act.wp_bind] at hfailed
      refine (Act.wp_bind _ _).mpr (Act.wp_mono _ (fun _ m' s' hcomp => ?_) (fun _ _ _ hover => hover)
        hfailed)
      exact (Act.wp_bind _ _).mpr hcomp
    · rename_i hconnector
      exact h.other step e m s hstep (by simpa using hdenied) (by simpa using hconnector) hraised

theorem iterate (h : Outline cfg wf S head entered done raised ended) (stepId : String) (m : Mem)
    (s : σ) (hhead : head (some stepId) m s) :
    Act.wp S (WorkflowEngine.iterate cfg wf ⟨wf.budgetUsd, wf.maxSteps⟩ stepId) head ended m s := by
  unfold WorkflowEngine.iterate
  split
  · rename_i hnone
    exact h.unknown stepId m s hnone hhead
  · rename_i step hstep
    refine (wp_getRun_bind _).mpr ?_
    split
    · rename_i violation hviolation
      exact (Act.wp_bind _ _).mpr (h.budget stepId step violation m s hstep hhead hviolation)
    · rename_i hwithin
      have henter := h.enter stepId step m s hstep hhead hwithin
      rw [wp_modifyRun_bind, wp_emit_bind] at henter
      refine (wp_modifyRun_bind _ _).mpr ((wp_emit_bind _ _ _ _ _ _).mpr ((Act.wp_bind _ _).mpr ?_))
      refine Act.wp_mono _ (fun _ m' s' hentered => ?_) (fun _ _ _ hover => hover) henter
      refine (Act.wp_bind _ _).mpr ((Act.wp_tryCatch _ _).mpr ?_)
      refine Act.wp_mono _ (fun next m' s' hdone => ?_)
        (fun e m' s' hraised => h.stepFailed ⟨stepId, hstep⟩ e m' s' hraised _)
        (h.attempts ⟨stepId, hstep⟩ step.maxAttempts.toNat 1 none m' s' (le_refl _) hentered
          (fun _ heq => nomatch heq))
      refine (Act.wp_bind _ _).mpr ?_
      exact h.finish step next m' s' ⟨stepId, hstep⟩ hdone

/-- The loop ends at the end of the graph, or by an exception. -/
theorem drive (h : Outline cfg wf S head entered done raised ended) (n : Nat)
    (next : Option String) (m : Mem) (s : σ) (hhead : head next m s)
    (hn : (wf.maxSteps + 1 - m.run.stepsUsed).toNat + 1 ≤ n) :
    Act.wp S (WorkflowEngine.drive cfg wf ⟨wf.budgetUsd, wf.maxSteps⟩ n next) (fun _ => head none)
      ended m s := by
  induction n generalizing next m s with
  | zero => omega
  | succ n ih =>
      cases next with
      | none => exact hhead
      | some stepId =>
          refine (Act.wp_bind _ _).mpr (Act.wp_mono _ ?_ (fun _ _ _ hover => hover.1)
            (Act.wp_and _ (h.iterate stepId m s hhead) (iterate_counts _ stepId m s)))
          rintro next' m' s' ⟨hhead', hle, hcount⟩
          have hle' : (m.run.stepsUsed : Int) ≤ wf.maxSteps := hle
          cases next' with
          | none =>
              cases n with
              | zero => exact hhead'
              | succ n => exact hhead'
          | some stepId' => exact ih (some stepId') m' s' hhead' (by rw [hcount]; omega)

/-- `resume` of a run that has not ended: it reaches the end of the graph, or stops with an
exception, which it swallows if it is a pause. -/
theorem resume (h : Outline cfg wf S head entered done raised ended) {m : Mem} {s : σ}
    (hstatus : m.run.status.terminal = false)
    (hhead : head (some (m.run.cursorStep.getD wf.start))
      { m with run := { m.run with status := .running } } s) :
    Act.wp S (WorkflowEngine.resume cfg wf)
      (fun _ m s => head none m s ∨ ∃ approvalId, ended (.paused approvalId) m s)
      (fun e m s => e.isPaused = false ∧ ended e m s) m s := by
  refine (wp_getRun_bind _).mpr ?_
  rw [if_neg (by simp [hstatus])]
  refine (wp_modifyRun_bind _ _).mpr ((Act.wp_tryCatch _ _).mpr ((Act.wp_bind _ _).mpr ?_))
  refine Act.wp_mono _ (fun _ _ _ hnone => Or.inl hnone) (fun e m' s' hover => ?_)
    (h.drive (WorkflowEngine.iterations wf m.run) _ _ s hhead (le_refl _))
  cases e with
  | paused approvalId => exact Or.inr ⟨approvalId, hover⟩
  | bass cls message => exact ⟨rfl, hover⟩
  | python cls message => exact ⟨rfl, hover⟩

/-- Whether or not the run has ended, a drive of it keeps to the outline. -/
theorem drives (h : Outline cfg wf S head entered done raised ended) {m : Mem} {s : σ}
    (hhead : m.run.status.terminal = false → head (some (m.run.cursorStep.getD wf.start))
      { m with run := { m.run with status := .running } } s) :
    Act.wp S (WorkflowEngine.resume cfg wf) (fun _ _ _ => True) (fun _ _ _ => True) m s := by
  cases hstatus : m.run.status.terminal with
  | true => exact resume_of_terminal hstatus trivial
  | false =>
      exact Act.wp_mono _ (fun _ _ _ _ => trivial) (fun _ _ _ _ => trivial) (h.resume hstatus (hhead hstatus))

end Outline

end Bass
