import Bass.Proof.Outline

/-!
# Invariants of the engine

An invariant of every step that also survives the step counter and the entry into a step is kept by
the whole engine: it is the outline whose assertions are all the same.
-/

namespace Bass

open Interaction EngineM

variable {σ : Type}

structure EngineWalk (cfg : EngineConfig) (wf : Workflow) (S : Spec Call Call.Res σ)
    (J : Mem → σ → Prop) : Prop extends StepWalk cfg wf S J where
  count : ∀ m s, J m s → J { m with run := { m.run with stepsUsed := m.run.stepsUsed + 1 } } s
  span : ∀ step, Act.Keeps S J (perform (.stepSpan step))
  checkpoint : Act.Keeps S J EngineM.checkpoint

structure EngineInv (cfg : EngineConfig) (wf : Workflow) (S : Spec Call Call.Res σ)
    (J : Mem → σ → Prop) : Prop extends StepInv cfg wf S J where
  count : ∀ m s, J m s → J { m with run := { m.run with stepsUsed := m.run.stepsUsed + 1 } } s
  span : ∀ step, Act.Keeps S J (perform (.stepSpan step))
  checkpoint : Act.Keeps S J EngineM.checkpoint

variable {cfg : EngineConfig} {wf : Workflow} {S : Spec Call Call.Res σ} {J : Mem → σ → Prop}

namespace EngineWalk

theorem outline (h : EngineWalk cfg wf S J) :
    Outline cfg wf S (fun _ => J) (fun _ => J) (fun _ _ => J) (fun _ _ => J) fun _ => J where
  unknown := fun _ _ _ _ hJ => hJ
  budget := fun _ _ _ m s _ hJ _ => h.failRun _ _ m s hJ
  enter := by
    intro stepId step m s _ hJ _
    refine (wp_modifyRun_bind _ _).mpr ((Act.wp_bind _ _).mpr ?_)
    refine Act.wp_mono _ (fun _ m' s' hJ' => h.span step m' s' hJ') (fun _ _ _ hJ' => hJ') ?_
    exact keeps_free_emit h.quiet _ _ _ _ _ s (h.count m s hJ)
  run := fun step m s hstep _ hJ => h.runStep hstep m s hJ
  retry := by
    intro step e attempt m s _ _ hJ
    exact Act.wp_mono _ (fun _ _ _ hJ' => ⟨hJ', hJ'⟩) (fun _ _ _ hJ' => hJ')
      (keeps_free_emit h.quiet _ _ _ _ m s hJ)
  exhausted := fun _ _ _ hJ => hJ
  denied := fun _ _ m s _ _ hJ => h.failRun _ _ m s hJ
  failed := fun step _ m s _ _ hJ =>
    Act.keeps_bind (h.compensate step) (fun _ => h.failRun _ _) m s hJ
  other := fun _ _ _ _ _ _ _ hJ => hJ
  finish := fun _ next m s _ hJ => h.advance h.checkpoint next m s hJ

/-- An invariant that survives the engine's calls survives the engine. -/
theorem resume (h : EngineWalk cfg wf S J) : Act.Keeps S J (WorkflowEngine.resume cfg wf) := by
  intro m s hJ
  cases hstatus : m.run.status.terminal with
  | true => exact resume_of_terminal hstatus hJ
  | false =>
      have hrunning : J { m with run := { m.run with status := .running } } s :=
        h.quiet m _ s (quiet_of_run rfl rfl rfl rfl rfl rfl rfl rfl) hJ
      refine Act.wp_mono _ (fun _ m' s' hout => ?_) (fun _ _ _ hout => hout.2)
        (h.outline.resume hstatus hrunning)
      exact hout.elim (fun hJ' => hJ') fun ⟨_, hJ'⟩ => hJ'

end EngineWalk

namespace EngineInv

theorem walk (h : EngineInv cfg wf S J) : EngineWalk cfg wf S J where
  toStepWalk := h.toStepInv.walk
  count := h.count
  span := h.span
  checkpoint := h.checkpoint

theorem resume (h : EngineInv cfg wf S J) : Act.Keeps S J (WorkflowEngine.resume cfg wf) :=
  h.walk.resume

end EngineInv

/-- The calls of the engine: those of a step, and the entry into one. -/
theorem engineInv_of_calls (hmem : ∀ (m m' : Mem) s, SameIdent m m' → J m s → J m' s)
    (hcount : ∀ m s, J m s → J { m with run := { m.run with stepsUsed := m.run.stepsUsed + 1 } } s)
    (hop : ∀ op : Op, op.Inner → Act.Keeps S J (perform op)) (wf : Workflow)
    (hcheckpoint : Act.Keeps S J EngineM.checkpoint) : EngineInv cfg wf S J where
  toStepInv := stepInv_of_calls hmem (fun op h => hop op h.inner) wf (savedIn_of_keeps hcheckpoint _)
    (savedIn_of_keeps hcheckpoint _)
  count := hcount
  span := fun _ => hop _ trivial
  checkpoint := hcheckpoint

end Bass
