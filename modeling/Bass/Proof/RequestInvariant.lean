import Bass.Proof.EngineInvariant
import Bass.Services

/-!
# What whole requests owe

A request makes a few calls of its own and otherwise runs the engine. What these calls keep of the shared
state, and the engine keeps, every request keeps.
-/

namespace Bass

open Interaction EngineM

/-- The calls the services make themselves. -/
def Op.Service : Op → Prop
  | .ensureTenant .. | .insertRun _ | .loadRun .. | .loadRunByKey .. | .cancelRun ..
  | .resolveApproval .. | .allowRequest _ => True
  | _ => False

/-- The run a fire wants to create is new, under the id that was drawn for it. -/
theorem wanted_ident {d : Deployment} {request : Request} {run : Run}
    (h : request.wanted d = some run) :
    run.id = request.runId ∧ run.costUsd = 0 ∧ run.stepsUsed = 0 ∧ run.status = .pending := by
  cases request with
  | orchestratorFire tenantId runId wf trigger buffer =>
      cases h
      exact ⟨rfl, rfl, rfl, rfl⟩
  | apiFire tenantId runId wfName trigger =>
      obtain ⟨wf, -, rfl⟩ := Option.map_eq_some_iff.mp h
      exact ⟨rfl, rfl, rfl, rfl⟩
  | _ => cases h

section Requests

variable {σ : Type} {d : Deployment} {S : Spec Call Call.Res σ} {P : σ → Prop}
  (hop : ∀ op : Op, op.Service → Act.Keeps S (fun _ => P) (perform op))

theorem keeps_modifyRun_shared (f : Run → Run) : Act.Keeps S (fun _ => P) (modifyRun f) :=
  keeps_modifyRun fun _ _ h => h

include hop

theorem respects_hydrate (tenantId runId : String) :
    Act.Keeps S (fun _ => P) (hydrate tenantId runId) := by
  refine Act.keeps_bind (hop _ trivial) fun answer => ?_
  refine Act.keeps_bind (Act.keeps_ofExcept _) fun found => ?_
  split
  · exact Act.keeps_throw _
  · exact Act.keeps_bind (keeps_modifyRun_shared _) fun _ => Act.keeps_pure _

theorem respects_createOrGetRun (run : Run) :
    Act.Keeps S (fun _ => P) (createOrGetRun run) := by
  refine Act.keeps_bind (hop _ trivial) fun inserted => ?_
  split
  · exact Act.keeps_pure _
  · refine Act.keeps_bind (hop _ trivial) fun answer => ?_
    refine Act.keeps_bind (Act.keeps_ofExcept _) fun found => ?_
    split
    · exact Act.keeps_pure _
    · exact Act.keeps_throw _

theorem respects_safeResume {wf : Workflow}
    (hresume : Act.Keeps S (fun _ => P) (WorkflowEngine.resume d.engine.asynchronous wf)) :
    Act.Keeps S (fun _ => P) (ApiService.safeResume d wf) := by
  refine Act.keeps_tryCatch (Act.keeps_bind hresume fun _ => keeps_getRun) fun e => ?_
  split
  · refine Act.keeps_bind keeps_getRun fun run => ?_
    refine Act.keeps_bind (hop _ trivial) fun answer => ?_
    exact Act.keeps_bind (Act.keeps_ofExcept _) fun _ => Act.keeps_pure _
  · exact Act.keeps_throw _

omit hop in
theorem respects_fired (wf : Workflow) (trigger : Trigger) {go : EngineM Run}
    (hgo : Act.Keeps S (fun _ => P) go) (out : Run × Bool) :
    Act.Keeps S (fun _ => P)
      (if out.2 then do
        emit "trigger_fired" (triggerFired wf trigger)
        go
      else return out.1) := by
  split
  · exact Act.keeps_bind (keeps_emit (fun _ _ _ _ h => h) _ _ _ _ _) fun _ => hgo
  · exact Act.keeps_pure _

theorem respects_code
    (hsync : ∀ wf, Act.Keeps S (fun _ => P) (WorkflowEngine.resume d.engine wf))
    (hasync : ∀ wf, Act.Keeps S (fun _ => P)
      (WorkflowEngine.resume d.engine.asynchronous wf)) (request : Request) :
    Act.Keeps S (fun _ => P) (request.code d) := by
  cases request with
  | orchestratorFire tenantId runId wf trigger buffer =>
      refine Act.keeps_bind (keeps_modifyRun_shared _) fun _ => Act.keeps_bind keeps_getRun fun run => ?_
      refine Act.keeps_bind (respects_createOrGetRun hop _) fun out => ?_
      exact respects_fired wf trigger (Act.keeps_bind (hsync wf) fun _ => keeps_getRun) out
  | apiFire tenantId runId wfName trigger =>
      refine Act.keeps_bind (Act.keeps_ofExcept _) fun wf => ?_
      refine Act.keeps_bind (hop _ trivial) fun allowed => ?_
      split
      · refine Act.keeps_bind (hop _ trivial) fun _ => ?_
        refine Act.keeps_bind (keeps_modifyRun_shared _) fun _ =>
          Act.keeps_bind keeps_getRun fun run => ?_
        refine Act.keeps_bind (respects_createOrGetRun hop _) fun out => ?_
        exact respects_fired wf trigger (respects_safeResume hop (hasync wf)) out
      · exact Act.keeps_throw _
  | orchestratorResume tenantId runId wf buffer =>
      refine Act.keeps_bind (respects_hydrate hop _ _) fun run => ?_
      split
      · exact Act.keeps_pure _
      · exact Act.keeps_bind (hsync wf) fun _ => keeps_getRun
  | runnerResume tenantId runId =>
      refine Act.keeps_bind (respects_hydrate hop _ _) fun run => ?_
      refine Act.keeps_bind (Act.keeps_ofExcept _) fun wf => ?_
      exact Act.keeps_bind (hasync wf) fun _ => keeps_getRun
  | apiResolve tenantId runId approvalId approved decidedBy note =>
      refine Act.keeps_bind (respects_hydrate hop _ _) fun run => ?_
      refine Act.keeps_bind (hop _ trivial) fun answer => ?_
      refine Act.keeps_bind (Act.keeps_ofExcept _) fun _ => ?_
      exact Act.keeps_bind (Act.keeps_ofExcept _) fun wf => respects_safeResume hop (hasync wf)
  | apiCancel tenantId runId =>
      refine Act.keeps_bind (hop _ trivial) fun answer => ?_
      exact Act.keeps_bind (Act.keeps_ofExcept _) fun _ => respects_hydrate hop _ _

/-- What the calls of the services and the engine respect, every request respects. -/
theorem respects_program
    (hsync : ∀ wf, Act.Keeps S (fun _ => P) (WorkflowEngine.resume d.engine wf))
    (hasync : ∀ wf, Act.Keeps S (fun _ => P)
      (WorkflowEngine.resume d.engine.asynchronous wf)) (request : Request) {s : σ} (hs : P s) :
    (request.program d).wp S (fun _ => P) s := by
  unfold Request.program
  rw [Prog.wp_bind]
  refine Prog.wp_mono (fun out s' hout => ?_) _
    (respects_code hop hsync hasync request request.memory s hs)
  obtain ⟨r, m⟩ := out
  cases r <;> exact hout

end Requests

end Bass
