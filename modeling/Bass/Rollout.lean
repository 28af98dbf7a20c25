import Bass.Sessions

/-!
# Definitions that change

`register_workflow` files a definition under its id and its name, in place of the one that was there.
A rollout is an interleaving of requests each of which looks its definition up in a registry of its
own: the one its process has at that moment.
-/

namespace Bass

open Interaction

/-- `workflows_by_id` and `workflows_by_name`. -/
structure Registry where
  byId : Dict String Workflow
  byName : Dict String Workflow

namespace Registry

def empty : Registry := ⟨Table.empty, Table.empty⟩

def registerWorkflow (registry : Registry) (wf : Workflow) : Registry :=
  { byId := Dict.set registry.byId wf.id wf
    byName := Dict.set registry.byName wf.name wf }

theorem byId_registerWorkflow (registry : Registry) (wf : Workflow) :
    (registry.registerWorkflow wf).byId.get? wf.id = some wf :=
  Dict.get?_set_self _ _ _

theorem byId_registerWorkflow_of_ne (registry : Registry) {wf : Workflow} {workflowId : String}
    (hne : wf.id ≠ workflowId) :
    (registry.registerWorkflow wf).byId.get? workflowId = registry.byId.get? workflowId :=
  Dict.get?_set_of_ne _ _ hne

end Registry

/-- The deployment whose process has this registry. -/
def Deployment.serving (d : Deployment) (registry : Registry) : Deployment :=
  { d with workflowsById := registry.byId, workflowsByName := registry.byName }

/-- A request, and the registry it finds its definition in. -/
structure Served where
  registry : Registry
  request : Request

namespace Served

def program (d : Deployment) (served : Served) : Driver Unit :=
  served.request.program (d.serving served.registry)

/-- The definition the request drives a run of the workflow `workflowId` with. -/
def definition (d : Deployment) (served : Served) (workflowId : String) : Option Workflow :=
  served.request.definition (d.serving served.registry) workflowId

end Served

/-- Interleavings of requests while definitions are registered. -/
abbrev Rollout : Type := Pool Served Call Call.Res DB

namespace Rollout

abbrev Label : Type := Pool.Label Served Call Call.Res

abbrev Run (d : Deployment) (redact : Json → Json) : Rollout → List Label → Rollout → Prop :=
  Pool.Run (Call.step d.engine.policy redact) (Served.program d) (fun _ _ => False)

/-- The request at a position. -/
def request? (c : Rollout) (i : Nat) : Option Served := (c.threads[i]?).map Prod.fst

/-- Some request has used, or would use, this definition. -/
def Defines (d : Deployment) (c : Rollout) (wf : Workflow) : Prop :=
  ∃ i served workflowId, c.request? i = some served ∧ served.definition d workflowId = some wf

/-- Play a schedule of requests in a deterministic world. -/
def play (d : Deployment) (redact : Json → Json) (world : World) (moves : List (Pool.Move Served))
    (c : Rollout) : List Label × Rollout :=
  Pool.play (fun db call => call.op.serve d.engine.policy redact world db) (Served.program d) moves c

theorem play_run (d : Deployment) (redact : Json → Json) (world : World)
    (moves : List (Pool.Move Served)) (c : Rollout) :
    Run d redact c (play d redact world moves c).1 (play d redact world moves c).2 :=
  Pool.play_run (fun db call => call.op.serve_step d.engine.policy redact world db) moves c

end Rollout

end Bass
