import Bass.Services

/-!
# One driver of a run at a time

A session is the life of one run: attempts to drive it, never two at once, each on a fresh engine and
each abandoned at any point when the next one starts. In between and during an attempt the rest of
the world goes on: drivers of other runs, cancellations, decisions and purges.
-/

namespace Bass

open Interaction

/-- A request that drives the run `runId`, on a fresh engine. -/
structure Attempt (runId : String) where
  request : Request
  driver : request.isDriver = true
  run : request.runId = runId
  fresh : request.memory.buffer = []

/-- The definition a request drives a run of the workflow `workflowId` with. -/
def Request.definition (d : Deployment) (workflowId : String) : Request → Option Workflow
  | orchestratorFire _ _ wf _ _ => some wf
  | apiFire _ _ wfName _ => d.workflowsByName.get? wfName
  | orchestratorResume _ _ wf _ => some wf
  | runnerResume .. | apiResolve .. => d.workflowsById.get? workflowId
  | apiCancel .. => none

/-- Calls that leave the progress of a run to its driver: nobody else creates it, checkpoints it,
records an effect of it or requests an approval for it. -/
def Op.Foreign (runId : String) : Op → Prop
  | .insertRun run => run.id ≠ runId
  | .checkpoint run events => run.id ≠ runId ∧ ∀ ev ∈ events, ev.runId ≠ runId
  | .recordEffect _ _ owner .. => owner ≠ runId
  | .createApproval _ owner .. => owner ≠ runId
  | _ => True

/-- What happens outside the attempts. -/
inductive Outside where
  | call (op : Op) (answer : op.Res)
  | purge (tenantId : String) (before : ℚ)

def Outside.step (policy : PolicyEngine) (redact : Json → Json) (runId : String) (db : DB) :
    Outside → DB → Prop
  | .call op answer, db' => op.Foreign runId ∧ op.step policy redact db answer db'
  | .purge tenantId before, db' => db' = (db.purgeEventPayloads tenantId before).1

abbrev Session : Type := Serial Call Call.Res DB

namespace Session

abbrev Label (runId : String) : Type := Serial.Label (Attempt runId) Call Call.Res Outside

abbrev History (runId : String) : Type := Serial.History (Attempt runId) Call Call.Res Outside

/-- No attempt is under way. -/
def idle (db : DB) : Session := ⟨.pure (), db⟩

abbrev Run (d : Deployment) (redact : Json → Json) (runId : String) :
    Session → History runId → Session → Prop :=
  Serial.Run (Call.step d.engine.policy redact) (fun attempt => attempt.request.program d)
    fun db event db' => event.step d.engine.policy redact runId db db'

/-- The calls of the attempts, in order. -/
def calls {runId : String} (h : History runId) : Trail :=
  h.filterMap fun label => match label with
    | .call call answer => some ⟨call, answer⟩
    | _ => none

variable {runId : String}

/-- Every attempt of a history drives the run, of the workflow `wf.id`, with the definition `wf`. -/
def Drives (d : Deployment) (wf : Workflow) (labels : History runId) : Prop :=
  ∀ attempt : Attempt runId, .start attempt ∈ labels →
    ∀ wf', attempt.request.definition d wf.id = some wf' → wf' = wf

/-- Play a schedule of a session in a deterministic world, without calls of others. -/
def play (d : Deployment) (redact : Json → Json) (world : World)
    (moves : List (Serial.Move (Attempt runId) Outside)) (c : Session) : History runId × Session :=
  Serial.play (fun db call => call.op.serve d.engine.policy redact world db)
    (fun attempt => attempt.request.program d)
    (fun db event => match event with
      | .purge tenantId before => (db.purgeEventPayloads tenantId before).1
      | .call _ _ => db) moves c

theorem play_run (d : Deployment) (redact : Json → Json) (world : World)
    (moves : List (Serial.Move (Attempt runId) Outside))
    (hmoves : ∀ op answer, .env (.call op answer) ∉ moves) (c : Session) :
    Run d redact runId c (play d redact world moves c).1 (play d redact world moves c).2 := by
  refine Serial.play_run (fun db call => call.op.serve_step d.engine.policy redact world db) moves
    (fun db event hmem => ?_) c
  cases event with
  | call op answer => exact absurd hmem (hmoves op answer)
  | purge tenantId before => rfl

end Session

end Bass
