import Bass.Workflow
import Bass.World

/-!
# Entry points

The callers of the engine: `Orchestrator`, `SystemRunner` and `ApiService`. Each entry point is the
program one process runs for one request. Before it has created or loaded a run, a driver's memory
holds nothing but the ids it was given.
-/

namespace Bass

open Interaction EngineM

/-- The built-in functions that key derivation uses: `str` on values that are not strings,
`json.dumps` with sorted keys, and the hexadecimal SHA-256 digest. -/
structure Builtins where
  repr : Json → String
  canonical : List (String × Json) → String
  sha256 : String → String

/-- What a process serves, the workflows under the keys the services look them up by. -/
structure Deployment where
  engine : EngineConfig
  builtins : Builtins
  workflowsById : Dict String Workflow
  workflowsByName : Dict String Workflow

/-- An engine without an approval callback, as the API and the system runner build it. -/
def EngineConfig.asynchronous (cfg : EngineConfig) : EngineConfig := { cfg with approvalFn := false }

/-! ### Keys of triggers -/

/-- Python truth of a JSON value. -/
def Json.truthy : Json → Bool
  | .null => false
  | .bool value => value
  | .int value => value ≠ 0
  | .float (.finite value) => value ≠ 0
  | .float .negZero => false
  | .float _ => true
  | .str value => value ≠ ""
  | .arr items => !items.isEmpty
  | .obj fields => !fields.isEmpty

/-- `str(value)`. -/
def Builtins.str (builtins : Builtins) : Json → String
  | .str value => value
  | value => builtins.repr value

/-- A trigger event is a dictionary with string keys. -/
abbrev Trigger : Type := Dict String Json

def deriveIdempotencyKey (builtins : Builtins) (trigger : Trigger) : String :=
  let source := ["idempotency_key", "message_id", "delivery_id", "id"].findSome? fun key =>
    (trigger.get? key).filter Json.truthy
  match source with
  | some value => builtins.str value
  | none =>
      "sha256:" ++ String.ofList ((builtins.sha256 (builtins.canonical trigger.rows)).toList.take 24)

/-- The `Run` a service builds for a trigger, under a fresh id. -/
def Run.ofTrigger (builtins : Builtins) (tenantId runId : String) (wf : Workflow)
    (trigger : Trigger) : Run :=
  { tenantId := tenantId
    workflowId := wf.id
    workflowVersion := wf.version
    triggerEvent := .obj trigger.rows
    idempotencyKey := deriveIdempotencyKey builtins trigger
    cursorStep := some wf.start
    id := runId }

/-! ### Loading and creating runs -/

/-- The memory a request starts with: the ids it names, and the engine's event buffer, which is empty
unless the engine is shared with earlier requests. -/
def Mem.request (tenantId runId : String) (buffer : List Event) : Mem :=
  { run :=
      { tenantId := tenantId
        workflowId := ""
        workflowVersion := 0
        triggerEvent := .null
        idempotencyKey := ""
        id := runId }
    buffer := buffer }

/-- `store.load_run`, raising `KeyError` when there is no such run. -/
def hydrate (tenantId runId : String) : EngineM Run := do
  let answer ← perform (.loadRun tenantId runId)
  match ← Act.ofExcept answer with
  | none => throw (.keyError runId)
  | some run =>
      modifyRun fun _ => run
      return run

/-- `store.create_or_get_run`: the run to go on with and whether it was created. -/
def createOrGetRun (run : Run) : EngineM (Run × Bool) := do
  if ← perform (.insertRun run) then return (run, true)
  else
    let answer ← perform (.loadRunByKey run.tenantId run.idempotencyKey)
    match ← Act.ofExcept answer with
    | some existing => return (existing, false)
    | none => throw (.assertionError "")

def triggerFired (wf : Workflow) (trigger : Trigger) : Json :=
  .obj [("workflow", .str wf.name), ("event", .obj trigger.rows)]

namespace Orchestrator

variable (d : Deployment)

def fire (tenantId runId : String) (wf : Workflow) (trigger : Trigger) : EngineM Run := do
  modifyRun fun _ => Run.ofTrigger d.builtins tenantId runId wf trigger
  let (run, created) ← createOrGetRun (← getRun)
  if created then
    emit "trigger_fired" (triggerFired wf trigger)
    WorkflowEngine.resume d.engine wf
    getRun
  else return run

def resumeRun (tenantId runId : String) (wf : Workflow) : EngineM Run := do
  let run ← hydrate tenantId runId
  if run.status.terminal then return run
  else
    WorkflowEngine.resume d.engine wf
    getRun

end Orchestrator

namespace SystemRunner

variable (d : Deployment)

def resume (tenantId runId : String) : EngineM Run := do
  let run ← hydrate tenantId runId
  let wf ← Act.ofExcept (item run.workflowId (d.workflowsById.get? run.workflowId))
  WorkflowEngine.resume d.engine.asynchronous wf
  getRun

end SystemRunner

namespace ApiService

variable (d : Deployment)

/-- `_safe_resume`: a `BassError` is swallowed and the stored run returned. -/
def safeResume (wf : Workflow) : EngineM Run :=
  tryCatch (do WorkflowEngine.resume d.engine.asynchronous wf; getRun) fun e =>
    if e.isBassError then do
      let run ← getRun
      let answer ← perform (.loadRun run.tenantId run.id)
      return (← Act.ofExcept answer).getD run
    else throw e

def fire (tenantId runId wfName : String) (trigger : Trigger) : EngineM Run := do
  let wf ← Act.ofExcept (item wfName (d.workflowsByName.get? wfName))
  if ← perform (.allowRequest tenantId) then
    perform (.ensureTenant tenantId tenantId (.obj []))
    modifyRun fun _ => Run.ofTrigger d.builtins tenantId runId wf trigger
    let (run, created) ← createOrGetRun (← getRun)
    if created then
      emit "trigger_fired" (triggerFired wf trigger)
      safeResume d wf
    else return run
  else throw (.bass .rateLimited tenantId)

def cancel (tenantId runId : String) : EngineM Run := do
  let answer ← perform (.cancelRun tenantId runId)
  let _ ← Act.ofExcept answer
  hydrate tenantId runId

def resolveApproval (tenantId runId approvalId : String) (approved : Bool)
    (decidedBy note : String) : EngineM Run := do
  let run ← hydrate tenantId runId
  let answer ← perform (.resolveApproval tenantId approvalId approved decidedBy note)
  Act.ofExcept answer
  let wf ← Act.ofExcept (item run.workflowId (d.workflowsById.get? run.workflowId))
  safeResume d wf

end ApiService

/-! ### Requests in flight -/

/-- The requests. A `fire` carries the id that is drawn for its run. -/
inductive Request where
  | orchestratorFire (tenantId runId : String) (wf : Workflow) (trigger : Trigger)
      (buffer : List Event)
  | apiFire (tenantId runId wfName : String) (trigger : Trigger)
  | orchestratorResume (tenantId runId : String) (wf : Workflow) (buffer : List Event)
  | runnerResume (tenantId runId : String)
  | apiResolve (tenantId runId approvalId : String) (approved : Bool) (decidedBy note : String)
  | apiCancel (tenantId runId : String)

namespace Request

def runId : Request → String
  | orchestratorFire _ runId _ _ _ => runId
  | apiFire _ runId _ _ => runId
  | orchestratorResume _ runId _ _ => runId
  | runnerResume _ runId => runId
  | apiResolve _ runId _ _ _ _ => runId
  | apiCancel _ runId => runId

/-- The requests that go on to drive the run they create or load. -/
def isDriver : Request → Bool
  | apiCancel .. => false
  | _ => true

def code (d : Deployment) : Request → EngineM Run
  | orchestratorFire tenantId runId wf trigger _ => Orchestrator.fire d tenantId runId wf trigger
  | apiFire tenantId runId wfName trigger => ApiService.fire d tenantId runId wfName trigger
  | orchestratorResume tenantId runId wf _ => Orchestrator.resumeRun d tenantId runId wf
  | runnerResume tenantId runId => SystemRunner.resume d tenantId runId
  | apiResolve tenantId runId approvalId approved decidedBy note =>
      ApiService.resolveApproval d tenantId runId approvalId approved decidedBy note
  | apiCancel tenantId runId => ApiService.cancel tenantId runId

/-- The run a fire would create; `none` for other requests and for unknown workflow names. -/
def wanted (d : Deployment) : Request → Option Run
  | orchestratorFire tenantId runId wf trigger _ =>
      some (Run.ofTrigger d.builtins tenantId runId wf trigger)
  | apiFire tenantId runId wfName trigger =>
      (d.workflowsByName.get? wfName).map fun wf =>
        Run.ofTrigger d.builtins tenantId runId wf trigger
  | _ => none

def memory : Request → Mem
  | orchestratorFire tenantId runId _ _ buffer => Mem.request tenantId runId buffer
  | apiFire tenantId runId _ _ => Mem.request tenantId runId []
  | orchestratorResume tenantId runId _ buffer => Mem.request tenantId runId buffer
  | runnerResume tenantId runId => Mem.request tenantId runId []
  | apiResolve tenantId runId _ _ _ _ => Mem.request tenantId runId []
  | apiCancel tenantId runId => Mem.request tenantId runId []

/-- The program of a request; what it returns or raises goes to the client. -/
def program (d : Deployment) (request : Request) : Driver Unit := do
  let _ ← (request.code d).exec request.memory
  return ()

end Request

/-- Sequences of complete fires, each with what it returned or raised. -/
inductive Fires (d : Deployment) (redact : Json → Json) :
    DB → List (Request × Except Exc Run) → DB → Prop where
  | nil (db : DB) : Fires d redact db [] db
  | cons {db db₁ db' : DB} {request : Request} {wanted : Run} {outcome : Except Exc Run} {m : Mem}
      {trace : List (Prog.Event Call Call.Res)} {fires : List (Request × Except Exc Run)}
      (hwanted : request.wanted d = some wanted)
      (head : Prog.Exec (Call.step d.engine.policy redact) ((request.code d).exec request.memory) db
        trace (.pure (outcome, m)) db₁)
      (tail : Fires d redact db₁ fires db') :
      Fires d redact db ((request, outcome) :: fires) db'

/-- Interleavings of requests over one database. -/
abbrev System : Type := Pool Request Call Call.Res DB

abbrev System.Run (d : Deployment) (redact : Json → Json) :
    System → List (Pool.Label Request Call Call.Res) → System → Prop :=
  Pool.Run (Call.step d.engine.policy redact) (Request.program d) (fun _ _ => False)

/-- Play a schedule of requests in a deterministic world. -/
def System.play (d : Deployment) (redact : Json → Json) (world : World)
    (moves : List (Pool.Move Request)) (c : System) :
    List (Pool.Label Request Call Call.Res) × System :=
  Pool.play (fun db call => call.op.serve d.engine.policy redact world db) (Request.program d)
    moves c

theorem System.play_run (d : Deployment) (redact : Json → Json) (world : World)
    (moves : List (Pool.Move Request)) (c : System) :
    System.Run d redact c (System.play d redact world moves c).1
      (System.play d redact world moves c).2 :=
  Pool.play_run (fun db call => call.op.serve_step d.engine.policy redact world db) moves c

/-- Some request executes a tool for the run. -/
def System.Executes (labels : List (Pool.Label Request Call Call.Res)) (runId : String) : Prop :=
  ∃ i m caller tool args answer,
    .call i ⟨m, .execute caller tool args⟩ answer ∈ labels ∧ m.run.id = runId

/-! ### A small deployment -/

/-- A mutating tool that every rule permits, and a workflow that uses it once. -/
def payTool : Tool :=
  { name := "pay"
    connector := "bank"
    sideEffect := true }

def payStep : Step :=
  { id := "pay"
    nodeType := .tool
    tool := some "pay" }

def payWorkflow : Workflow :=
  { name := "payments"
    steps := Dict.ofList [("pay", payStep)]
    start := "pay"
    id := "payments" }

/-- A workflow that waits for an approval before it goes on to `next`. -/
def gatedWorkflow (version : Int) (next : Step) : Workflow :=
  { name := "payments"
    steps := Dict.ofList [("gate", { id := "gate", nodeType := .approval, next := some next.id }),
      (next.id, next)]
    start := "gate"
    version := version
    id := "payments" }

def allowAll : Policy :=
  { name := "allow"
    version := 1
    applies := fun _ _ _ _ => .ok true
    effect := .allow
    reason := "" }

def payDeployment : Deployment :=
  { engine :=
      { agents := Table.empty
        tools :=
          { tools := Dict.ofList [("pay", payTool)]
            connectors := ["bank"]
            named := by decide
            connected := by decide }
        policy := ⟨[allowAll], List.pairwise_singleton _ _⟩
        approvalFn := false }
    builtins := ⟨fun _ => "", fun _ => "", fun text => text⟩
    workflowsById := Dict.ofList [("payments", payWorkflow)]
    workflowsByName := Dict.ofList [("payments", payWorkflow)] }

def newRow (runId workflowId : String) : RunRow :=
  { id := runId
    tenantId := "acme"
    workflowId := workflowId
    workflowVersion := 1
    triggerJson := .obj []
    idempotencyKey := "trigger"
    status := .pending
    cursorStep := none
    contextJson := Table.empty
    costUsd := 0
    stepsUsed := 0
    resultJson := none
    startedAt := 0
    updatedAt := 0 }

/-- A database with one run that has not started yet. -/
def DB.withRun (runId workflowId : String) : DB :=
  { DB.empty with
    runs := ⟨[newRow runId workflowId], List.nodup_singleton _⟩
    runsUnique := List.nodup_singleton _ }

/-- A driver of a stored run, played to the end of `resume` in a deterministic world. -/
def playResume (cfg : EngineConfig) (wf : Workflow) (world : World) (runId : String) :
    Trail × (Except Exc Unit × Mem) × DB :=
  ((WorkflowEngine.resume cfg wf).exec ⟨(newRow runId wf.id).toRun, []⟩).complete
    (fun db call => call.op.serve cfg.policy id world db) (DB.withRun runId wf.id)

theorem playResume_exec (cfg : EngineConfig) (wf : Workflow) (world : World) (runId : String) :
    Prog.Exec (Call.step cfg.policy id)
      ((WorkflowEngine.resume cfg wf).exec ⟨(newRow runId wf.id).toRun, []⟩) (DB.withRun runId wf.id)
      (playResume cfg wf world runId).1 (.pure (playResume cfg wf world runId).2.1)
      (playResume cfg wf world runId).2.2 :=
  Prog.complete_exec (fun db call => call.op.serve_step cfg.policy id world db) _ _

end Bass
