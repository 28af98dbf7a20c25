import Bass.Agent

/-!
# The workflow engine

`WorkflowEngine` of `workflow.py`. The engine walks the step graph one node at a time on its own
copy of the run and commits that copy, with the events of the step, at the end of each step. An
exception leaves the in-memory changes made before it in place.
-/

namespace Bass

open Interaction EngineM

/-- The key of a tool step's row in the side-effect ledger. -/
def ledgerKey (runId stepId tool : String) : String := s!"{runId}:{stepId}:{tool}"

def ArgValue.eval (context : Context) : ArgValue → Except Exc Json
  | .const value => .ok value
  | .fn f => f context

/-- `_resolve`: callables are applied to the context, in order, and the first exception wins. -/
def resolve (args : Dict String ArgValue) (context : Context) : Except Exc Args := do
  let entries ← args.rows.mapM fun entry => do return (entry.1, ← entry.2.eval context)
  return Dict.ofList entries

/-- `args.get("amount")`. -/
def amountOf (args : Args) : Json := (args.get? "amount").getD .null

namespace WorkflowEngine

variable (cfg : EngineConfig)

/-! ### Approvals -/

def approvalRequested (approvalId : String) (approvers : List String) (toolName : String)
    (args : Args) : Json :=
  .obj [("approval_id", .str approvalId), ("approvers", .arr (approvers.map .str)),
    ("tool", .str toolName), ("amount", amountOf args)]

def approvalResolved (approvalId : String) (granted : Bool) : Json :=
  .obj [("approval_id", .str approvalId), ("granted", .bool granted)]

def setStatus (status : RunStatus) : EngineM Unit :=
  modifyRun fun run => { run with status := status }

/-- `_await_approval` with a callback: the decision is taken inline. -/
def awaitSync (step : Step) (approvers : List String) (toolName : String) (args : Args) :
    EngineM Bool := do
  let run ← getRun
  let created ← perform (.createApproval run.tenantId run.id step.id approvers)
  let approvalId ← Act.ofExcept created
  setStatus .waitingApproval
  emit "approval_requested" (approvalRequested approvalId approvers toolName args) (some step.id)
  let answer ← perform (.approvalFn (← getRun) step toolName args)
  let granted ← Act.ofExcept answer
  let resolved ← perform (.resolveApproval run.tenantId approvalId granted "approval_fn" "")
  Act.ofExcept resolved
  emit "approval_resolved" (approvalResolved approvalId granted) (some step.id)
  setStatus .running
  return granted

/-- `_await_approval` without a callback: request an approval, or read the latest one of this step,
and pause while it is undecided. -/
def awaitAsync (step : Step) (approvers : List String) (toolName : String) (args : Args) :
    EngineM Bool := do
  let run ← getRun
  match ← perform (.latestApproval run.tenantId run.id step.id) with
  | none =>
      let created ← perform (.createApproval run.tenantId run.id step.id approvers)
      let approvalId ← Act.ofExcept created
      setStatus .waitingApproval
      emit "approval_requested" (approvalRequested approvalId approvers toolName args)
        (some step.id)
      checkpoint
      throw (.paused approvalId)
  | some (approvalId, status) =>
      if status = .pending then
        setStatus .waitingApproval
        checkpoint
        throw (.paused approvalId)
      else
        emit "approval_resolved" (approvalResolved approvalId (status = .approved)) (some step.id)
        return status = .approved

/-- `_await_approval`: whether to proceed. -/
def awaitApproval (step : Step) (approvers : List String) (toolName : String) (args : Args) :
    EngineM Bool :=
  if cfg.approvalFn then awaitSync step approvers toolName args
  else awaitAsync step approvers toolName args

/-! ### Node handlers -/

def runAgent (step : Step) : EngineM (Option String) := do
  match step.agent.bind cfg.agents.get? with
  | none =>
      let name := step.agent.getD "None"
      throw (.bass .workflowError s!"unknown agent '{name}'")
  | some agent =>
      let run ← getRun
      let args ← Act.ofExcept (resolve step.args run.context)
      let task := if args.rows.isEmpty then Dict.ofList [("email", run.triggerEvent)] else args
      let output ← AgentRuntime.run cfg agent task
      modifyRun fun run => { run with context := Dict.set run.context step.id output }
      return step.next

/-- The principal of a workflow tool step. -/
def systemAgent (toolName : String) : Agent :=
  { name := "system"
    role := "workflow"
    instructions := ""
    tools := [toolName] }

/-- The policy gate of a tool step, approval included: it returns only if the step may act. -/
def gate (step : Step) (tool : Tool) (name : String) (args : Args) : EngineM Unit := do
  let decision ← perform (.policyCheck (systemAgent name) tool args (← getRun).context)
  emit "policy_decision" (AgentRuntime.decisionPayload name decision) (some step.id)
  match decision.effect with
  | .allow => return
  | .deny => throw (.bass .policyDenied s!"{name}: {decision.reason}")
  | .requireApproval =>
      if ← awaitApproval cfg step decision.approvers name args then return
      else throw (.bass .policyDenied s!"{name}: approval not granted")

/-- The tool acts, a mutating one under its ledger key, and its result is recorded and booked. -/
def act (step : Step) (tool : Tool) (name : String) (args : Args) (key : String) :
    EngineM (Option String) := do
  let sent := if tool.sideEffect then Dict.set args "_idempotency_key" (.str key) else args
  let answer ← perform (.execute (.step step.id) name sent)
  let result ← Act.ofExcept answer
  let run ← getRun
  if tool.sideEffect then
    perform (.recordEffect run.tenantId key run.id step.id name result)
  modifyRun fun run => { run with costUsd := run.costUsd + tool.costUsd }
  emit "tool_result" (.obj [("tool", .str name), ("result", result)]) (some step.id) tool.costUsd
  modifyRun fun run => { run with context := Dict.set run.context step.id result }
  return step.next

/-- The ledger lookup of a mutating tool; a read-only tool has nothing recorded. -/
def cachedEffect (tool : Tool) (key : String) : EngineM Json := do
  if tool.sideEffect then
    let run ← getRun
    let answer ← perform (.getEffect run.tenantId key)
    Act.ofExcept answer
  else return .null

def runTool (step : Step) : EngineM (Option String) := do
  match step.tool with
  | none => throw (.assertionError "tool node requires a tool name")
  | some name =>
      let tool ← Act.ofExcept (cfg.tools.get name)
      let run ← getRun
      let args ← Act.ofExcept (resolve step.args run.context)
      let key := ledgerKey run.id step.id name
      let cached ← cachedEffect tool key
      if cached.isNone then
        gate cfg step tool name args
        act step tool name args key
      else
        emit "tool_result_replayed" (.obj [("tool", .str name), ("result", cached)]) (some step.id)
        modifyRun fun run => { run with context := Dict.set run.context step.id cached }
        return step.next

/-- The first arm whose predicate holds; a missing predicate is the else arm. -/
def chooseBranch (context : Context) :
    List (Option (Context → Except Exc Bool) × String) → Except Exc (Option String)
  | [] => .ok none
  | (none, goto) :: _ => .ok (some goto)
  | (some predicate, goto) :: rest => do
      if ← predicate context then return some goto else chooseBranch context rest

def runBranch (step : Step) : EngineM (Option String) := do
  let run ← getRun
  match ← Act.ofExcept (chooseBranch run.context step.branches) with
  | some goto =>
      emit "branch_taken" (.obj [("goto", .str goto)]) (some step.id)
      return some goto
  | none => return step.next

def runApproval (step : Step) : EngineM (Option String) := do
  if ← awaitApproval cfg step step.approvers "" Table.empty then return step.next
  else throw (.bass .policyDenied s!"approval step '{step.id}' rejected")

def runStep (step : Step) : EngineM (Option String) :=
  match step.nodeType with
  | .agent => runAgent cfg step
  | .tool => runTool cfg step
  | .branch => runBranch step
  | .approval => runApproval cfg step
  | .terminate => return none
  | .other name => throw (.bass .workflowError s!"unknown node type: {name}")

/-! ### The step loop -/

def retryPayload (step : Step) (attempt : Nat) (e : Exc) : Json :=
  .obj [("step", .str step.id), ("attempt", .int attempt), ("error", .str e.str)]

/-- The attempt loop with `n` attempts left, the next one being number `attempt`, and `last` the
failure of the one before. Only a `ConnectorError` is retried. -/
def attempts (step : Step) : (n attempt : Nat) → (last : Option Exc) → EngineM (Option String)
  | 0, _, none => throw (.assertionError "")
  | 0, _, some e => throw e
  | n + 1, attempt, _ =>
      tryCatch (runStep cfg step) fun e =>
        if e.isConnectorError then do
          emit "step_retry" (retryPayload step attempt e) (some step.id)
          attempts step n (attempt + 1) (some e)
        else throw e

def runStepWithRetry (step : Step) : EngineM (Option String) :=
  attempts cfg step step.maxAttempts.toNat 1 none

/-- The compensating step of `step`, if it names one that exists. -/
def compensation (wf : Workflow) (step : Step) : Option Step :=
  match step.compensateWith with
  | none => none
  | some name => if name = "" then none else wf.steps.get? name

/-- `_compensate`: best effort, whatever the compensating step raises is swallowed. -/
def compensate (wf : Workflow) (step : Step) : EngineM Unit := do
  match compensation wf step with
  | none => return
  | some comp =>
      emit "compensation" (.obj [("for_step", .str step.id), ("run_step", .str comp.id)])
        (some comp.id)
      tryCatch (do let _ ← runStep cfg comp) fun e =>
        emit "compensation_failed" (.obj [("step", .str comp.id), ("error", .str e.str)])
          (some comp.id)

/-- Mark the run failed and commit it. -/
def failRun (reason detail : String) : EngineM Unit := do
  setStatus .failed
  emit "error" (.obj [("reason", .str reason), ("detail", .str detail)])
  checkpoint

/-- The two handlers around a step; any other exception leaves the engine as it is. -/
def stepFailed (wf : Workflow) (step : Step) (e : Exc) : EngineM (Option String) := do
  if e.isPolicyDenied then
    failRun "policy denied" e.str
    throw e
  else if e.isConnectorError then
    compensate cfg wf step
    failRun "step failed" e.str
    throw e
  else throw e

/-- `run.context.get("result", run.context)`. -/
def finalResult (context : Context) : Json := (context.get? "result").getD (.obj context.rows)

/-- Move the cursor, finish the run at the end of the graph, and commit. -/
def advance (next : Option String) : EngineM Unit := do
  modifyRun fun run => { run with cursorStep := next }
  if next.isNone then
    setStatus .succeeded
    modifyRun fun run => { run with result := finalResult run.context }
    emit "run_succeeded" (.obj [("result", (← getRun).result)])
  checkpoint

/-- One step entry within budget. -/
def enterStep (wf : Workflow) (step : Step) : EngineM (Option String) := do
  modifyRun fun run => { run with stepsUsed := run.stepsUsed + 1 }
  emit "state_transition"
    (.obj [("entering_step", .str step.id), ("type", .str step.nodeType.value)]) (some step.id)
  perform (.stepSpan step)
  let next ← tryCatch (runStepWithRetry cfg step) (stepFailed cfg wf step)
  advance next
  return next

/-- One iteration of the loop of `_drive`. -/
def iterate (wf : Workflow) (budget : Budget) (stepId : String) : EngineM (Option String) := do
  match wf.steps.get? stepId with
  | none => throw (.bass .workflowError s!"unknown step '{stepId}'")
  | some step =>
      match budget.check (← getRun) with
      | some violation =>
          failRun "budget exceeded" violation
          throw (.bass .budgetExceeded violation)
      | none => enterStep cfg wf step

/-- `_drive` with at most `n` iterations; it returns the step it would go on with. -/
def drive (wf : Workflow) (budget : Budget) : Nat → Option String → EngineM (Option String)
  | _, none => return none
  | 0, some stepId => return some stepId
  | n + 1, some stepId => do
      let next ← iterate cfg wf budget stepId
      drive wf budget n next

/-- Enough iterations for any run: each one uses a step, and the last finds the budget spent. -/
def iterations (wf : Workflow) (run : Run) : Nat := (wf.maxSteps + 1 - run.stepsUsed).toNat + 1

/-- `resume`: run to completion, or until an approval is awaited, from the run's cursor. -/
def resume (wf : Workflow) : EngineM Unit := do
  let run ← getRun
  if run.status.terminal then return
  else
    setStatus .running
    let stepId := run.cursorStep.getD wf.start
    tryCatch (do let _ ← drive cfg wf ⟨wf.budgetUsd, wf.maxSteps⟩ (iterations wf run) (some stepId))
      fun e => if e.isPaused then return else throw e

end WorkflowEngine

end Bass
