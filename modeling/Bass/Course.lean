import Mathlib.Logic.Relation
import Bass.Api

/-!
# Where a run can come to

How far a run can be carried on without a word from outside but the results of its tools: its graph and its
budget, the ledger, the policy and the approvals that are decided settle the rest. There are no calls here, no
events and no handlers. A step lets the run pass, or a `KeyError` can come out of it, or the run goes no further.
-/

namespace Bass

open WorkflowEngine

/-- A run under way: the step it is at, its copy in memory, and the database with what has been recorded since. -/
structure Footing where
  cursor : Option String
  run : Run
  db : DB

/-- The database with a decision in it, whoever takes it and when. -/
def DB.withDecision (db : DB) (approvalId : String) (approved : Bool) : DB :=
  { db with
    approvals := db.approvals.update (fun row => row.id = approvalId)
      (fun row => { row with status := if approved then .approved else .rejected }) fun _ => rfl }

/-- The latest approval of the step was approved. -/
def DB.Approved (db : DB) (run : Run) (step : Step) : Prop :=
  ∃ approvalId, db.latestApproval run.tenantId run.id step.id = some (approvalId, .approved)

/-- The policy gate of a tool step opens. -/
def Step.Cleared (cfg : EngineConfig) (step : Step) (tool : Tool) (name : String) (args : Args) (run : Run)
    (db : DB) : Prop :=
  match (cfg.policy.check (systemAgent name) tool args run.context).effect with
  | .allow => True
  | .deny => False
  | .requireApproval => db.Approved run step

/-- What the ledger gives a tool for its key. -/
def DB.recorded (db : DB) (tool : Tool) (run : Run) (key : String) : Except Exc Json :=
  if tool.sideEffect then db.getEffect run.tenantId key else .ok .null

/-- The database once the tool has acted. -/
def DB.acted (db : DB) (tool : Tool) (run : Run) (step : Step) (name : String) (result : Json) (now : ℕ → ℚ) : DB :=
  if tool.sideEffect then
    db.recordEffect run.tenantId (ledgerKey run.id step.id name) run.id (some step.id) name result now
  else db

/-- A step lets the run pass: on to which step, with which run and which ledger. An agent step is not among them,
as it asks its model first. -/
inductive Step.Passes (cfg : EngineConfig) (step : Step) (run : Run) (db : DB) : Option String → Run → DB → Prop where
  | replays {name : String} {tool : Tool} {args : Args} {cached : Json} (hnode : step.nodeType = .tool)
      (htool : step.tool = some name) (hfound : cfg.tools.get name = .ok tool)
      (hargs : resolve step.args run.context = .ok args)
      (hcached : db.recorded tool run (ledgerKey run.id step.id name) = .ok cached) (hrecorded : cached ≠ .null) :
      Step.Passes cfg step run db step.next { run with context := Dict.set run.context step.id cached } db
  | acts {name : String} {tool : Tool} {args : Args} (result : Json) (now : ℕ → ℚ) (hnode : step.nodeType = .tool)
      (htool : step.tool = some name) (hfound : cfg.tools.get name = .ok tool)
      (hargs : resolve step.args run.context = .ok args)
      (hfresh : db.recorded tool run (ledgerKey run.id step.id name) = .ok .null)
      (hcleared : step.Cleared cfg tool name args run db) :
      Step.Passes cfg step run db step.next
        { run with costUsd := run.costUsd + tool.costUsd, context := Dict.set run.context step.id result }
        (db.acted tool run step name result now)
  | branches {choice : Option String} (hnode : step.nodeType = .branch)
      (hchoice : chooseBranch run.context step.branches = .ok choice) :
      Step.Passes cfg step run db (choice.or step.next) run db
  | approves (hnode : step.nodeType = .approval) (happroved : db.Approved run step) :
      Step.Passes cfg step run db step.next run db
  | terminates (hnode : step.nodeType = .terminate) : Step.Passes cfg step run db none run db

/-- A `KeyError` can come out of the step: its agent's model is asked, or its arguments or its branches raise one
on the context. -/
inductive Step.Falters (cfg : EngineConfig) (step : Step) (context : Context) : Prop where
  | model {agent : Agent} {args : Args} (hnode : step.nodeType = .agent)
      (hagent : step.agent.bind cfg.agents.get? = some agent) (hargs : resolve step.args context = .ok args)
      (hasks : 0 < agent.maxSteps) : Step.Falters cfg step context
  | task {agent : Agent} {e : Exc} (hnode : step.nodeType = .agent)
      (hagent : step.agent.bind cfg.agents.get? = some agent) (hargs : resolve step.args context = .error e)
      (hkey : e.isKeyError = true) : Step.Falters cfg step context
  | args {name : String} {tool : Tool} {e : Exc} (hnode : step.nodeType = .tool) (htool : step.tool = some name)
      (hfound : cfg.tools.get name = .ok tool) (hargs : resolve step.args context = .error e)
      (hkey : e.isKeyError = true) : Step.Falters cfg step context
  | branches {e : Exc} (hnode : step.nodeType = .branch) (hchoice : chooseBranch context step.branches = .error e)
      (hkey : e.isKeyError = true) : Step.Falters cfg step context

namespace Footing

/-- The run is entered into the step: it is within budget, and the step has an attempt. -/
structure Enters (wf : Workflow) (f : Footing) (step : Step) : Prop where
  at_step : ∃ name, f.cursor = some name ∧ wf.steps.get? name = some step
  budget : (Budget.mk wf.budgetUsd wf.maxSteps).check f.run = none
  attempts : 0 < step.maxAttempts

/-- The run in a step that it was entered into. -/
def entered (f : Footing) : Run := { f.run with stepsUsed := f.run.stepsUsed + 1 }

/-- A run as it is taken up. -/
def start (wf : Workflow) (run : Run) (db : DB) : Footing :=
  ⟨some (run.cursorStep.getD wf.start), { run with status := .running }, db⟩

end Footing

inductive Workflow.Proceeds (cfg : EngineConfig) (wf : Workflow) : Footing → Footing → Prop where
  | step {f : Footing} {step : Step} {next : Option String} {run : Run} {db : DB} (henters : f.Enters wf step)
      (hpasses : step.Passes cfg f.entered f.db next run db) :
      Workflow.Proceeds cfg wf f ⟨next, { run with cursorStep := next }, db⟩

/-- Carrying the run on comes to no step that a `KeyError` can come out of. -/
def Workflow.Sure (cfg : EngineConfig) (wf : Workflow) (run : Run) (db : DB) : Prop :=
  run.status.terminal = false → ∀ f, Relation.ReflTransGen (wf.Proceeds cfg) (.start wf run db) f →
    ∀ step, f.Enters wf step → ¬step.Falters cfg f.run.context

end Bass
