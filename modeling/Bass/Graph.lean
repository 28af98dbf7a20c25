import Mathlib.Logic.Relation
import Bass.Workflow

/-!
# What a workflow means

The graph of a workflow on its own. A walk stands before a step, or has ended, and carries the context that
the steps before have filled. There are no processes here, no store, no ledger, no approvals pending, no
budget and no failures: only which step follows which, and what a step may add to the context.
-/

namespace Bass

open WorkflowEngine

/-- Where a walk stands, `none` at the end, and what it carries. -/
structure Place where
  cursor : Option String
  context : Context

/-- What may come out of the outside: the result of a tool for the execution that a key names, and the
final output of an agent for a task. -/
structure Outcomes where
  tool : String → Json → Prop
  agent : Agent → Args → Json → Prop

/-- What the walks of one run depend on besides the graph. -/
structure Setting where
  agents : Dict String Agent
  outcomes : Outcomes
  runId : String
  trigger : Json

/-- What an agent step asks its agent. -/
def Step.task (step : Step) (trigger : Json) (context : Context) : Except Exc Args := do
  let args ← resolve step.args context
  return if args.rows.isEmpty then Dict.ofList [("email", trigger)] else args

/-- What an agent or a tool step may add to the context it is entered with. -/
inductive Step.Outputs (g : Setting) (step : Step) (context : Context) : Json → Prop where
  | agent {agent : Agent} {task : Args} {output : Json} (hnode : step.nodeType = .agent)
      (hagent : step.agent.bind g.agents.get? = some agent) (htask : step.task g.trigger context = .ok task)
      (houtput : g.outcomes.agent agent task output) : Step.Outputs g step context output
  | tool {name : String} {args : Args} {output : Json} (hnode : step.nodeType = .tool)
      (htool : step.tool = some name) (hargs : resolve step.args context = .ok args)
      (houtput : g.outcomes.tool (ledgerKey g.runId step.id name) output) : Step.Outputs g step context output

/-- One step, from the context it is entered with: the next cursor, and the context then. -/
inductive Step.Leaves (g : Setting) (step : Step) (context : Context) : Option String → Context → Prop where
  | acts {output : Json} (h : step.Outputs g context output) :
      Step.Leaves g step context step.next (Dict.set context step.id output)
  | branches {choice : Option String} (hnode : step.nodeType = .branch)
      (h : chooseBranch context step.branches = .ok choice) :
      Step.Leaves g step context (choice.or step.next) context
  | approves (hnode : step.nodeType = .approval) : Step.Leaves g step context step.next context
  | terminates (hnode : step.nodeType = .terminate) : Step.Leaves g step context none context

inductive Workflow.Follows (g : Setting) (wf : Workflow) : Place → Place → Prop where
  | step {name : String} {step : Step} {context context' : Context} {next : Option String}
      (hstep : wf.steps.get? name = some step) (h : step.Leaves g context next context') :
      Workflow.Follows g wf ⟨some name, context⟩ ⟨next, context'⟩

/-- Some walk from the start of the graph comes to the place. -/
def Workflow.Attains (g : Setting) (wf : Workflow) (place : Place) : Prop :=
  Relation.ReflTransGen (wf.Follows g) ⟨some wf.start, Table.empty⟩ place

/-- Some walk comes to a step with the tool, or to one that such a step compensates for, and resolves its
arguments to these. -/
inductive Workflow.Asks (g : Setting) (wf : Workflow) : (stepId tool : String) → Args → Prop where
  | step {name tool : String} {step : Step} {context : Context} {args : Args}
      (hattains : wf.Attains g ⟨some name, context⟩) (hstep : wf.steps.get? name = some step)
      (hnode : step.nodeType = .tool) (htool : step.tool = some tool)
      (hargs : resolve step.args context = .ok args) : Workflow.Asks g wf step.id tool args
  | compensation {name tool : String} {step comp : Step} {context : Context} {args : Args}
      (hattains : wf.Attains g ⟨some name, context⟩) (hstep : wf.steps.get? name = some step)
      (hcomp : WorkflowEngine.compensation wf step = some comp) (hnode : comp.nodeType = .tool)
      (htool : comp.tool = some tool) (hargs : resolve comp.args context = .ok args) :
      Workflow.Asks g wf comp.id tool args

/-- Some walk comes to the end of the graph with the result. -/
def Workflow.Computes (g : Setting) (wf : Workflow) (result : Json) : Prop :=
  ∃ context, wf.Attains g ⟨none, context⟩ ∧ result = finalResult context

/-- A walk of `n` steps from the origin, if there is one, comes to the place. -/
inductive Workflow.Walk (g : Setting) (wf : Workflow) (origin : Option Place) : Nat → Place → Prop where
  | here {place : Place} (h : origin = some place) : Workflow.Walk g wf origin 0 place
  | step {n : Nat} {place place' : Place} (h : Workflow.Walk g wf origin n place) (hstep : wf.Follows g place place') :
      Workflow.Walk g wf origin (n + 1) place'

/-- A walk from the origin that stands before a step of the workflow has taken `room` steps at most, whatever
comes out of the outside. -/
def Workflow.Fits (g : Setting) (wf : Workflow) (origin : Option Place) (room : Int) : Prop :=
  ∀ n name context, wf.Walk g origin n ⟨some name, context⟩ → wf.steps.get? name ≠ none → (n : Int) ≤ room

theorem Workflow.attains_start (g : Setting) (wf : Workflow) : wf.Attains g ⟨some wf.start, Table.empty⟩ :=
  .refl

theorem Workflow.Attains.step {g : Setting} {wf : Workflow} {name : String} {step : Step}
    {context context' : Context} {next : Option String} (h : wf.Attains g ⟨some name, context⟩)
    (hstep : wf.steps.get? name = some step) (hleaves : step.Leaves g context next context') :
    wf.Attains g ⟨next, context'⟩ :=
  .tail h (.step hstep hleaves)

end Bass
