import Bass.Interaction.Act
import Bass.Interaction.Pool
import Bass.Interaction.Serial
import Bass.Policy
import Bass.Store

/-!
# What a driver of a run asks its environment

The engine, the agent loop and the services are programs over the calls below. Store operations are
one transaction each; the model, the tools, the approval callback and the policy gate are answered
by the environment. What a driver holds in memory is its copy of the run and the events it has
emitted since its last checkpoint.
-/

namespace Bass

open Interaction

/-- A model's private conversation state for one agent step. -/
abbrev Scratch : Type := Dict String Json

structure ToolCall where
  tool : Option String
  args : Args := Table.empty
  id : Option String := none

/-- What a model answers. Absent keys of the response are `none`. -/
structure Response where
  type : Option String
  calls : Option (List ToolCall) := none
  costUsd : Option ℚ := none
  output : Option Json := none

/-- Which code asks for a tool: a workflow tool step or an agent inside its loop. -/
inductive Caller where
  | step (stepId : String)
  | agent (name : String)
  deriving DecidableEq

inductive Op where
  | ensureTenant (tenantId name : String) (settings : Json)
  | insertRun (run : Run)
  | loadRun (tenantId runId : String)
  | loadRunByKey (tenantId key : String)
  | checkpoint (run : Run) (events : List Event)
  | cancelRun (tenantId runId : String)
  | getEffect (tenantId key : String)
  | recordEffect (tenantId key runId stepId tool : String) (result : Json)
  | createApproval (tenantId runId stepId : String) (approvers : List String)
  | resolveApproval (tenantId approvalId : String) (approved : Bool) (decidedBy note : String)
  | latestApproval (tenantId runId stepId : String)
  | allowRequest (tenantId : String)
  | stepSpan (step : Step)
  | policyCheck (agent : Agent) (tool : Tool) (args : Args) (context : Context)
  | respond (agent : Agent) (task : Args) (scratch : Scratch)
  | execute (caller : Caller) (tool : String) (args : Args)
  | approvalFn (run : Run) (step : Step) (tool : String) (args : Args)

/-- The answer to a call. Calls that can raise answer with an exception or a value. -/
abbrev Op.Res : Op → Type
  | .ensureTenant .. => Unit
  | .insertRun _ => Bool
  | .loadRun .. => Except Exc (Option Run)
  | .loadRunByKey .. => Except Exc (Option Run)
  | .checkpoint .. => Except Exc Unit
  | .cancelRun .. => Except Exc Bool
  | .getEffect .. => Except Exc Json
  | .recordEffect .. => Unit
  | .createApproval .. => Except Exc String
  | .resolveApproval .. => Except Exc Unit
  | .latestApproval .. => Option (String × ApprovalStatus)
  | .allowRequest _ => Bool
  | .stepSpan _ => Unit
  | .policyCheck .. => Decision
  | .respond .. => Except Exc (Response × Scratch)
  | .execute .. => Except Exc Json
  | .approvalFn .. => Except Exc Bool

/-- A transaction either commits a new database or raises and leaves the old one. -/
def Commits {α : Type} (db : DB) (transaction : Except Exc (DB × α)) (answer : Except Exc α)
    (db' : DB) : Prop :=
  match transaction with
  | .ok (committed, value) => answer = .ok value ∧ db' = committed
  | .error e => answer = .error e ∧ db' = db

/-- What a call may answer and do to the database. Clock readings and fresh ids are arbitrary; so
are the answers of the model and the approval callback, and the results of the tools. -/
def Op.step (policy : PolicyEngine) (redact : Json → Json) (db : DB) :
    (op : Op) → op.Res → DB → Prop
  | .ensureTenant tenantId name settings, _, db' =>
      ∃ now, db' = db.ensureTenant tenantId name settings now
  | .insertRun run, inserted, db' => ∃ now, (db', inserted) = db.insertRun run now
  | .loadRun tenantId runId, answer, db' => answer = db.loadRun tenantId runId ∧ db' = db
  | .loadRunByKey tenantId key, answer, db' => answer = db.loadRunByKey tenantId key ∧ db' = db
  | .checkpoint run events, answer, db' =>
      ∃ now, Commits db ((·, ()) <$> db.checkpoint redact run events now) answer db'
  | .cancelRun tenantId runId, answer, db' =>
      ∃ now, Commits db (db.cancelRun tenantId runId now) answer db'
  | .getEffect tenantId key, answer, db' => answer = db.getEffect tenantId key ∧ db' = db
  | .recordEffect tenantId key runId stepId tool result, _, db' =>
      ∃ now, db' = db.recordEffect tenantId key runId (some stepId) tool result now
  | .createApproval tenantId runId stepId approvers, answer, db' =>
      ∃ approvalId now, Commits db
        ((·, approvalId) <$> db.createApproval tenantId runId stepId approvers approvalId now)
        answer db'
  | .resolveApproval tenantId approvalId approved decidedBy note, answer, db' =>
      ∃ now, Commits db
        ((·, ()) <$> db.resolveApproval tenantId approvalId approved decidedBy note now) answer db'
  | .latestApproval tenantId runId stepId, answer, db' =>
      answer = db.latestApproval tenantId runId stepId ∧ db' = db
  | .policyCheck agent tool args context, decision, db' =>
      decision = policy.check agent tool args context ∧ db' = db
  | .execute .., answer, db' => (∀ e, answer = .error e → e.ofExecute = true) ∧ db' = db
  | .allowRequest _, _, db' | .stepSpan _, _, db' | .respond .., _, db' | .approvalFn .., _, db' => db' = db

/-- A driver's memory: its copy of the run, and the engine's event buffer. -/
structure Mem where
  run : Run
  buffer : List Event

/-- A driver's call, with the driver's memory at that moment. -/
abbrev Call : Type := Site Op Mem

abbrev Call.Res (call : Call) : Type := call.op.Res

abbrev Call.step (policy : PolicyEngine) (redact : Json → Json) (db : DB) (call : Call)
    (answer : call.Res) (db' : DB) : Prop :=
  call.op.step policy redact db answer db'

/-- What a driver has done: its calls, each with the memory it was made from and the answer. -/
abbrev Trail : Type := List (Prog.Event Call Call.Res)

/-- The code of a driver: it may raise, and what it changed in memory before raising stays. -/
abbrev EngineM : Type → Type := Act Op Op.Res Mem Exc

/-- A program over drivers' calls. -/
abbrev Driver (α : Type) : Type := Prog Call Call.Res α

namespace EngineM

abbrev perform (op : Op) : EngineM op.Res := Act.perform op

def modifyRun (f : Run → Run) : EngineM Unit := modify fun m => { m with run := f m.run }

def getRun : EngineM Run := do return (← get).run

/-- `WorkflowEngine.emit`: append to the buffer of the current step. -/
def emit (type : String) (payload : Json) (stepId : Option String := none) (costUsd : ℚ := 0)
    (actor : String := "system") : EngineM Unit :=
  modify fun m => { m with
    buffer := m.buffer ++ [⟨m.run.id, m.run.tenantId, type, payload, stepId, actor, costUsd⟩] }

/-- `WorkflowEngine._checkpoint`: the buffer is emptied only if the store accepted it. -/
def checkpoint : EngineM Unit := do
  let m ← get
  let answer ← perform (.checkpoint m.run m.buffer)
  Act.ofExcept answer
  modify fun m => { m with buffer := [] }

section Wp

variable {σ α : Type} {S : Spec Call Call.Res σ} {E : Exc → Mem → σ → Prop} {m : Mem} {s : σ}

@[simp] theorem wp_getRun {Q : Run → Mem → σ → Prop} :
    Act.wp S getRun Q E m s ↔ Q m.run m s := Iff.rfl

@[simp] theorem wp_modifyRun {Q : Unit → Mem → σ → Prop} (f : Run → Run) :
    Act.wp S (modifyRun f) Q E m s ↔ Q () { m with run := f m.run } s := Iff.rfl

@[simp] theorem wp_emit {Q : Unit → Mem → σ → Prop} (type : String) (payload : Json)
    (stepId : Option String) (costUsd : ℚ) (actor : String) :
    Act.wp S (emit type payload stepId costUsd actor) Q E m s ↔
      Q () { m with
        buffer := m.buffer ++ [⟨m.run.id, m.run.tenantId, type, payload, stepId, actor, costUsd⟩] }
        s := Iff.rfl

theorem wp_getRun_bind {Q : α → Mem → σ → Prop} (f : Run → EngineM α) :
    Act.wp S (getRun >>= f) Q E m s ↔ Act.wp S (f m.run) Q E m s := by
  rw [Act.wp_bind, wp_getRun]

theorem wp_modifyRun_bind {Q : α → Mem → σ → Prop} (f : Run → Run) (x : Unit → EngineM α) :
    Act.wp S (modifyRun f >>= x) Q E m s ↔ Act.wp S (x ()) Q E { m with run := f m.run } s := by
  rw [Act.wp_bind, wp_modifyRun]

theorem wp_emit_bind {Q : α → Mem → σ → Prop} (type : String) (payload : Json)
    (stepId : Option String) (costUsd : ℚ) (actor : String) (x : Unit → EngineM α) :
    Act.wp S (emit type payload stepId costUsd actor >>= x) Q E m s ↔
      Act.wp S (x ()) Q E { m with
        buffer := m.buffer ++ [⟨m.run.id, m.run.tenantId, type, payload, stepId, actor, costUsd⟩] }
        s := by
  rw [Act.wp_bind, wp_emit]

theorem wp_checkpoint {Q : Unit → Mem → σ → Prop} :
    Act.wp S checkpoint Q E m s ↔ ∀ s₁, S.rely s s₁ →
      S.guar s₁ ⟨m, .checkpoint m.run m.buffer⟩ ∧
        ∀ answer s', S.step s₁ ⟨m, .checkpoint m.run m.buffer⟩ answer s' →
          match answer with
          | .ok _ => Q () { m with buffer := [] } s'
          | .error e => E e m s' := by
  unfold checkpoint perform
  simp only [Act.wp_bind, Act.wp_get, Act.wp_perform, Act.wp_ofExcept, Act.wp_modify]
  constructor <;> intro h s₁ hrely <;> refine ⟨(h s₁ hrely).1, fun answer s' hs => ?_⟩ <;>
    have hanswer := (h s₁ hrely).2 answer s' hs <;> cases answer <;> exact hanswer

end Wp

end EngineM

end Bass
