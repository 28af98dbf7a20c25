import Bass.Runtime

/-!
# The store interface

The operations of the `Store` protocol as any caller may use them, with arguments of any kind. The
engine itself goes through `Op`; both are made of the same transactions.
-/

namespace Bass

inductive StoreOp where
  | ensureTenant (tenantId name : String) (settings : Json)
  | createOrGetRun (run : Run)
  | loadRun (tenantId runId : String)
  | listRuns (tenantId : String) (limit : Int) (status : Option String)
  | checkpoint (run : Run) (events : List Event)
  | listEvents (tenantId runId : String)
  | getEffect (tenantId key : String)
  | recordEffect (tenantId key runId : String) (stepId : Option String) (tool : String)
      (result : Json)
  | createApproval (tenantId runId stepId : String) (approvers : List String)
  | resolveApproval (tenantId approvalId : String) (approved : Bool) (decidedBy note : String)
  | latestApproval (tenantId runId stepId : String)
  | cancelRun (tenantId runId : String)
  | purgeEventPayloads (tenantId : String) (before : ℚ)
  | ping

namespace StoreOp

abbrev Res : StoreOp → Type
  | ensureTenant .. => Unit
  | createOrGetRun _ => Except Exc (Run × Bool)
  | loadRun .. => Except Exc (Option Run)
  | listRuns .. => Except Exc (List Run)
  | checkpoint .. => Except Exc Unit
  | listEvents .. => Except Exc (List EventRow)
  | getEffect .. => Except Exc Json
  | recordEffect .. => Unit
  | createApproval .. => Except Exc String
  | resolveApproval .. => Except Exc Unit
  | latestApproval .. => Option (String × ApprovalStatus)
  | cancelRun .. => Except Exc Bool
  | purgeEventPayloads .. => Nat
  | ping => Bool

/-- The tenant an operation is called for. -/
def tenant : StoreOp → Option String
  | ensureTenant tenantId .. | loadRun tenantId _ | listRuns tenantId .. | listEvents tenantId _
  | getEffect tenantId _ | recordEffect tenantId .. | createApproval tenantId ..
  | resolveApproval tenantId .. | latestApproval tenantId .. | cancelRun tenantId _
  | purgeEventPayloads tenantId _ => some tenantId
  | createOrGetRun run => some run.tenantId
  | checkpoint run _ => some run.tenantId
  | ping => none

/-- What `create_or_get_run` returns once the insertion has been tried. -/
def createdOrExisting (run : Run) (db : DB) (inserted : Bool) : Except Exc (Run × Bool) :=
  if inserted then .ok (run, true)
  else match db.loadRunByKey run.tenantId run.idempotencyKey with
    | .ok (some existing) => .ok (existing, false)
    | .ok none => .error (.assertionError "")
    | .error e => .error e

/-- What an operation may answer and do; clock readings and fresh ids are arbitrary. -/
def step (redact : Json → Json) (db : DB) : (op : StoreOp) → op.Res → DB → Prop
  | ensureTenant tenantId name settings, _, db' =>
      ∃ now, db' = db.ensureTenant tenantId name settings now
  | createOrGetRun run, answer, db' =>
      ∃ now, db' = (db.insertRun run now).1 ∧
        answer = createdOrExisting run db' (db.insertRun run now).2
  | loadRun tenantId runId, answer, db' => answer = db.loadRun tenantId runId ∧ db' = db
  | listRuns tenantId limit status, answer, db' =>
      answer = db.listRuns tenantId limit status ∧ db' = db
  | checkpoint run events, answer, db' =>
      ∃ now, Commits db ((·, ()) <$> db.checkpoint redact run events now) answer db'
  | listEvents tenantId runId, answer, db' => answer = db.listEvents tenantId runId ∧ db' = db
  | getEffect tenantId key, answer, db' => answer = db.getEffect tenantId key ∧ db' = db
  | recordEffect tenantId key runId stepId tool result, _, db' =>
      ∃ now, db' = db.recordEffect tenantId key runId stepId tool result now
  | createApproval tenantId runId stepId approvers, answer, db' =>
      ∃ approvalId now, Commits db
        ((·, approvalId) <$> db.createApproval tenantId runId stepId approvers approvalId now)
        answer db'
  | resolveApproval tenantId approvalId approved decidedBy note, answer, db' =>
      ∃ now, Commits db
        ((·, ()) <$> db.resolveApproval tenantId approvalId approved decidedBy note now) answer db'
  | latestApproval tenantId runId stepId, answer, db' =>
      answer = db.latestApproval tenantId runId stepId ∧ db' = db
  | cancelRun tenantId runId, answer, db' =>
      ∃ now, Commits db (db.cancelRun tenantId runId now) answer db'
  | purgeEventPayloads tenantId before, answer, db' =>
      (db', answer) = db.purgeEventPayloads tenantId before
  | ping, _, db' => db' = db

/-- Sequences of operations with their answers. -/
inductive Sequence (redact : Json → Json) : DB → List ((op : StoreOp) × op.Res) → DB → Prop where
  | nil (db : DB) : Sequence redact db [] db
  | cons {db db₁ db' : DB} {op : StoreOp} {answer : op.Res} {rest : List ((op : StoreOp) × op.Res)}
      (head : op.step redact db answer db₁) (tail : Sequence redact db₁ rest db') :
      Sequence redact db (⟨op, answer⟩ :: rest) db'

end StoreOp

end Bass
