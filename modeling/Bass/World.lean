import Bass.Runtime

/-!
# Deterministic environments

A `World` fixes what `Op.step` leaves open: the clock, the fresh ids and the answers of the model, the
tools and the approval callback, each a function of what it is asked. `Op.serve` then computes what a
call does.
-/

namespace Bass

open Interaction

structure World where
  now : DB → ℕ → ℚ
  newId : DB → String
  respond : Agent → Args → Scratch → Except Exc (Response × Scratch)
  execute : String → Args → Except Exc Json
  approve : Run → Step → String → Args → Except Exc Bool
  raises : ∀ name args e, execute name args = .error e → e.ofExecute = true

/-- A world at a standstill: the clock reads zero, and the model, every tool and the approval callback
always give the same answer. -/
def World.constant (result : Json) : World :=
  { now := fun _ _ => 0
    newId := fun db => String.ofList (List.replicate db.approvals.rows.length '+')
    respond := fun _ _ _ =>
      .ok ({ type := some "final", output := some result }, Table.empty)
    execute := fun _ _ => .ok result
    approve := fun _ _ _ _ => .ok true
    raises := by simp }

/-- The outcome of a transaction. -/
def commit {α : Type} (db : DB) : Except Exc (DB × α) → Except Exc α × DB
  | .ok (committed, value) => (.ok value, committed)
  | .error e => (.error e, db)

theorem commits_commit {α : Type} (db : DB) (transaction : Except Exc (DB × α)) :
    Commits db transaction (commit db transaction).1 (commit db transaction).2 := by
  cases transaction with
  | ok out => exact ⟨rfl, rfl⟩
  | error e => exact ⟨rfl, rfl⟩

def Op.serve (policy : PolicyEngine) (redact : Json → Json) (world : World) (db : DB) :
    (op : Op) → op.Res × DB
  | .ensureTenant tenantId name settings =>
      ((), db.ensureTenant tenantId name settings (world.now db))
  | .insertRun run => let out := db.insertRun run (world.now db); (out.2, out.1)
  | .loadRun tenantId runId => (db.loadRun tenantId runId, db)
  | .loadRunByKey tenantId key => (db.loadRunByKey tenantId key, db)
  | .checkpoint run events =>
      commit db ((·, ()) <$> db.checkpoint redact run events (world.now db))
  | .cancelRun tenantId runId => commit db (db.cancelRun tenantId runId (world.now db))
  | .getEffect tenantId key => (db.getEffect tenantId key, db)
  | .recordEffect tenantId key runId stepId tool result =>
      ((), db.recordEffect tenantId key runId (some stepId) tool result (world.now db))
  | .createApproval tenantId runId stepId approvers =>
      commit db ((·, world.newId db) <$>
        db.createApproval tenantId runId stepId approvers (world.newId db) (world.now db))
  | .resolveApproval tenantId approvalId approved decidedBy note =>
      commit db ((·, ()) <$>
        db.resolveApproval tenantId approvalId approved decidedBy note (world.now db))
  | .latestApproval tenantId runId stepId => (db.latestApproval tenantId runId stepId, db)
  | .allowRequest _ => (true, db)
  | .stepSpan _ => ((), db)
  | .policyCheck agent tool args context => (policy.check agent tool args context, db)
  | .respond agent task scratch => (world.respond agent task scratch, db)
  | .execute _ tool args => (world.execute tool args, db)
  | .approvalFn run step tool args => (world.approve run step tool args, db)

/-- A deterministic environment does what an environment may do. -/
theorem Op.serve_step (policy : PolicyEngine) (redact : Json → Json) (world : World) (db : DB)
    (op : Op) :
    op.step policy redact db (op.serve policy redact world db).1
      (op.serve policy redact world db).2 := by
  cases op with
  | ensureTenant | insertRun | recordEffect => exact ⟨world.now db, rfl⟩
  | loadRun | loadRunByKey | getEffect | latestApproval | policyCheck => exact ⟨rfl, rfl⟩
  | checkpoint | cancelRun | resolveApproval => exact ⟨world.now db, commits_commit db _⟩
  | createApproval => exact ⟨world.newId db, world.now db, commits_commit db _⟩
  | execute caller tool args => exact ⟨world.raises tool args, rfl⟩
  | allowRequest | stepSpan | respond | approvalFn => rfl

end Bass
