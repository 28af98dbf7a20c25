import Bass.Interface

/-!
# The PostgreSQL store

`store_postgres.py`, over the same tables as the SQLite store. The clock readings of an operation and the
id it draws are given here, so that the two stores can be asked the same. Where a query leaves the order of
tied rows open, any order may be answered. What the server may refuse is a parameter that its column type
does not hold; the statement, and with it the operation, then raises.
-/

namespace Bass

/-! ### Operations and their outcomes -/

namespace StoreOp

/-- What an operation returns if it does not raise. -/
abbrev Value : StoreOp → Type
  | ensureTenant .. => Unit
  | createOrGetRun _ => Run × Bool
  | loadRun .. => Option Run
  | listRuns .. => List Run
  | checkpoint .. => Unit
  | listEvents .. => List EventRow
  | getEffect .. => Json
  | recordEffect .. => Unit
  | createApproval .. => String
  | resolveApproval .. => Unit
  | latestApproval .. => Option (String × ApprovalStatus)
  | cancelRun .. => Bool
  | purgeEventPayloads .. => Nat
  | ping => Bool

/-- An answer of the SQLite store as an outcome. -/
def outcome : (op : StoreOp) → op.Res → Except Exc op.Value
  | ensureTenant .., answer | recordEffect .., answer | latestApproval .., answer
  | purgeEventPayloads .., answer | ping, answer => .ok answer
  | createOrGetRun _, answer | loadRun .., answer | listRuns .., answer | checkpoint .., answer
  | listEvents .., answer | getEffect .., answer | createApproval .., answer | resolveApproval .., answer
  | cancelRun .., answer => answer

/-- The texts that an operation sends as parameters, those apart that `json.dumps` writes. -/
def texts : StoreOp → List String
  | ensureTenant tenantId name _ => [tenantId, name]
  | createOrGetRun run =>
      [run.id, run.tenantId, run.workflowId, run.idempotencyKey] ++ run.cursorStep.toList
  | loadRun tenantId runId | cancelRun tenantId runId | listEvents tenantId runId => [tenantId, runId]
  | listRuns tenantId _ status => tenantId :: status.toList
  | checkpoint run events =>
      [run.id, run.tenantId] ++ run.cursorStep.toList ++
        events.flatMap fun ev => [ev.runId, ev.tenantId, ev.type, ev.actor] ++ ev.stepId.toList
  | getEffect tenantId key => [tenantId, key]
  | recordEffect tenantId key runId stepId tool _ => [tenantId, key, runId, tool] ++ stepId.toList
  | createApproval tenantId runId stepId _ | latestApproval tenantId runId stepId => [tenantId, runId, stepId]
  | resolveApproval tenantId approvalId _ decidedBy note => [tenantId, approvalId, decidedBy, note]
  | purgeEventPayloads tenantId _ => [tenantId]
  | ping => []

/-- The integers that an operation sends, each with the number of bits that its column or clause holds. -/
def integers : StoreOp → List (Int × ℕ)
  | createOrGetRun run => [(run.workflowVersion, 32), (run.stepsUsed, 32)]
  | checkpoint run _ => [(run.stepsUsed, 32)]
  | listRuns _ limit _ => [(limit, 64)]
  | _ => []

/-- Every parameter is one that its type holds: a text without NUL, an integer within its bits. -/
def Storable (op : StoreOp) : Prop :=
  (∀ text ∈ op.texts, Char.ofNat 0 ∉ text.toList) ∧
    ∀ value ∈ op.integers, -(2 ^ (value.2 - 1) : ℤ) ≤ value.1 ∧ value.1 < 2 ^ (value.2 - 1)

end StoreOp

/-- `listed` are rows of `rows` by `ORDER BY started_at DESC`, ties in any order, and at most `limit` of
them. -/
def NewestFirst (rows : List RunRow) (limit : Option ℕ) (listed : List RunRow) : Prop :=
  ∃ sorted : List RunRow, sorted.Perm rows ∧ (sorted.Pairwise fun a b => b.startedAt ≤ a.startedAt) ∧
    listed = match limit with
      | none => sorted
      | some n => sorted.take n

/-- The rows of `SELECT * FROM runs WHERE tenant_id=... AND status=...`, without the second condition when
there is no status or an empty one. -/
def DB.runsWhere (db : DB) (tenantId : String) (status : Option String) : List RunRow :=
  db.runs.rows.filter fun row =>
    row.tenantId = tenantId ∧ status.all fun value => value = "" ∨ row.status.value = value

/-- The approvals of a step, in the order in which they were created. -/
def DB.approvalsOf (db : DB) (tenantId runId stepId : String) : List ApprovalRow :=
  db.approvals.rows.filter fun row => row.runId = runId ∧ row.tenantId = tenantId ∧ row.stepId = stepId

/-- What the SQLite store may answer and do at these readings of the clock, drawing this id. -/
def SQLiteStore.step (redact : Json → Json) (now : ℕ → ℚ) (drawn : String) (db : DB) :
    (op : StoreOp) → Except Exc op.Value → DB → Prop
  | .ensureTenant tenantId name settings, out, db' =>
      out = .ok () ∧ db' = db.ensureTenant tenantId name settings now
  | .createOrGetRun run, out, db' =>
      db' = (db.insertRun run now).1 ∧ out = StoreOp.createdOrExisting run db' (db.insertRun run now).2
  | .loadRun tenantId runId, out, db' => out = db.loadRun tenantId runId ∧ db' = db
  | .listRuns tenantId limit status, out, db' =>
      (∃ rows, NewestFirst (db.runsWhere tenantId status) (if limit < 0 then none else some limit.toNat) rows ∧
        out = rows.mapM fun row => DB.rowToRun row tenantId) ∧ db' = db
  | .checkpoint run events, out, db' => Commits db ((·, ()) <$> db.checkpoint redact run events now) out db'
  | .listEvents tenantId runId, out, db' => out = db.listEvents tenantId runId ∧ db' = db
  | .getEffect tenantId key, out, db' => out = db.getEffect tenantId key ∧ db' = db
  | .recordEffect tenantId key runId stepId tool result, out, db' =>
      out = .ok () ∧ db' = db.recordEffect tenantId key runId stepId tool result now
  | .createApproval tenantId runId stepId approvers, out, db' =>
      Commits db ((·, drawn) <$> db.createApproval tenantId runId stepId approvers drawn now) out db'
  | .resolveApproval tenantId approvalId approved decidedBy note, out, db' =>
      Commits db ((·, ()) <$> db.resolveApproval tenantId approvalId approved decidedBy note now) out db'
  | .latestApproval tenantId runId stepId, out, db' =>
      out = .ok (db.latestApproval tenantId runId stepId) ∧ db' = db
  | .cancelRun tenantId runId, out, db' => Commits db (db.cancelRun tenantId runId now) out db'
  | .purgeEventPayloads tenantId before, out, db' =>
      out = .ok (db.purgeEventPayloads tenantId before).2 ∧ db' = (db.purgeEventPayloads tenantId before).1
  | .ping, out, db' => out = .ok true ∧ db' = db

/-! ### The operations of `PostgresStore` -/

/-- A sequence keeps the values that were drawn from it when the rows are rolled back. -/
def EventLog.draw (log : EventLog) (n : ℕ) : EventLog :=
  { rows := log.rows
    last := log.last + n
    ordered := log.ordered
    bounded := fun row hrow => (log.bounded row hrow).trans (Nat.le_add_right _ _) }

namespace PostgresStore

def uniqueViolation (message : String) : Exc := .python "UniqueViolation" message

def limitNegative : Exc := .python "InvalidRowCountInLimitClause" "LIMIT must not be negative"

def assertOwns (db : DB) (tenantId runId : String) : Except Exc Unit :=
  match db.runs.find? runId with
  | none => .ok ()
  | some row =>
      if row.tenantId ≠ tenantId then
        .error (DB.tenantIsolation s!"run {runId} belongs to a different tenant")
      else .ok ()

def rowToRun (row : RunRow) (tenantId : String) : Except Exc Run :=
  if row.tenantId ≠ tenantId then .error (DB.tenantIsolation "run belongs to a different tenant")
  else .ok row.toRun

def renamed (name : String) (row : TenantRow) : TenantRow := { row with name := name }

/-- `INSERT INTO tenants ... ON CONFLICT (id) DO UPDATE SET name = EXCLUDED.name`. -/
def ensureTenant (db : DB) (tenantId name : String) (settings : Json) (now : ℕ → ℚ) : DB :=
  match db.tenants.find? tenantId with
  | none => { db with tenants := db.tenants.insert ⟨tenantId, name, settings, now 0⟩ }
  | some _ =>
      { db with
        tenants := db.tenants.update (fun row => row.id = tenantId) (renamed name) fun _ => rfl }

/-- A row has the run's tenant and idempotency key. -/
def keyTaken (db : DB) (run : Run) : Bool :=
  db.runs.rows.any fun row => row.triggerKey = (run.tenantId, run.idempotencyKey)

theorem runsUnique_insert {db : DB} {run : Run} (now : ℕ → ℚ) (hkey : keyTaken db run = false)
    (hid : db.runs.find? run.id = none) :
    ((db.runs.insert (run.newRow now)).rows.map RunRow.triggerKey).Nodup := by
  rw [Table.insert_of_none hid, List.map_append, List.nodup_append]
  refine ⟨db.runsUnique, by simp, ?_⟩
  intro key hmem key' hmem' heq
  obtain ⟨row, hrow, rfl⟩ := List.mem_map.mp hmem
  rw [List.map_singleton, List.mem_singleton] at hmem'
  have hother := List.any_eq_false.mp hkey row hrow
  rw [heq, hmem'] at hother
  simp [Run.newRow, RunRow.triggerKey] at hother

/-- `INSERT INTO runs ... ON CONFLICT (tenant_id, idempotency_key) DO NOTHING`: a taken id is no conflict
of that kind. -/
def insertRun (db : DB) (run : Run) (now : ℕ → ℚ) : Except Exc (DB × Bool) :=
  if hkey : keyTaken db run = false then
    if hid : db.runs.find? run.id = none then
      .ok ({ db with
             runs := db.runs.insert (run.newRow now)
             runsUnique := runsUnique_insert now hkey hid }, true)
    else .error (uniqueViolation "duplicate key value violates unique constraint runs_pkey")
  else .ok (db, false)

def loadRun (db : DB) (tenantId runId : String) : Except Exc (Option Run) :=
  match db.runs.find? runId with
  | none => .ok none
  | some row => some <$> rowToRun row tenantId

/-- `_load_by_key`. -/
def loadByKey (db : DB) (tenantId key : String) : Except Exc (Option Run) :=
  match db.runs.rows.find? (fun row => row.tenantId = tenantId ∧ row.idempotencyKey = key) with
  | none => .ok none
  | some row => some <$> rowToRun row tenantId

def createOrGetRun (db : DB) (run : Run) (now : ℕ → ℚ) : Except Exc (DB × Run × Bool) := do
  let (db', created) ← insertRun db run now
  if created then return (db', run, true)
  else
    match ← loadByKey db' run.tenantId run.idempotencyKey with
    | some existing => return (db', existing, false)
    | none => throw (.assertionError "")

/-- The `UPDATE` of a checkpoint. -/
def saveRun (db : DB) (run : Run) (t : ℚ) : DB :=
  db.updateRuns (fun row => row.id = run.id ∧ row.tenantId = run.tenantId) (run.writeRow t) (run.writeRow_id t)
    (run.writeRow_triggerKey t)

/-- The `INSERT` of an event. -/
def eventRow (redact : Json → Json) (ev : Event) (t : ℚ) (seq : ℕ) : EventRow := DB.Event.row redact ev t seq

theorem eventRow_seq (redact : Json → Json) (ev : Event) (t : ℚ) (seq : ℕ) :
    (eventRow redact ev t seq).seq = seq := rfl

/-- The loop over a checkpoint's events: the number of rows it has inserted, and how it ended. -/
def insertEvents (redact : Json → Json) (tenantId : String) :
    List Event → (ℕ → ℚ) → EventLog → ℕ × Except Exc EventLog
  | [], _, log => (0, .ok log)
  | ev :: rest, now, log =>
      if ev.tenantId ≠ tenantId then
        (0, .error (DB.tenantIsolation "event tenant does not match run tenant"))
      else
        let out := insertEvents redact tenantId rest (fun i => now (i + 1))
          (log.append (eventRow redact ev (now 0)) (eventRow_seq redact ev (now 0)))
        (out.1 + 1, out.2)

def checkpoint (redact : Json → Json) (db : DB) (run : Run) (events : List Event) (now : ℕ → ℚ) :
    Except Exc Unit × DB :=
  match assertOwns db run.tenantId run.id with
  | .error e => (.error e, db)
  | .ok () =>
      match insertEvents redact run.tenantId events (fun i => now (i + 1)) db.events with
      | (_, .ok log) =>
          (.ok (), { saveRun db run (now 0) with events := log })
      | (n, .error e) => (.error e, { db with events := db.events.draw n })

def listEvents (db : DB) (tenantId runId : String) : Except Exc (List EventRow) := do
  assertOwns db tenantId runId
  return db.events.rows.filter fun row => row.runId = runId ∧ row.tenantId = tenantId

def canceled (t : ℚ) (row : RunRow) : RunRow := { row with status := .canceled, updatedAt := t }

def canceledEvent (tenantId runId : String) (t : ℚ) (seq : ℕ) : EventRow :=
  { seq := seq
    runId := runId
    tenantId := tenantId
    stepId := none
    type := "run_canceled"
    actor := "user"
    payloadJson := .obj []
    costUsd := 0
    createdAt := t }

def cancelRun (db : DB) (tenantId runId : String) (now : ℕ → ℚ) : Except Exc (DB × Bool) :=
  match db.runs.rows.find? (fun row => row.id = runId ∧ row.tenantId = tenantId) with
  | none => do
      assertOwns db tenantId runId
      return (db, false)
  | some row =>
      if row.status.terminal then .ok (db, false)
      else
        .ok ({ db.updateRuns (fun row => row.id = runId ∧ row.tenantId = tenantId)
                (canceled (now 0)) (fun _ => rfl) (fun _ => rfl) with
              events := db.events.append (canceledEvent tenantId runId (now 1)) fun _ => rfl }, true)

def getEffect (db : DB) (tenantId key : String) : Except Exc Json :=
  match db.toolEffects.find? key with
  | none => .ok .null
  | some row =>
      if row.tenantId ≠ tenantId then .error (DB.tenantIsolation "effect belongs to a different tenant")
      else .ok row.resultJson

/-- `INSERT INTO tool_effects ... ON CONFLICT (idempotency_key) DO NOTHING`. -/
def recordEffect (db : DB) (tenantId key runId : String) (stepId : Option String) (tool : String)
    (result : Json) (now : ℕ → ℚ) : DB :=
  match db.toolEffects.find? key with
  | some _ => db
  | none =>
      { db with toolEffects := db.toolEffects.insert ⟨key, runId, tenantId, stepId, tool, result, now 0⟩ }

def createApproval (db : DB) (tenantId runId stepId : String) (approvers : List String)
    (approvalId : String) (now : ℕ → ℚ) : Except Exc DB := do
  assertOwns db tenantId runId
  if (db.approvals.find? approvalId).isSome then
    throw (uniqueViolation "duplicate key value violates unique constraint approvals_pkey")
  else
    return { db with
      approvals := db.approvals.insert
        { id := approvalId
          runId := runId
          tenantId := tenantId
          stepId := stepId
          status := .pending
          approvers := approvers
          decidedBy := none
          note := none
          requestedAt := now 0
          decidedAt := none } }

def resolved (approved : Bool) (decidedBy note : String) (t : ℚ) (row : ApprovalRow) : ApprovalRow :=
  { row with
    status := if approved then .approved else .rejected
    decidedBy := some decidedBy
    note := some note
    decidedAt := some t }

def resolveApproval (db : DB) (tenantId approvalId : String) (approved : Bool)
    (decidedBy note : String) (now : ℕ → ℚ) : Except Exc DB :=
  match db.approvals.find? approvalId with
  | none => .error (.keyError approvalId)
  | some row =>
      if row.tenantId ≠ tenantId then
        .error (DB.tenantIsolation "approval belongs to a different tenant")
      else
        .ok { db with
          approvals := db.approvals.update (fun row => row.id = approvalId)
            (resolved approved decidedBy note (now 0)) fun _ => rfl }

def cleared (row : EventRow) : EventRow := { row with payloadJson := .obj [] }

def purgeEventPayloads (db : DB) (tenantId : String) (before : ℚ) : DB × Nat :=
  ({ db with
     events := db.events.update (DB.purged tenantId before) cleared fun _ => rfl },
    db.events.rows.countP (DB.purged tenantId before))

/-- `ORDER BY requested_at DESC LIMIT 1`: any of the rows that were requested last. -/
def Latest (rows : List ApprovalRow) (latest : Option ApprovalRow) : Prop :=
  match latest with
  | none => rows = []
  | some row => row ∈ rows ∧ ∀ other ∈ rows, other.requestedAt ≤ row.requestedAt

/-- What an operation does whose parameters the server takes. -/
def act (redact : Json → Json) (now : ℕ → ℚ) (drawn : String) (db : DB) :
    (op : StoreOp) → Except Exc op.Value → DB → Prop
  | .ensureTenant tenantId name settings, out, db' =>
      out = .ok () ∧ db' = ensureTenant db tenantId name settings now
  | .createOrGetRun run, out, db' => Commits db (createOrGetRun db run now) out db'
  | .loadRun tenantId runId, out, db' => out = loadRun db tenantId runId ∧ db' = db
  | .listRuns tenantId limit status, out, db' =>
      (if limit < 0 then out = .error limitNegative
       else ∃ rows, NewestFirst (db.runsWhere tenantId status) (some limit.toNat) rows ∧
        out = rows.mapM fun row => rowToRun row tenantId) ∧ db' = db
  | .checkpoint run events, out, db' => (out, db') = checkpoint redact db run events now
  | .listEvents tenantId runId, out, db' => out = listEvents db tenantId runId ∧ db' = db
  | .getEffect tenantId key, out, db' => out = getEffect db tenantId key ∧ db' = db
  | .recordEffect tenantId key runId stepId tool result, out, db' =>
      out = .ok () ∧ db' = recordEffect db tenantId key runId stepId tool result now
  | .createApproval tenantId runId stepId approvers, out, db' =>
      Commits db ((·, drawn) <$> createApproval db tenantId runId stepId approvers drawn now) out db'
  | .resolveApproval tenantId approvalId approved decidedBy note, out, db' =>
      Commits db ((·, ()) <$> resolveApproval db tenantId approvalId approved decidedBy note now) out db'
  | .latestApproval tenantId runId stepId, out, db' =>
      (∃ latest, Latest (db.approvalsOf tenantId runId stepId) latest ∧
        out = .ok (latest.map fun row => (row.id, row.status))) ∧ db' = db
  | .cancelRun tenantId runId, out, db' => Commits db (cancelRun db tenantId runId now) out db'
  | .purgeEventPayloads tenantId before, out, db' =>
      out = .ok (purgeEventPayloads db tenantId before).2 ∧ db' = (purgeEventPayloads db tenantId before).1
  | .ping, out, db' => out = .ok true ∧ db' = db

/-- What the PostgreSQL store may answer and do. An operation with a parameter that its type does not hold
may raise, at whichever of its statements; no row is kept then, and the sequence values drawn are gone. -/
def step (redact : Json → Json) (now : ℕ → ℚ) (drawn : String) (db : DB) (op : StoreOp)
    (out : Except Exc op.Value) (db' : DB) : Prop :=
  act redact now drawn db op out db' ∨
    (¬op.Storable ∧ (∃ e, out = .error e) ∧ ∃ n, db' = { db with events := db.events.draw n })

end PostgresStore

end Bass
