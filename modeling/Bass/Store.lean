import Bass.Models

/-!
# The durable store

`store.py`. A database is its five tables; the primary keys and the uniqueness of
`(tenant_id, idempotency_key)` are fields of the state. Each definition below is one transaction:
it reads the clock through `now`, whose `i`-th value is the transaction's `i`-th reading, and it
either returns the new database or raises and leaves the old one. `redact` is what the store applies
to an event payload before writing it.
-/

namespace Bass

structure TenantRow where
  id : String
  name : String
  settings : Json
  createdAt : ℚ

structure RunRow where
  id : String
  tenantId : String
  workflowId : String
  workflowVersion : Int
  triggerJson : Json
  idempotencyKey : String
  status : RunStatus
  cursorStep : Option String
  contextJson : Context
  costUsd : ℚ
  stepsUsed : Nat
  resultJson : Option Json
  startedAt : ℚ
  updatedAt : ℚ

structure EventRow where
  seq : Nat
  runId : String
  tenantId : String
  stepId : Option String
  type : String
  actor : String
  payloadJson : Json
  costUsd : ℚ
  createdAt : ℚ

structure ApprovalRow where
  id : String
  runId : String
  tenantId : String
  stepId : String
  status : ApprovalStatus
  approvers : List String
  decidedBy : Option String
  note : Option String
  requestedAt : ℚ
  decidedAt : Option ℚ

structure EffectRow where
  idempotencyKey : String
  runId : String
  tenantId : String
  stepId : Option String
  tool : String
  resultJson : Json
  createdAt : ℚ

/-- The append-only event table with its autoincrement counter. -/
structure EventLog where
  rows : List EventRow
  last : Nat
  ordered : rows.Pairwise fun a b => a.seq < b.seq
  bounded : ∀ r ∈ rows, r.seq ≤ last

def EventLog.empty : EventLog := ⟨[], 0, List.Pairwise.nil, by simp⟩

/-- Append a row under the next sequence number. -/
def EventLog.append (log : EventLog) (row : Nat → EventRow) (h : ∀ n, (row n).seq = n) :
    EventLog :=
  { rows := log.rows ++ [row (log.last + 1)]
    last := log.last + 1
    ordered := by
      rw [List.pairwise_append]
      refine ⟨log.ordered, List.pairwise_singleton _ _, ?_⟩
      intro r hr r' hr'
      have hle := log.bounded r hr
      rw [List.mem_singleton.mp hr', h]
      omega
    bounded := by
      intro r hr
      rcases List.mem_append.mp hr with hmem | hmem
      · have hle := log.bounded r hmem
        omega
      · rw [List.mem_singleton.mp hmem, h] }

/-- Update rows in place, the sequence number excepted. -/
def EventLog.update (log : EventLog) (p : EventRow → Bool) (f : EventRow → EventRow)
    (hf : ∀ r, (f r).seq = r.seq) : EventLog :=
  { rows := log.rows.map fun r => if p r then f r else r
    last := log.last
    ordered := by
      rw [List.pairwise_map]
      refine log.ordered.imp fun {a b} hlt => ?_
      by_cases ha : p a <;> by_cases hb : p b <;> simpa [ha, hb, hf] using hlt
    bounded := by
      intro r hr
      obtain ⟨r₀, hr₀, rfl⟩ := List.mem_map.mp hr
      have hle := log.bounded r₀ hr₀
      by_cases hp : p r₀ <;> simpa [hp, hf] using hle }

/-- The pair the `runs` table declares unique. -/
def RunRow.triggerKey (row : RunRow) : String × String := (row.tenantId, row.idempotencyKey)

structure DB where
  tenants : Table TenantRow.id
  runs : Table RunRow.id
  runsUnique : (runs.rows.map RunRow.triggerKey).Nodup
  events : EventLog
  approvals : Table ApprovalRow.id
  toolEffects : Table EffectRow.idempotencyKey

namespace DB

def empty : DB :=
  { tenants := Table.empty
    runs := Table.empty
    runsUnique := List.nodup_nil
    events := EventLog.empty
    approvals := Table.empty
    toolEffects := Table.empty }

/-- Update rows of `runs` in place, columns of the two keys excepted. -/
def updateRuns (db : DB) (p : RunRow → Bool) (f : RunRow → RunRow) (hid : ∀ r, (f r).id = r.id)
    (hkey : ∀ r, (f r).triggerKey = r.triggerKey) : DB :=
  { db with
    runs := db.runs.update p f hid
    runsUnique := by
      have hkeys : RunRow.triggerKey ∘ (fun r => if p r then f r else r) = RunRow.triggerKey := by
        funext r
        by_cases hp : p r <;> simp [hp, hkey]
      simpa [Table.update, hkeys] using db.runsUnique }

end DB

/-! ### Rows and runs -/

/-- `json.dumps(result) if result is not None else None`. -/
def dumpResult (result : Json) : Option Json := if result.isNone then none else some result

/-- `json.loads(column) if column else None`. -/
def loadResult (column : Option Json) : Json := column.getD .null

@[simp] theorem loadResult_dumpResult (result : Json) : loadResult (dumpResult result) = result := by
  cases result <;> rfl

/-- `_row_to_run`, the tenant check apart. -/
def RunRow.toRun (row : RunRow) : Run :=
  { tenantId := row.tenantId
    workflowId := row.workflowId
    workflowVersion := row.workflowVersion
    triggerEvent := row.triggerJson
    idempotencyKey := row.idempotencyKey
    status := row.status
    cursorStep := row.cursorStep
    context := row.contextJson
    costUsd := row.costUsd
    stepsUsed := row.stepsUsed
    result := loadResult row.resultJson
    id := row.id }

/-- The row `create_or_get_run` inserts: `result_json` is always `NULL`. -/
def Run.newRow (run : Run) (now : ℕ → ℚ) : RunRow :=
  { id := run.id
    tenantId := run.tenantId
    workflowId := run.workflowId
    workflowVersion := run.workflowVersion
    triggerJson := run.triggerEvent
    idempotencyKey := run.idempotencyKey
    status := run.status
    cursorStep := run.cursorStep
    contextJson := run.context
    costUsd := run.costUsd
    stepsUsed := run.stepsUsed
    resultJson := none
    startedAt := now 0
    updatedAt := now 0 }

/-- The columns a checkpoint overwrites. -/
def Run.writeRow (run : Run) (now : ℚ) (row : RunRow) : RunRow :=
  { row with
    status := run.status
    cursorStep := run.cursorStep
    contextJson := run.context
    costUsd := run.costUsd
    stepsUsed := run.stepsUsed
    resultJson := dumpResult run.result
    updatedAt := now }

@[simp] theorem Run.writeRow_id (run : Run) (now : ℚ) (row : RunRow) :
    (run.writeRow now row).id = row.id := rfl

@[simp] theorem Run.writeRow_tenantId (run : Run) (now : ℚ) (row : RunRow) :
    (run.writeRow now row).tenantId = row.tenantId := rfl

theorem Run.writeRow_triggerKey (run : Run) (now : ℚ) (row : RunRow) :
    (run.writeRow now row).triggerKey = row.triggerKey := rfl

namespace DB

/-! ### Tenants and runs -/

def tenantIsolation (message : String) : Exc := .bass .tenantIsolationError message

/-- `_assert_owns`: a run that exists must belong to the tenant. -/
def assertOwns (db : DB) (tenantId runId : String) : Except Exc Unit :=
  match db.runs.find? runId with
  | some row =>
      if row.tenantId = tenantId then .ok ()
      else .error (tenantIsolation s!"run {runId} belongs to a different tenant")
  | none => .ok ()

def rowToRun (row : RunRow) (tenantId : String) : Except Exc Run :=
  if row.tenantId = tenantId then .ok row.toRun
  else .error (tenantIsolation "run belongs to a different tenant")

def ensureTenant (db : DB) (tenantId name : String) (settings : Json) (now : ℕ → ℚ) : DB :=
  { db with
    tenants := (db.tenants.update (fun row => row.id = tenantId) (fun row => { row with name := name })
      fun _ => rfl).insert ⟨tenantId, name, settings, now 0⟩ }

/-- A row with the run's id or its trigger key is already there. -/
def conflicts (db : DB) (run : Run) : Bool :=
  db.runs.rows.any fun row =>
    row.id = run.id ∨ row.triggerKey = (run.tenantId, run.idempotencyKey)

theorem find?_of_not_conflicts {db : DB} {run : Run} (h : db.conflicts run = false) :
    db.runs.find? run.id = none := by
  rw [Table.find?_eq_none]
  intro row hrow hid
  have := List.any_eq_false.mp h row hrow
  simp [hid] at this

theorem triggerKey_of_not_conflicts {db : DB} {run : Run} (h : db.conflicts run = false) :
    ∀ row ∈ db.runs.rows, row.triggerKey ≠ (run.tenantId, run.idempotencyKey) := by
  intro row hrow hkey
  have := List.any_eq_false.mp h row hrow
  simp [hkey] at this

/-- `INSERT OR IGNORE INTO runs`; the answer is whether the row was inserted. -/
def insertRun (db : DB) (run : Run) (now : ℕ → ℚ) : DB × Bool :=
  if h : db.conflicts run = false then
    ({ db with
       runs := db.runs.insert (run.newRow now)
       runsUnique := by
         rw [Table.insert_of_none (find?_of_not_conflicts h), List.map_append, List.nodup_append]
         refine ⟨db.runsUnique, by simp, ?_⟩
         intro k hk k' hk' heq
         obtain ⟨row, hrow, rfl⟩ := List.mem_map.mp hk
         rw [List.map_singleton, List.mem_singleton] at hk'
         exact triggerKey_of_not_conflicts h row hrow (heq.trans hk') }, true)
  else (db, false)

def loadRun (db : DB) (tenantId runId : String) : Except Exc (Option Run) :=
  match db.runs.find? runId with
  | some row => some <$> rowToRun row tenantId
  | none => .ok none

/-- `_load_run_by_key`. -/
def loadRunByKey (db : DB) (tenantId key : String) : Except Exc (Option Run) :=
  match db.runs.rows.find? (fun row => row.triggerKey = (tenantId, key)) with
  | some row => some <$> rowToRun row tenantId
  | none => .ok none

/-- `ORDER BY started_at DESC LIMIT limit` over the rows of a tenant, which come from the index on the keys, so
that ties are in its order; a negative limit is none. -/
def newestFirst (rows : List RunRow) (limit : Int) : List RunRow :=
  let indexed := rows.mergeSort fun a b => decide (a.idempotencyKey ≤ b.idempotencyKey)
  let sorted := indexed.mergeSort fun a b => decide (b.startedAt ≤ a.startedAt)
  if limit < 0 then sorted else sorted.take limit.toNat

def listRuns (db : DB) (tenantId : String) (limit : Int) (status : Option String) :
    Except Exc (List Run) :=
  (newestFirst (db.runs.rows.filter fun row =>
    row.tenantId = tenantId ∧ status.all fun value => value = "" ∨ row.status.value = value)
      limit).mapM
      fun row => rowToRun row tenantId

/-! ### Checkpoints and events -/

def Event.row (redact : Json → Json) (ev : Event) (now : ℚ) (seq : Nat) : EventRow :=
  { seq := seq
    runId := ev.runId
    tenantId := ev.tenantId
    stepId := ev.stepId
    type := ev.type
    actor := ev.actor
    payloadJson := redact ev.payload
    costUsd := ev.costUsd
    createdAt := now }

/-- The loop over a checkpoint's events, which stops at the first foreign tenant. -/
def appendEvents (redact : Json → Json) (tenantId : String) :
    List Event → (ℕ → ℚ) → EventLog → Except Exc EventLog
  | [], _, log => .ok log
  | ev :: rest, now, log =>
      if ev.tenantId = tenantId then
        appendEvents redact tenantId rest (fun i => now (i + 1))
          (log.append (Event.row redact ev (now 0)) fun _ => rfl)
      else .error (tenantIsolation "event tenant does not match run tenant")

def checkpoint (redact : Json → Json) (db : DB) (run : Run) (events : List Event) (now : ℕ → ℚ) :
    Except Exc DB := do
  db.assertOwns run.tenantId run.id
  let log ← appendEvents redact run.tenantId events (fun i => now (i + 1)) db.events
  return { db.updateRuns (fun row => row.id = run.id ∧ row.tenantId = run.tenantId)
      (run.writeRow (now 0)) (run.writeRow_id (now 0)) (run.writeRow_triggerKey (now 0)) with
    events := log }

def listEvents (db : DB) (tenantId runId : String) : Except Exc (List EventRow) := do
  db.assertOwns tenantId runId
  return db.events.rows.filter fun row => row.runId = runId ∧ row.tenantId = tenantId

/-- `purge_event_payloads`: the rows whose payload is emptied. -/
def purged (tenantId : String) (before : ℚ) (row : EventRow) : Bool :=
  row.tenantId = tenantId ∧ row.createdAt < before ∧ !row.payloadJson.isEmptyObj

def purgeEventPayloads (db : DB) (tenantId : String) (before : ℚ) : DB × Nat :=
  ({ db with
     events := db.events.update (purged tenantId before)
       (fun row => { row with payloadJson := .obj [] }) fun _ => rfl },
    (db.events.rows.filter (purged tenantId before)).length)

def cancelRun (db : DB) (tenantId runId : String) (now : ℕ → ℚ) : Except Exc (DB × Bool) :=
  match db.runs.find? runId with
  | none => .ok (db, false)
  | some row =>
      if row.tenantId = tenantId then
        if row.status.terminal then .ok (db, false)
        else
          .ok ({ db.updateRuns (fun row => row.id = runId ∧ row.tenantId = tenantId)
                  (fun row => { row with status := .canceled, updatedAt := now 0 })
                  (fun _ => rfl) (fun _ => rfl) with
                events := db.events.append (fun seq =>
                  { seq := seq
                    runId := runId
                    tenantId := tenantId
                    stepId := none
                    type := "run_canceled"
                    actor := "user"
                    payloadJson := .obj []
                    costUsd := 0
                    createdAt := now 1 }) fun _ => rfl }, true)
      else .error (tenantIsolation s!"run {runId} belongs to a different tenant")

/-! ### The side-effect ledger -/

/-- `get_effect`: `None` both when nothing is recorded and when `null` is. -/
def getEffect (db : DB) (tenantId key : String) : Except Exc Json :=
  match db.toolEffects.find? key with
  | none => .ok .null
  | some row =>
      if row.tenantId = tenantId then .ok row.resultJson
      else .error (tenantIsolation "effect belongs to a different tenant")

def recordEffect (db : DB) (tenantId key runId : String) (stepId : Option String) (tool : String)
    (result : Json) (now : ℕ → ℚ) : DB :=
  { db with toolEffects := db.toolEffects.insert ⟨key, runId, tenantId, stepId, tool, result, now 0⟩ }

/-! ### Approvals -/

/-- `create_approval` under the id `new_id` drew; a taken id breaks the primary key. -/
def createApproval (db : DB) (tenantId runId stepId : String) (approvers : List String)
    (approvalId : String) (now : ℕ → ℚ) : Except Exc DB := do
  db.assertOwns tenantId runId
  match db.approvals.find? approvalId with
  | some _ => throw (.python "IntegrityError" "UNIQUE constraint failed: approvals.id")
  | none =>
      return { db with
        approvals := db.approvals.insert
          { id := approvalId
            runId := runId
            tenantId := tenantId
            stepId := stepId
            status := .pending
            approvers := approvers
            decidedBy := none
            note := none
            requestedAt := now 0
            decidedAt := none } }

def resolveApproval (db : DB) (tenantId approvalId : String) (approved : Bool)
    (decidedBy note : String) (now : ℕ → ℚ) : Except Exc DB :=
  match db.approvals.find? approvalId with
  | none => .error (.keyError approvalId)
  | some row =>
      if row.tenantId = tenantId then
        .ok { db with
          approvals := db.approvals.update (fun row => row.id = approvalId)
            (fun row => { row with
              status := if approved then .approved else .rejected
              decidedBy := some decidedBy
              note := some note
              decidedAt := some (now 0) }) fun _ => rfl }
      else .error (tenantIsolation "approval belongs to a different tenant")

/-- `ORDER BY requested_at DESC, rowid DESC LIMIT 1` over rows in insertion order. -/
def latest (rows : List ApprovalRow) : Option ApprovalRow :=
  rows.foldl (fun best row => match best with
    | none => some row
    | some b => if b.requestedAt ≤ row.requestedAt then some row else some b) none

def latestApproval (db : DB) (tenantId runId stepId : String) :
    Option (String × ApprovalStatus) :=
  (latest (db.approvals.rows.filter fun row =>
    row.runId = runId ∧ row.tenantId = tenantId ∧ row.stepId = stepId)).map fun row =>
      (row.id, row.status)

end DB

end Bass
