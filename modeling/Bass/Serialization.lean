import Bass.Redaction
import Bass.Store

/-!
# Transactions and what they serialise

`checkpoint` as `SQLiteStore` executes it: the statements run one after another on the open
transaction, a payload is dumped when its row is inserted, and an exception anywhere rolls the
transaction back. Payloads are Python values, some of which `json.dumps` refuses.
-/

namespace Bass

open Redaction

/-- A Python value: what JSON knows, with tuples among the lists, and any other object by its class. -/
inductive PyValue where
  | null
  | bool (value : Bool)
  | int (value : Int)
  | float (value : PyFloat)
  | str (value : String)
  | arr (items : List PyValue)
  | obj (fields : List (String × PyValue))
  | other (cls : String)

namespace PyValue

mutual

/-- `json.dumps`, the value standing for its text. -/
def dumps : PyValue → Except Exc Json
  | .null => .ok .null
  | .bool value => .ok (.bool value)
  | .int value => .ok (.int value)
  | .float value => .ok (.float value)
  | .str value => .ok (.str value)
  | .arr items => .arr <$> dumpItems items
  | .obj fields => .obj <$> dumpFields fields
  | .other cls => .error (.python "TypeError" s!"Object of type {cls} is not JSON serializable")

def dumpItems : List PyValue → Except Exc (List Json)
  | [] => .ok []
  | value :: rest => do return (← dumps value) :: (← dumpItems rest)

def dumpFields : List (String × PyValue) → Except Exc (List (String × Json))
  | [] => .ok []
  | (key, value) :: rest => do return (key, ← dumps value) :: (← dumpFields rest)

end

variable (classes : CharClasses)

mutual

/-- `redact`. -/
def redact : PyValue → PyValue
  | .obj fields => .obj (redactFields fields)
  | .arr items => .arr (redactItems items)
  | .str value => .str (scrubStr classes value)
  | value => value

def redactItems : List PyValue → List PyValue
  | [] => []
  | value :: rest => redact value :: redactItems rest

def redactFields : List (String × PyValue) → List (String × PyValue)
  | [] => []
  | (key, value) :: rest =>
      (key, if isSecretKey key then .str redacted else redact value) :: redactFields rest

end

mutual

/-- The Python value that `json.loads` returns for a text. -/
def ofJson : Json → PyValue
  | .null => .null
  | .bool value => .bool value
  | .int value => .int value
  | .float value => .float value
  | .str value => .str value
  | .arr items => .arr (ofItems items)
  | .obj fields => .obj (ofFields fields)

def ofItems : List Json → List PyValue
  | [] => []
  | value :: rest => ofJson value :: ofItems rest

def ofFields : List (String × Json) → List (String × PyValue)
  | [] => []
  | (key, value) :: rest => (key, ofJson value) :: ofFields rest

end

mutual

/-- A JSON value is redacted and dumped as the JSON value it is. -/
theorem dumps_redact_ofJson (v : Json) :
    ((ofJson v).redact classes).dumps = .ok (Redaction.redact classes v) := by
  cases v with
  | arr items =>
      simp only [ofJson, redact, dumps, Redaction.redact, dumpItems_redactItems_ofItems items]
      rfl
  | obj fields =>
      simp only [ofJson, redact, dumps, Redaction.redact, dumpFields_redactFields_ofFields fields]
      rfl
  | _ => rfl

theorem dumpItems_redactItems_ofItems (items : List Json) :
    dumpItems (redactItems classes (ofItems items)) = .ok (Redaction.redactItems classes items) := by
  cases items with
  | nil => rfl
  | cons value rest =>
      simp only [ofItems, redactItems, dumpItems, Redaction.redactItems, dumps_redact_ofJson value,
        dumpItems_redactItems_ofItems rest]
      rfl

theorem dumpFields_redactFields_ofFields (fields : List (String × Json)) :
    dumpFields (redactFields classes (ofFields fields)) =
      .ok (Redaction.redactFields classes fields) := by
  cases fields with
  | nil => rfl
  | cons field rest =>
      obtain ⟨key, value⟩ := field
      simp only [ofFields, redactFields, dumpFields, Redaction.redactFields,
        dumpFields_redactFields_ofFields rest]
      by_cases hkey : isSecretKey key = true
      · simp only [if_pos hkey]
        rfl
      · simp only [if_neg hkey, dumps_redact_ofJson value]
        rfl

end

end PyValue

/-- An event as the engine buffers it. -/
structure PyEvent where
  runId : String
  tenantId : String
  type : String
  payload : PyValue
  stepId : Option String := none
  actor : String := "system"
  costUsd : ℚ := 0

def Event.toPy (ev : Event) : PyEvent :=
  { runId := ev.runId
    tenantId := ev.tenantId
    type := ev.type
    payload := .ofJson ev.payload
    stepId := ev.stepId
    actor := ev.actor
    costUsd := ev.costUsd }

/-- The row an event is inserted as. -/
def PyEvent.row (ev : PyEvent) (payload : Json) (now : ℚ) (seq : Nat) : EventRow :=
  { seq := seq
    runId := ev.runId
    tenantId := ev.tenantId
    stepId := ev.stepId
    type := ev.type
    actor := ev.actor
    payloadJson := payload
    costUsd := ev.costUsd
    createdAt := now }

/-! ### Transactions -/

/-- Statements on an open transaction; one that raises leaves the changes before it in place. -/
abbrev Statements (α : Type) : Type := ExceptT Exc (StateM DB) α

/-- `with self._conn`: commit, or roll back to where the transaction started. -/
def transaction {α : Type} (statements : Statements α) (db : DB) : Except Exc α × DB :=
  match statements.run.run db with
  | (.ok value, changed) => (.ok value, changed)
  | (.error e, _) => (.error e, db)

namespace Statements

/-- `_assert_owns`. -/
def assertOwns (tenantId runId : String) : Statements Unit := do
  match (← get).assertOwns tenantId runId with
  | .ok _ => return
  | .error e => throw e

/-- The `UPDATE` of a checkpoint. -/
def updateRun (run : Run) (now : ℚ) : Statements Unit :=
  modify fun db => db.updateRuns (fun row => row.id = run.id ∧ row.tenantId = run.tenantId)
    (run.writeRow now) (run.writeRow_id now) (run.writeRow_triggerKey now)

variable (classes : CharClasses)

/-- One turn of the loop: the tenant check, the dump of the redacted payload and the `INSERT`. -/
def insertEvent (tenantId : String) (ev : PyEvent) (now : ℚ) : Statements Unit := do
  if ev.tenantId = tenantId then
    match (ev.payload.redact classes).dumps with
    | .ok payload =>
        modify fun db => { db with
          events := db.events.append (ev.row payload now) fun _ => rfl }
    | .error e => throw e
  else throw (DB.tenantIsolation "event tenant does not match run tenant")

def insertEvents (tenantId : String) : List PyEvent → (ℕ → ℚ) → Statements Unit
  | [], _ => return
  | ev :: rest, now => do
      insertEvent classes tenantId ev (now 0)
      insertEvents tenantId rest fun i => now (i + 1)

/-- The body of `checkpoint`. -/
def checkpoint (run : Run) (events : List PyEvent) (now : ℕ → ℚ) : Statements Unit := do
  assertOwns run.tenantId run.id
  updateRun run (now 0)
  insertEvents classes run.tenantId events fun i => now (i + 1)

end Statements

end Bass
