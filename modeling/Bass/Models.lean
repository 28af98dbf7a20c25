import Bass.Data.Table
import Mathlib.Data.Rat.Defs

/-!
# Values, errors and domain types

`models.py` and `errors.py`. Values that cross the storage boundary are JSON values; `None` and JSON
`null` are one value, as they are for `json.dumps` and `json.loads`. Costs are exact rationals.
-/

namespace Bass

/-- The values of `float`. `finite` has no sign of zero, so `-0.0` is a value of its own. -/
inductive PyFloat where
  | finite (value : ℚ)
  | negZero
  | posInf
  | negInf
  | nan

inductive Json where
  | null
  | bool (value : Bool)
  | int (value : Int)
  | float (value : PyFloat)
  | str (value : String)
  | arr (items : List Json)
  | obj (fields : List (String × Json))

/-- `value is None`. -/
def Json.isNone : Json → Bool
  | .null => true
  | _ => false

theorem Json.isNone_iff {v : Json} : v.isNone = true ↔ v = .null := by
  cases v <;> simp [isNone]

/-- The value whose text is `{}`. -/
def Json.isEmptyObj : Json → Bool
  | .obj [] => true
  | _ => false

/-! ### Errors -/

/-- The classes of `errors.py`, with `Transient` of `connectors.py` and `AuthError` of `auth.py`. -/
inductive ErrorClass where
  | bassError
  | configError
  | policyDenied
  | budgetExceeded
  | rateLimited
  | approvalRequired
  | connectorError
  | circuitOpen
  | transient
  | toolError
  | tenantIsolationError
  | maxStepsExceeded
  | workflowError
  | authError
  deriving DecidableEq

/-- `isinstance(exc, ConnectorError)`. -/
def ErrorClass.isConnectorError : ErrorClass → Bool
  | .connectorError | .circuitOpen | .transient => true
  | _ => false

/-- A raised exception: one of the platform's, the engine's internal `_Paused` signal, or any other
Python exception by its class name. -/
inductive Exc where
  | bass (cls : ErrorClass) (message : String)
  | paused (approvalId : String)
  | python (cls : String) (message : String)

namespace Exc

/-- `str(exc)`. -/
def str : Exc → String
  | .bass _ message => message
  | .paused approvalId => approvalId
  | .python _ message => message

def isBassError : Exc → Bool
  | .bass _ _ => true
  | _ => false

def isConnectorError : Exc → Bool
  | .bass cls _ => cls.isConnectorError
  | _ => false

def isPolicyDenied : Exc → Bool
  | .bass .policyDenied _ => true
  | _ => false

def isPaused : Exc → Bool
  | .paused _ => true
  | _ => false

def assertionError (message : String) : Exc := .python "AssertionError" message

/-- A character in the `repr` of a string; beyond ASCII every character counts as printable. -/
def reprChar (quote c : Char) : List Char :=
  if c = quote ∨ c = '\\' then ['\\', c]
  else if c = '\n' then ['\\', 'n']
  else if c = '\r' then ['\\', 'r']
  else if c = '\t' then ['\\', 't']
  else if c.toNat < 32 ∨ c.toNat = 127 then
    ['\\', 'x', Nat.digitChar (c.toNat / 16), Nat.digitChar (c.toNat % 16)]
  else [c]

/-- `repr` of a string: in single quotes, unless these occur in it and double quotes do not. -/
def reprStr (text : String) : String :=
  let quote := if '\x27' ∈ text.toList ∧ '"' ∉ text.toList then '"' else '\x27'
  String.ofList (quote :: text.toList.flatMap (reprChar quote) ++ [quote])

/-- `KeyError(key)`, whose text is the `repr` of the key. -/
def keyError (key : String) : Exc := .python "KeyError" (reprStr key)

/-- What `ToolRegistry.execute` can raise: `ToolError` for an unknown tool, and what `Connector.run` raises,
which turns whatever else its operation raises into a `ConnectorError`. The built-in errors are those of its
own configuration: no attempt at all, a power that fits into no float, a delay that cannot be slept. -/
def ofExecute : Exc → Bool
  | .bass cls _ => cls == .toolError || cls.isConnectorError
  | .paused _ => false
  | .python cls _ => cls ∈ ["AssertionError", "OverflowError", "ValueError"]

end Exc

/-! ### Statuses -/

inductive RunStatus where
  | pending
  | running
  | waitingApproval
  | succeeded
  | failed
  | canceled
  deriving DecidableEq

def RunStatus.value : RunStatus → String
  | .pending => "pending"
  | .running => "running"
  | .waitingApproval => "waiting_approval"
  | .succeeded => "succeeded"
  | .failed => "failed"
  | .canceled => "canceled"

/-- `status in (SUCCEEDED, FAILED, CANCELED)`. -/
def RunStatus.terminal : RunStatus → Bool
  | .succeeded | .failed | .canceled => true
  | _ => false

inductive PolicyEffect where
  | allow
  | deny
  | requireApproval
  deriving DecidableEq

def PolicyEffect.value : PolicyEffect → String
  | .allow => "allow"
  | .deny => "deny"
  | .requireApproval => "require_approval"

inductive ApprovalStatus where
  | pending
  | approved
  | rejected
  | expired
  deriving DecidableEq

/-! ### Tools and agents -/

abbrev Args : Type := Dict String Json

abbrev Context : Type := Dict String Json

structure Tool where
  name : String
  connector : String
  sideEffect : Bool := false
  costUsd : ℚ := 0

structure Agent where
  name : String
  role : String
  instructions : String
  tools : List String := []
  maxSteps : Int := 8

/-! ### Workflows -/

/-- A step argument: a constant, or a callable of the run's context. -/
inductive ArgValue where
  | const (value : Json)
  | fn (f : Context → Except Exc Json)

inductive NodeType where
  | agent
  | tool
  | branch
  | approval
  | terminate
  | other (name : String)
  deriving DecidableEq

def NodeType.value : NodeType → String
  | .agent => "agent"
  | .tool => "tool"
  | .branch => "branch"
  | .approval => "approval"
  | .terminate => "terminate"
  | .other name => name

structure Step where
  id : String
  nodeType : NodeType
  agent : Option String := none
  tool : Option String := none
  args : Dict String ArgValue := Table.empty
  branches : List (Option (Context → Except Exc Bool) × String) := []
  approvers : List String := []
  maxAttempts : Int := 3
  compensateWith : Option String := none
  next : Option String := none

structure Workflow where
  name : String
  steps : Dict String Step
  start : String
  version : Int := 1
  budgetUsd : ℚ := 1
  maxSteps : Int := 50
  id : String

/-! ### Runtime records -/

def hexDigits : List Char := "0123456789abcdef".toList

/-- The ids that `new_id(kind)` draws: the kind and twelve hexadecimal digits. -/
def NewId (kind id : String) : Prop :=
  ∃ hex : List Char, hex.length = 12 ∧ (∀ c ∈ hex, c ∈ hexDigits) ∧
    id.toList = kind.toList ++ '_' :: hex

structure Event where
  runId : String
  tenantId : String
  type : String
  payload : Json
  stepId : Option String := none
  actor : String := "system"
  costUsd : ℚ := 0

structure Run where
  tenantId : String
  workflowId : String
  workflowVersion : Int
  triggerEvent : Json
  idempotencyKey : String
  status : RunStatus := .pending
  cursorStep : Option String := none
  context : Context := Table.empty
  costUsd : ℚ := 0
  stepsUsed : Nat := 0
  result : Json := .null
  id : String

end Bass
