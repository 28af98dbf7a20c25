import Bass.Services

/-!
# The reference tools

The accounting system of `tools.py` with the registry that exposes it, and the offline model. The system
files an entry under the idempotency key it is sent, and answers every later call with that key by the
entry it has.
-/

namespace Bass

/-- `type(value).__name__`. -/
def Json.typeName : Json → String
  | .null => "NoneType"
  | .bool _ => "bool"
  | .int _ => "int"
  | .float _ => "float"
  | .str _ => "str"
  | .arr _ => "list"
  | .obj _ => "dict"

/-- `a or b`. -/
def Json.or (a b : Json) : Json := if a.truthy then a else b

/-- `args.get(name)`. -/
def Args.field (args : Args) (name : String) : Json := (args.get? name).getD .null

/-! ### Dictionary keys -/

/-- What a dictionary compares of a key; equal numbers are one key, whatever their types. -/
inductive DictKey where
  | none
  | text (value : String)
  | number (value : ℚ)
  | posInf
  | negInf
  | nan
  deriving DecidableEq

/-- The key of a value that can be hashed. -/
def Json.dictKey : Json → Except Exc DictKey
  | .null => .ok .none
  | .bool value => .ok (.number (if value then 1 else 0))
  | .int value => .ok (.number value)
  | .float (.finite value) => .ok (.number value)
  | .float .negZero => .ok (.number 0)
  | .float .posInf => .ok .posInf
  | .float .negInf => .ok .negInf
  | .float .nan => .ok .nan
  | .str value => .ok (.text value)
  | value => .error (.python "TypeError" s!"unhashable type: '{value.typeName}'")

/-! ### The accounting system -/

structure Vendor where
  id : String
  currency : String

def knownVendors : Dict String Vendor :=
  Dict.ofList [("Globex Corp", ⟨"V-100", "USD"⟩), ("Initech", ⟨"V-200", "USD"⟩)]

/-- `_AccountingSystem`: the entries under their keys. -/
structure AccountingSystem where
  entries : Dict DictKey Json

namespace AccountingSystem

def empty : AccountingSystem := ⟨Table.empty⟩

def lookupVendor (args : Args) : Json :=
  let vendor := args.field "vendor"
  let known := match vendor with
    | .str name => knownVendors.get? name
    | _ => none
  .obj [("vendor", vendor), ("id", known.elim .null fun v => .str v.id), ("known", .bool known.isSome)]

/-- What an entry is filed under: the idempotency key, or the number of the invoice. -/
def entryKey (args : Args) : Json :=
  ((args.field "_idempotency_key").or (args.field "invoice_number")).or (.str "")

def newEntry (args : Args) : Json :=
  .obj [("vendor", args.field "vendor"), ("invoice_number", args.field "invoice_number"),
    ("amount", args.field "amount"), ("status", .str "posted")]

variable (acct : AccountingSystem)

def createApEntry (args : Args) : Except Exc Json × AccountingSystem :=
  match (entryKey args).dictKey with
  | .error e => (.error e, acct)
  | .ok key =>
      match acct.entries.get? key with
      | some entry => (.ok entry, acct)
      | none => (.ok (newEntry args), ⟨Dict.set acct.entries key (newEntry args)⟩)

def count : Nat := acct.entries.rows.length

/-- The operation behind a tool of the registry. -/
def invoke (name : String) (args : Args) : Except Exc Json × AccountingSystem :=
  if name = "create_ap_entry" then acct.createApEntry args
  else if name = "lookup_vendor" then (.ok (lookupVendor args), acct)
  else (.error (.bass .toolError s!"unknown tool: {name}"), acct)

end AccountingSystem

/-! ### The registry -/

def lookupVendorTool : Tool :=
  { name := "lookup_vendor"
    connector := "accounting"
    sideEffect := false }

def createApEntryTool : Tool :=
  { name := "create_ap_entry"
    connector := "accounting"
    sideEffect := true }

def defaultRegistry : Except Exc ToolRegistry := do
  let registry ← (ToolRegistry.empty.registerConnector "accounting").register lookupVendorTool
  registry.register createApEntryTool

/-! ### The offline model -/

namespace MockModel

/-- `value.get(name, default)`, of a value that may be no dictionary. -/
def getOr (value : Json) (name : String) (default : Json) : Except Exc Json :=
  match value with
  | .obj fields => .ok ((fields.lookup name).getD default)
  | value => .error (.python "AttributeError" s!"'{value.typeName}' object has no attribute 'get'")

/-- `MockModel.respond`: the extractor reads the email, everyone else returns the task. -/
def respond (agent : Agent) (task : Args) (scratch : Scratch) : Except Exc (Response × Scratch) := do
  if agent.name = "invoice_extractor" then
    let email := (task.get? "email").getD (.obj [])
    let vendor ← getOr email "vendor" (.str "Globex Corp")
    let number ← getOr email "invoice_number" (.str "INV-4471")
    let amount ← getOr email "amount" (.float (.finite 8200))
    return ({ type := some "final"
              costUsd := some (2 / 1000)
              output := some (.obj [("vendor", vendor), ("invoice_number", number), ("amount", amount),
                ("currency", .str "USD")]) }, scratch)
  else
    return ({ type := some "final"
              costUsd := some (1 / 1000)
              output := some (.obj task.rows) }, scratch)

end MockModel

end Bass
