import Bass.Ruleset
import Bass.Tools

/-!
# The reference workflow

Invoice triage, as `example_run.py` assembles it: an agent reads the invoice, a tool step looks the vendor
up, and a tool step posts the entry, which the reference ruleset gates on the amount.
-/

namespace Bass

/-! ### Reading the context -/

/-- `value[name]`. -/
def Json.item (value : Json) (name : String) : Except Exc Json :=
  match value with
  | .obj fields => Bass.item name (fields.lookup name)
  | .arr _ => .error (.python "TypeError" "list indices must be integers or slices, not str")
  | .str _ => .error (.python "TypeError" "string indices must be integers, not 'str'")
  | value => .error (.python "TypeError" s!"'{value.typeName}' object is not subscriptable")

/-- `value > 5000`. -/
def Json.exceeds5000 : Json → Except Exc Bool
  | .bool _ => .ok false
  | .int value => .ok (5000 < value)
  | .float value => .ok (value.exceeds 5000)
  | value => .error
      (.python "TypeError" s!"'>' not supported between instances of '{value.typeName}' and 'int'")

namespace ExampleRun

/-- `ctx["extract"][name]`. -/
def extracted (name : String) (context : Context) : Except Exc Json := do
  let output ← Bass.item "extract" (context.get? "extract")
  output.item name

def extract : Step :=
  { id := "extract"
    nodeType := .agent
    agent := some "invoice_extractor"
    next := some "validate" }

def validate : Step :=
  { id := "validate"
    nodeType := .tool
    tool := some "lookup_vendor"
    args := Dict.ofList [("vendor", .fn (extracted "vendor"))]
    next := some "decide" }

def decide : Step :=
  { id := "decide"
    nodeType := .branch
    branches := [(some fun context => do (← extracted "amount" context).exceeds5000, "post"), (none, "post")] }

def post : Step :=
  { id := "post"
    nodeType := .tool
    tool := some "create_ap_entry"
    args := Dict.ofList [("vendor", .fn (extracted "vendor")),
      ("invoice_number", .fn (extracted "invoice_number")), ("amount", .fn (extracted "amount"))] }

def buildWorkflow : Workflow :=
  { id := "wf_invoice_triage"
    name := "invoice-triage"
    steps := Dict.ofList [("extract", extract), ("validate", validate), ("decide", decide), ("post", post)]
    start := "extract"
    budgetUsd := 1 / 2
    maxSteps := 25 }

def buildAgents : Dict String Agent :=
  Dict.ofList [("invoice_extractor",
    { name := "invoice_extractor"
      role := "Extract structured data from vendor invoices."
      instructions := "Return vendor, invoice_number, amount, currency. Never guess."
      tools := ["lookup_vendor"] })]

end ExampleRun

/-! ### The service -/

/-- `ApiService.register_workflow`. -/
def Deployment.registerWorkflow (d : Deployment) (wf : Workflow) : Deployment :=
  { d with
    workflowsById := Dict.set d.workflowsById wf.id wf
    workflowsByName := Dict.set d.workflowsByName wf.name wf }

/-- What `build_default_app` serves with a registry. -/
def referenceApp (rules : TextRules) (builtins : Builtins) (tools : ToolRegistry) : Deployment :=
  Deployment.registerWorkflow
    { engine :=
        { agents := ExampleRun.buildAgents
          tools := tools
          policy := .ofPolicies (defaultPolicies rules)
          approvalFn := false }
      builtins := builtins
      workflowsById := Table.empty
      workflowsByName := Table.empty } ExampleRun.buildWorkflow

def buildDefaultApp (rules : TextRules) (builtins : Builtins) : Except Exc Deployment :=
  referenceApp rules builtins <$> defaultRegistry

end Bass
