import Bass.Models
import Mathlib.Data.List.Sort
import Mathlib.Data.Rat.Floor

/-!
# Policies, budgets and the tool registry

`policy.py`, `budgets.py` and the registry of `tools.py`: the decisions the engine takes without
leaving the process.
-/

namespace Bass

/-! ### The policy gate -/

structure Decision where
  effect : PolicyEffect
  reason : String
  approvers : List String := []

structure Policy where
  name : String
  version : Int
  applies : Agent → Tool → Args → Context → Except Exc Bool
  effect : PolicyEffect
  reason : String
  approvers : List String := []
  priority : Int := 100

/-- The rules in the order they are tried: by priority, and as listed among equal priorities. -/
structure PolicyEngine where
  policies : List Policy
  sorted : policies.Pairwise fun p q => p.priority ≤ q.priority

namespace PolicyEngine

/-- `PolicyEngine.__init__`. -/
def ofPolicies (policies : List Policy) : PolicyEngine :=
  { policies := policies.insertionSort fun p q => p.priority ≤ q.priority
    sorted := by
      have : Std.Total fun p q : Policy => p.priority ≤ q.priority := ⟨fun p q => le_total _ _⟩
      have : IsTrans Policy fun p q => p.priority ≤ q.priority := ⟨fun _ _ _ => le_trans⟩
      exact List.pairwise_insertionSort _ _ }

/-- The decision of the first rule that applies or raises. -/
def firstMatch (agent : Agent) (tool : Tool) (args : Args) (context : Context) :
    List Policy → Option Decision
  | [] => none
  | p :: rest =>
      match p.applies agent tool args context with
      | .error _ => some ⟨.deny, s!"policy '{p.name}' errored during evaluation", []⟩
      | .ok true =>
          some ⟨p.effect, s!"policy '{p.name}' v{p.version}: {p.reason}", p.approvers⟩
      | .ok false => firstMatch agent tool args context rest

def check (engine : PolicyEngine) (agent : Agent) (tool : Tool) (args : Args)
    (context : Context) : Decision :=
  if tool.name ∈ agent.tools then
    match firstMatch agent tool args context engine.policies with
    | some decision => decision
    | none =>
        if tool.sideEffect then
          ⟨.deny, s!"no policy permits mutating tool '{tool.name}' (deny-by-default)", []⟩
        else ⟨.allow, "read-only tool, default allow", []⟩
  else ⟨.deny, s!"'{tool.name}' not in {agent.name}'s allow-list", []⟩

/-- Least privilege: whatever the rules say, a tool off the allow-list is denied. -/
theorem mem_tools_of_check {engine : PolicyEngine} {agent : Agent} {tool : Tool} {args : Args}
    {context : Context} (h : (engine.check agent tool args context).effect ≠ .deny) :
    tool.name ∈ agent.tools := by
  by_contra hmem
  simp [check, hmem] at h

end PolicyEngine

/-! ### Budgets -/

structure Budget where
  maxUsd : ℚ
  maxSteps : Int

/-- Round to the nearest integer, ties to even, as float formatting does. -/
def roundHalfEven (x : ℚ) : Int :=
  let fraction := x - ⌊x⌋
  if fraction < 1 / 2 then ⌊x⌋
  else if 1 / 2 < fraction then ⌊x⌋ + 1
  else if ⌊x⌋ % 2 = 0 then ⌊x⌋
  else ⌊x⌋ + 1

/-- `format(x, ".4f")`. -/
def fixed4 (x : ℚ) : String :=
  let scaled := (roundHalfEven (x * 10000)).natAbs
  let digits := toString (scaled % 10000)
  let padded := String.ofList (List.replicate (4 - digits.length) '0') ++ digits
  (if x < 0 then "-" else "") ++ toString (scaled / 10000) ++ "." ++ padded

/-- `Budget.check`: a violation, or `none` within budget. -/
def Budget.check (budget : Budget) (run : Run) : Option String :=
  if budget.maxUsd < run.costUsd then
    some s!"cost ${fixed4 run.costUsd} exceeds budget ${fixed4 budget.maxUsd}"
  else if budget.maxSteps < run.stepsUsed then
    some s!"steps {run.stepsUsed} exceed budget {budget.maxSteps}"
  else none

theorem Budget.stepsUsed_le_of_check {budget : Budget} {run : Run}
    (h : budget.check run = none) : (run.stepsUsed : Int) ≤ budget.maxSteps := by
  unfold check at h
  split at h
  · simp at h
  · split at h
    · simp at h
    · omega

/-! ### The tool registry -/

/-- Tools under their names. `register` files a tool under its own name, and only once its
connector is there. -/
structure ToolRegistry where
  tools : Dict String Tool
  connectors : List String
  named : ∀ entry ∈ tools.rows, entry.2.name = entry.1
  connected : ∀ entry ∈ tools.rows, entry.2.connector ∈ connectors

namespace ToolRegistry

def get (registry : ToolRegistry) (name : String) : Except Exc Tool :=
  match registry.tools.get? name with
  | some tool => .ok tool
  | none => .error (.bass .toolError s!"unknown tool: {name}")

theorem name_of_get {registry : ToolRegistry} {name : String} {tool : Tool}
    (h : registry.get name = .ok tool) : tool.name = name := by
  unfold get Dict.get? at h
  cases hfind : registry.tools.find? name with
  | none => simp [hfind] at h
  | some entry =>
      simp only [hfind, Option.map_some, Except.ok.injEq] at h
      rw [← h, registry.named entry (Table.mem_of_find? hfind), Table.key_of_find? hfind]

def empty : ToolRegistry :=
  { tools := Table.empty
    connectors := []
    named := by simp [Table.empty]
    connected := by simp [Table.empty] }

def registerConnector (registry : ToolRegistry) (name : String) : ToolRegistry :=
  { registry with
    connectors := name :: registry.connectors
    connected := fun entry h => List.mem_cons_of_mem _ (registry.connected entry h) }

theorem mem_rows_of_set {tools : Dict String Tool} {tool : Tool} {entry : String × Tool}
    (h : entry ∈ (Dict.set tools tool.name tool).rows) :
    entry ∈ tools.rows ∨ entry = (tool.name, tool) := by
  rcases Table.mem_insert h with hmem | heq
  · obtain ⟨old, hold, hentry⟩ := Table.mem_update.mp hmem
    by_cases hname : old.1 = tool.name
    · simp only [hname, decide_true, if_true] at hentry
      exact Or.inr (by rw [← hentry, ← hname])
    · simp only [hname, decide_false, Bool.false_eq_true, if_false] at hentry
      exact Or.inl (hentry ▸ hold)
  · exact Or.inr heq

def register (registry : ToolRegistry) (tool : Tool) : Except Exc ToolRegistry :=
  if h : tool.connector ∈ registry.connectors then
    .ok
      { registry with
        tools := Dict.set registry.tools tool.name tool
        named := by
          intro entry hentry
          rcases mem_rows_of_set hentry with hmem | rfl
          · exact registry.named entry hmem
          · rfl
        connected := by
          intro entry hentry
          rcases mem_rows_of_set hentry with hmem | rfl
          · exact registry.connected entry hmem
          · exact h }
  else
    .error (.bass .toolError s!"tool '{tool.name}' names unknown connector '{tool.connector}'")

end ToolRegistry

end Bass
