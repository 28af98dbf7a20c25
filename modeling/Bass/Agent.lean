import Bass.Runtime

/-!
# The agent loop

`AgentRuntime` of `agent.py`: call the model; while it asks for tools, gate each call through the
policy engine and execute the allowed ones; stop at a final answer or at the agent's step limit.
-/

namespace Bass

open Interaction EngineM

/-- What an engine is built from; `approvalFn` says whether a synchronous approval callback was
given. -/
structure EngineConfig where
  agents : Dict String Agent
  tools : ToolRegistry
  policy : PolicyEngine
  approvalFn : Bool

/-- `d[key]` on a dictionary whose absent key is `none`. -/
def item {α : Type} (key : String) : Option α → Except Exc α
  | some value => .ok value
  | none => .error (.keyError key)

namespace AgentRuntime

variable (cfg : EngineConfig)

def decisionPayload (tool : String) (decision : Decision) : Json :=
  .obj [("tool", .str tool), ("effect", .str decision.effect.value), ("reason", .str decision.reason)]

/-- Why an agent's call was refused. A mutation is never approved in the middle of the loop. -/
def refusal (decision : Decision) : String :=
  if decision.effect = .deny then decision.reason
  else "requires approval — escalate via a workflow approval step"

def execCall (agent : Agent) (call : ToolCall) : EngineM Json := do
  let name ← Act.ofExcept (item "tool" call.tool)
  let callId := call.id.getD name
  let tool ← Act.ofExcept (cfg.tools.get name)
  let decision ← perform (.policyCheck agent tool call.args (← getRun).context)
  emit "policy_decision" (decisionPayload name decision) none 0 agent.name
  if decision.effect = .allow then
    let answer ← perform (.execute (.agent agent.name) name call.args)
    let result ← Act.ofExcept answer
    modifyRun fun run => { run with costUsd := run.costUsd + tool.costUsd }
    emit "tool_result" (.obj [("tool", .str name), ("result", result)]) none tool.costUsd agent.name
    return .obj [("id", .str callId), ("tool", .str name), ("result", result)]
  else
    let reason := refusal decision
    emit "tool_denied" (.obj [("tool", .str name), ("reason", .str reason)]) none 0 agent.name
    return .obj [("id", .str callId), ("tool", .str name), ("error", .str reason)]

/-- The calls of one response, in order. -/
def execCalls (agent : Agent) : List ToolCall → EngineM (List Json)
  | [] => return []
  | call :: rest => do
      let result ← execCall cfg agent call
      let results ← execCalls agent rest
      return result :: results

/-- The loop of `run` with `n` iterations left. -/
def loop (agent : Agent) (task : Args) : Nat → Scratch → EngineM Json
  | 0, _ => throw (.bass .maxStepsExceeded agent.name)
  | n + 1, scratch => do
      let answer ← perform (.respond agent task scratch)
      let (resp, scratch) ← Act.ofExcept answer
      let cost := resp.costUsd.getD 0
      modifyRun fun run => { run with costUsd := run.costUsd + cost }
      let kind ← Act.ofExcept (item "type" resp.type)
      emit "agent_message" (.obj [("agent", .str agent.name), ("kind", .str kind)]) none cost
        agent.name
      if kind = "tool_calls" then
        let calls ← Act.ofExcept (item "calls" resp.calls)
        let results ← execCalls cfg agent calls
        loop agent task n (Dict.set scratch "tool_results" (.arr results))
      else
        let output ← Act.ofExcept (item "output" resp.output)
        emit "agent_final" (.obj [("agent", .str agent.name), ("output", output)]) none 0 agent.name
        return output

/-- `AgentRuntime.run`. -/
def run (agent : Agent) (task : Args) : EngineM Json :=
  loop cfg agent task agent.maxSteps.toNat Table.empty

end AgentRuntime

end Bass
