import Bass.Agent
import Bass.Services

/-!
# The provider

`AnthropicModel` of `providers.py` as what answers the agent loop's calls of the model. Its conversation is
in the scratch of the loop: the list of messages, and the tool results that the loop has left for it.
-/

namespace Bass

open Interaction

/-- A block of a response. A block has the fields of its type; the others are empty here. -/
structure ContentBlock where
  type : String
  id : String := ""
  name : String := ""
  input : Args := Table.empty
  text : String := ""

/-- What `messages.create` returns. -/
structure ApiMessage where
  content : List ContentBlock
  stopReason : String
  inputTokens : Nat
  outputTokens : Nat

/-- The arguments of `messages.create` that vary. -/
structure ApiRequest where
  model : String
  maxTokens : Int
  system : String
  tools : List Json
  messages : List Json

/-- The fields of agents and tools that only the provider reads, and the JSON texts: `dumps` with and
without an indentation of two, `loads`, and `str`. -/
structure AnthropicModel where
  tools : ToolRegistry
  maxTokens : Int := 4096
  model : Agent → String
  outputSchema : Agent → Option Json
  description : Tool → String
  inputSchema : Tool → Json
  dumps : Json → Except Exc String
  dumpsIndented : Json → Except Exc String
  loads : String → Except Exc Json
  str : Json → String

namespace ContentBlock

def isToolUse (b : ContentBlock) : Bool := b.type = "tool_use"

/-- The block as it is sent back. -/
def json (b : ContentBlock) : Json :=
  .obj [("type", .str b.type), ("id", .str b.id), ("name", .str b.name), ("input", .obj b.input.rows),
    ("text", .str b.text)]

/-- The call that the loop is asked for. -/
def call (b : ContentBlock) : ToolCall := ⟨some b.name, b.input, some b.id⟩

end ContentBlock

/-- The blocks that ask for a tool, in order. -/
def toolUses (content : List ContentBlock) : List ContentBlock := content.filter ContentBlock.isToolUse

namespace AnthropicModel

variable (provider : AnthropicModel)

def message (role : String) (content : Json) : Json := .obj [("role", .str role), ("content", content)]

/-! ### What is sent -/

def taskBlock (task : Args) : Except Exc Json := do
  let text ← provider.dumpsIndented (.obj task.rows)
  return .arr [.obj [("type", .str "text"), ("text", .str ("<task_input>\n" ++ text ++ "\n</task_input>"))]]

def systemPrompt (agent : Agent) : Except Exc String := do
  let schema ← match provider.outputSchema agent with
    | none => pure []
    | some schema => do
        let text ← provider.dumps schema
        pure ["Return ONLY a single JSON object matching this schema, with no prose or code fences:\n" ++ text]
  return "\n\n".intercalate (([agent.role, agent.instructions] ++ schema).filter fun part => part ≠ "")

def toolSchema (name : String) : Except Exc Json := do
  let tool ← provider.tools.get name
  return .obj [("name", .str tool.name), ("description", .str (provider.description tool)),
    ("input_schema", provider.inputSchema tool)]

/-- One of the results that the loop has left. -/
def resultBlock : Json → Except Exc Json
  | .obj fields => do
      let id ← item "id" (fields.lookup "id")
      match fields.lookup "error" with
      | some error =>
          return .obj [("type", .str "tool_result"), ("tool_use_id", id),
            ("content", .str (provider.str error)), ("is_error", .bool true)]
      | none =>
          let result ← item "result" (fields.lookup "result")
          let text ← provider.dumps result
          return .obj [("type", .str "tool_result"), ("tool_use_id", id), ("content", .str text)]
  | _ => .error (.python "TypeError" "string indices must be integers, not 'str'")

def resultBlocks : Json → Except Exc Json
  | .arr results => .arr <$> results.mapM provider.resultBlock
  | _ => .error (.python "TypeError" "object is not iterable")

/-- The conversation so far, a new one if there is none. -/
def conversation (task : Args) (scratch : Scratch) : Except Exc (List Json) :=
  match scratch.get? "messages" with
  | none | some .null => do return [message "user" (← provider.taskBlock task)]
  | some (.arr messages) => .ok messages
  | some _ => .error (.python "AttributeError" "object has no attribute 'append'")

/-- The conversation with the results that are pending. -/
def withPending (messages : List Json) (pending : Json) : Except Exc (List Json) :=
  if pending.truthy then do return messages ++ [message "user" (← provider.resultBlocks pending)]
  else .ok messages

def defaultModel : String := "claude-opus-4-8"

/-- `agent.model or _DEFAULT_MODEL`. -/
def modelName (agent : Agent) : String :=
  if provider.model agent = "" then defaultModel else provider.model agent

/-- `respond` up to the request. -/
def request (agent : Agent) (task : Args) (scratch : Scratch) : Except Exc ApiRequest := do
  let messages ← provider.conversation task scratch
  let messages ← provider.withPending messages ((scratch.get? "tool_results").getD .null)
  let system ← provider.systemPrompt agent
  let tools ← agent.tools.mapM provider.toolSchema
  return ⟨provider.modelName agent, provider.maxTokens, system, tools, messages⟩

/-! ### What comes back -/

/-- Dollars for a million tokens that go in and for a million that come out. -/
def prices : List (String × ℚ × ℚ) :=
  [("claude-opus-4-8", 5, 25), ("claude-sonnet-5", 3, 15), ("claude-haiku-4-5", 1, 5)]

def cost (resp : ApiMessage) (model : String) : ℚ :=
  let price := (prices.lookup model).getD (5, 25)
  (resp.inputTokens * price.1 + resp.outputTokens * price.2) / 1000000

/-- The span from the first opening brace to the last closing one. -/
def braced (text : List Char) : Option (List Char) :=
  match text.idxOf? '\x7b', text.reverse.idxOf? '\x7d' with
  | some start, some fromEnd =>
      let stop := text.length - 1 - fromEnd
      if start < stop then some ((text.take (stop + 1)).drop start) else none
  | _, _ => none

def isDecodeError : Exc → Bool
  | .python "JSONDecodeError" _ => true
  | _ => false

def parseOutput (agent : Agent) (text : String) : Except Exc Json :=
  match provider.outputSchema agent with
  | none => .ok (.str text)
  | some _ =>
      match provider.loads text with
      | .ok output => .ok output
      | .error e =>
          if isDecodeError e then
            match braced text.toList with
            | some span => provider.loads (String.ofList span)
            | none => .error e
          else .error e

/-- The scratch when a response has come: the results have been taken out, and the response is the last
message. -/
def scratchAfter (messages : List Json) (scratch : Scratch) (resp : ApiMessage) : Scratch :=
  Dict.set (scratch.filter fun key => key ≠ "tool_results") "messages"
    (.arr (messages ++ [message "assistant" (.arr (resp.content.map ContentBlock.json))]))

/-- `respond` from the response on. -/
def receive (agent : Agent) (messages : List Json) (scratch : Scratch) (resp : ApiMessage) :
    Except Exc (Response × Scratch) :=
  if resp.stopReason = "tool_use" then
    .ok
      ({ type := some "tool_calls"
         calls := some ((toolUses resp.content).map ContentBlock.call)
         costUsd := some (cost resp (provider.modelName agent)) },
        scratchAfter messages scratch resp)
  else do
    let texts := (resp.content.filter fun b => b.type = "text").map ContentBlock.text
    let output ← provider.parseOutput agent (String.join texts)
    return ({ type := some "final"
              output := some output
              costUsd := some (cost resp (provider.modelName agent)) },
      scratchAfter messages scratch resp)

/-! ### The loop with the provider behind it -/

/-- What a driver with this provider asks: a request of the API, or any other call. -/
inductive ApiCall where
  | create (request : ApiRequest)
  | other (call : Call)

abbrev ApiCall.Res : ApiCall → Type
  | .create _ => Except Exc ApiMessage
  | .other call => call.Res

/-- `respond`. -/
def respond (agent : Agent) (task : Args) (scratch : Scratch) :
    Prog ApiCall ApiCall.Res (Except Exc (Response × Scratch)) :=
  match provider.request agent task scratch with
  | .error e => .pure (.error e)
  | .ok request =>
      .call (.create request) fun answer =>
        .pure (answer >>= fun resp => provider.receive agent request.messages scratch resp)

/-- The calls of a driver, those of the model answered by the provider. -/
def implement : (call : Call) → Prog ApiCall ApiCall.Res call.Res
  | ⟨_, .respond agent task scratch⟩ => provider.respond agent task scratch
  | call => Prog.perform (ApiCall.other call)

end AnthropicModel

end Bass
