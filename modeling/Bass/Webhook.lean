import Bass.Executor
import Mathlib.Data.NNRat.Defs

/-!
# The webhook tool

`http_call` of `connectors.py`, `WebhookConnector.post` of `webhook.py`, and the execution of a webhook
tool by the registry of `tools.py`: the registry runs `post` through a connector, and `post` runs
`http_call` through the connector of the webhook. The two are one connector, or two that are configured
alike, and each has a pool of four workers. A wait that runs out gives up its future and does not stop it:
an abandoned `post` goes on beside the next one. What a request says does not matter here, only how it ends.
-/

namespace Bass

open Interaction

/-- How one HTTP request ends: with a response, without a connection, or with another exception. -/
inductive HttpOutcome where
  | response (status : Nat) (body : String)
  | unreachable (reason : String)
  | raised (e : Exc)

def httpCall : HttpOutcome → Connector.Ending
  | .response status body =>
      if 500 ≤ status then .error (.bass .transient s!"http {status}")
      else .ok (.obj [("status", .int status), ("body", .str body)])
  | .unreachable reason => .error (.bass .transient s!"connection error: {reason}")
  | .raised e => .error e

namespace WebhookConnector

/-- What `post` returns for what `http_call` has returned. -/
def reply (resp : Json) : Json :=
  match resp with
  | .obj fields =>
      let status : Int := match fields.lookup "status" with
        | some (.int status) => status
        | _ => 0
      .obj [("status", .int status), ("ok", .bool (decide (200 ≤ status ∧ status < 300))),
        ("body", (fields.lookup "body").getD (.str ""))]
  | other => other

/-! ### Threads -/

/-- What a thread calls for in `run`. The breaker belongs to the connector, which threads share. -/
inductive Op where
  | now
  | invoke
  | sleep (delayS : ℚ)
  | breaker
  | record (breaker : CircuitBreaker)

def Op.Res : Op → Type
  | .now => ℚ
  | .invoke => Outcome
  | .sleep _ => Unit
  | .breaker => CircuitBreaker
  | .record _ => Unit

def rig : Rig (Act Op Op.Res Unit Exc) where
  now := Act.perform Op.now
  invoke := Act.perform Op.invoke
  sleep := fun delayS => Act.perform (Op.sleep delayS)
  breaker := Act.perform Op.breaker
  record := fun breaker => Act.perform (Op.record breaker)

abbrev Code : Type := Prog (Site Op Unit) (fun site => site.op.Res) (Except Exc Json × Unit)

def run (c : Connector) : Code := (c.runOn rig).exec ()

inductive Stage where
  | queued
  | busy (code : Code)
  | waiting (future : Nat) (next : Outcome → Code)
  | asleep (delayS wakes : ℚ) (next : Unit → Code)
  | closed (ending : Connector.Ending)

def Stage.ending : Stage → Option Connector.Ending
  | .closed ending => some ending
  | _ => none

abbrev Told : Type := List (Prog.Event Op Op.Res)

/-- A call of `run`, and what it has been told so far. -/
structure Task where
  submitted : ℚ
  stage : Stage
  told : Told

def Task.hear (task : Task) (op : Op) (answer : op.Res) (code : Code) : Task :=
  { task with stage := .busy code, told := task.told ++ [⟨op, answer⟩] }

/-- An invocation of `http_call`, made by a task. -/
structure HttpRequest where
  task : Nat
  submitted : ℚ
  status : Connector.Status

/-- One execution of the tool: task 0 is the registry's call of `run`, the others are the calls that its
invocations of `post` make. -/
structure Delivery where
  clock : ℚ
  webhook : CircuitBreaker
  registry : CircuitBreaker
  tasks : List Task
  requests : List HttpRequest

inductive Label where
  | pass (time : ℚ≥0)
  | go (task : Nat)
  | answer (task : Nat)
  | timeOut (task : Nat)
  | wake (task : Nat)
  | start (task : Nat)
  | send (request : Nat)
  | respond (request : Nat) (outcome : HttpOutcome)

namespace Delivery

/-- `ToolRegistry.execute` begins. -/
def execute (c : Connector) (clock : ℚ) (webhook registry : CircuitBreaker) : Delivery :=
  ⟨clock, webhook, registry, [⟨clock, .busy (run c), []⟩], []⟩

variable (shared : Bool) (c : Connector) (s : Delivery)

def put (i : Nat) (task : Task) : Delivery := { s with tasks := s.tasks.set i task }

/-- The breaker of the connector that a task runs in. -/
def breakerOf (i : Nat) : CircuitBreaker := if i = 0 ∧ shared = false then s.registry else s.webhook

def recordFor (i : Nat) (breaker : CircuitBreaker) : Delivery :=
  if i = 0 ∧ shared = false then { s with registry := breaker } else { s with webhook := breaker }

/-- The invocation a task makes: of `post` by the registry, of `http_call` by `post`. -/
def invoke (i : Nat) (task : Task) (next : Outcome → Code) : Delivery :=
  if i = 0 then
    let waits := s.put 0 { task with stage := .waiting s.tasks.length next }
    { waits with tasks := waits.tasks ++ [⟨s.clock, .queued, []⟩] }
  else
    let waits := s.put i { task with stage := .waiting s.requests.length next }
    { waits with requests := s.requests ++ [⟨i, s.clock, .queued⟩] }

/-- The next call of a task, or its end. -/
def advance (i : Nat) (task : Task) : Code → Delivery
  | .pure (result, _) =>
      s.put i { task with stage := .closed (if i = 0 then result else reply <$> result) }
  | .call ⟨_, .now⟩ next => s.put i (task.hear .now s.clock (next s.clock))
  | .call ⟨_, .invoke⟩ next => s.invoke i task next
  | .call ⟨_, .sleep delayS⟩ next => s.put i { task with stage := .asleep delayS (s.clock + delayS) next }
  | .call ⟨_, .breaker⟩ next =>
      s.put i (task.hear .breaker (s.breakerOf shared i) (next (s.breakerOf shared i)))
  | .call ⟨_, .record breaker⟩ next =>
      (s.recordFor shared i breaker).put i (task.hear (.record breaker) () (next ()))

/-- Since when a task has been waiting for a future, and how the future has ended. -/
def awaited (i future : Nat) : Option (ℚ × Option Connector.Ending) :=
  if i = 0 then s.tasks[future]?.map fun task => (task.submitted, task.stage.ending)
  else s.requests[future]?.map fun request => (request.submitted, match request.status with
    | .finished ending => some ending
    | _ => none)

/-- Invocations of `post` that a worker is executing. -/
def posting : Nat :=
  (s.tasks.drop 1).countP fun task => match task.stage with
    | .queued | .closed _ => false
    | _ => true

def inFlight : Nat :=
  s.requests.countP fun request => match request.status with
    | .running => true
    | _ => false

/-- The pool has a free worker. Which future of its queue it takes is left open. -/
def hasWorker (busy : Nat) : Bool :=
  decide ((if shared then s.posting + s.inFlight else busy) < Connector.maxWorkers)

def step : Label → Option Delivery
  | .pass time => some { s with clock := s.clock + time }
  | .go i => match s.tasks[i]? with
      | some ⟨submitted, .busy code, told⟩ => some (s.advance shared i ⟨submitted, .busy code, told⟩ code)
      | _ => none
  | .answer i => match s.tasks[i]? with
      | some ⟨submitted, .waiting future next, told⟩ => match s.awaited i future with
          | some (_, some ending) => some (s.put i
              (Task.hear ⟨submitted, .waiting future next, told⟩ .invoke ending.outcome (next ending.outcome)))
          | _ => none
      | _ => none
  | .timeOut i => match s.tasks[i]? with
      | some ⟨submitted, .waiting future next, told⟩ => match s.awaited i future with
          | some (since, none) =>
              if since + c.config.timeoutS ≤ s.clock then
                some (s.put i (Task.hear ⟨submitted, .waiting future next, told⟩ .invoke Outcome.timedOut
                  (next .timedOut)))
              else none
          | _ => none
      | _ => none
  | .wake i => match s.tasks[i]? with
      | some ⟨submitted, .asleep delayS wakes next, told⟩ =>
          if wakes ≤ s.clock then
            some (s.put i (Task.hear ⟨submitted, .asleep delayS wakes next, told⟩ (.sleep delayS) () (next ())))
          else none
      | _ => none
  | .start i => match s.tasks[i]? with
      | some ⟨submitted, .queued, told⟩ =>
          if s.hasWorker shared s.posting then some (s.put i ⟨submitted, .busy (run c), told⟩) else none
      | _ => none
  | .send j => match s.requests[j]? with
      | some ⟨task, submitted, .queued⟩ =>
          if s.hasWorker shared s.inFlight then
            some { s with requests := s.requests.set j ⟨task, submitted, .running⟩ }
          else none
      | _ => none
  | .respond j outcome => match s.requests[j]? with
      | some ⟨task, submitted, .running⟩ =>
          some { s with requests := s.requests.set j ⟨task, submitted, .finished (httpCall outcome)⟩ }
      | _ => none

/-- Any order of steps of the threads, the workers, the endpoint and the clock. -/
def follow (s : Delivery) : List Label → Option Delivery
  | [] => some s
  | label :: labels => (s.step shared c label).bind fun s' => s'.follow labels

/-- The requests that a worker has taken up. -/
def sent : Nat :=
  s.requests.countP fun request => match request.status with
    | .queued => false
    | _ => true

/-- Nothing is left to do, for the registry, the posts it has started and their requests. -/
def Settled : Prop :=
  (∀ task ∈ s.tasks, ∃ ending, task.stage = .closed ending) ∧
    ∀ request ∈ s.requests, ∃ ending, request.status = .finished ending

end Delivery

end WebhookConnector

end Bass
