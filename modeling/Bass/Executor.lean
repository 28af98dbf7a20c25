import Bass.Connectors

/-!
# A connector and its pool

`Connector.run` with the threads behind it: an invocation of the operation is a future in the queue of a
pool of four workers, and the caller waits for its result until the timeout. The caller, the workers and
the clock move in any order, so that every duration of an invocation and every wait in the queue is some
run.
-/

namespace Bass

open Interaction

namespace Connector

/-- How an invocation ends. -/
abbrev Ending : Type := Except Exc Json

def Ending.outcome : Ending → Outcome
  | .ok result => .returned result
  | .error e => .raised e

inductive Status where
  | queued
  | running
  | finished (ending : Ending)

/-- An invocation made for a call of `run`. -/
structure Future where
  call : Nat
  submitted : ℚ
  status : Status

def Future.Over (f : Future) : Prop := ∃ ending, f.status = .finished ending

abbrev Code : Type := Prog (Site Op CircuitBreaker) (fun site => site.op.Res) (Except Exc Json × CircuitBreaker)

/-- What the thread of the caller is doing. -/
inductive Caller where
  | idle (breaker : CircuitBreaker)
  | busy (call : Nat) (code : Code)
  | waiting (call : Nat) (future : Nat) (breaker : CircuitBreaker) (next : Outcome → Code)
  | asleep (call : Nat) (wakes : ℚ) (next : Unit → Code)

/-- The call of `run` that has not ended. -/
def Caller.call? : Caller → Option Nat
  | .idle _ => none
  | .busy call _ => some call
  | .waiting call _ _ _ => some call
  | .asleep call _ _ => some call

structure Service where
  clock : ℚ
  futures : List Future
  calls : Nat
  caller : Caller

inductive Label where
  | pass
  | began (call : Nat)
  | submitted (call : Nat)
  | answered (call : Nat)
  | timedOut (call : Nat)
  | looked (call : Nat)
  | slept (call : Nat)
  | woke (call : Nat)
  | ended (call : Nat) (result : Except Exc Json)
  | started (call : Nat)
  | finished (call : Nat) (ending : Ending)

def maxWorkers : Nat := 4

def Service.running (s : Service) : Nat :=
  s.futures.countP fun f => match f.status with
    | .running => true
    | _ => false

namespace Service

variable (c : Connector)

inductive Step : Service → Label → Service → Prop where
  | pass {s : Service} {t : ℚ} (htime : s.clock ≤ t) : Step s .pass { s with clock := t }
  | enter {s : Service} {breaker : CircuitBreaker} (hcaller : s.caller = .idle breaker) :
      Step s (.began s.calls)
        { s with calls := s.calls + 1, caller := .busy s.calls (c.run.exec breaker) }
  | submit {s : Service} {call : Nat} {breaker : CircuitBreaker} {next : Outcome → Code}
      (hcaller : s.caller = .busy call (.call ⟨breaker, .invoke⟩ next)) :
      Step s (.submitted call)
        { s with futures := s.futures ++ [⟨call, s.clock, .queued⟩]
                 caller := .waiting call s.futures.length breaker next }
  | answer {s : Service} {call i : Nat} {breaker : CircuitBreaker} {next : Outcome → Code} {f : Future}
      {ending : Ending} (hcaller : s.caller = .waiting call i breaker next)
      (hfuture : s.futures[i]? = some f) (hstatus : f.status = .finished ending) :
      Step s (.answered call) { s with caller := .busy call (next ending.outcome) }
  | timeOut {s : Service} {call i : Nat} {breaker : CircuitBreaker} {next : Outcome → Code} {f : Future}
      (hcaller : s.caller = .waiting call i breaker next) (hfuture : s.futures[i]? = some f)
      (hunfinished : ¬f.Over) (htime : f.submitted + c.config.timeoutS ≤ s.clock) :
      Step s (.timedOut call) { s with caller := .busy call (next .timedOut) }
  | look {s : Service} {call : Nat} {breaker : CircuitBreaker} {next : ℚ → Code}
      (hcaller : s.caller = .busy call (.call ⟨breaker, .now⟩ next)) :
      Step s (.looked call) { s with caller := .busy call (next s.clock) }
  | sleep {s : Service} {call : Nat} {breaker : CircuitBreaker} {delayS : ℚ} {next : Unit → Code}
      (hcaller : s.caller = .busy call (.call ⟨breaker, .sleep delayS⟩ next)) :
      Step s (.slept call) { s with caller := .asleep call (s.clock + delayS) next }
  | wake {s : Service} {call : Nat} {wakes : ℚ} {next : Unit → Code}
      (hcaller : s.caller = .asleep call wakes next) (htime : wakes ≤ s.clock) :
      Step s (.woke call) { s with caller := .busy call (next ()) }
  | leave {s : Service} {call : Nat} {result : Except Exc Json} {breaker : CircuitBreaker}
      (hcaller : s.caller = .busy call (.pure (result, breaker))) :
      Step s (.ended call result) { s with caller := .idle breaker }
  /-- A free worker takes the future at the head of the queue. -/
  | start {s : Service} {i : Nat} {f : Future} (hfuture : s.futures[i]? = some f)
      (hqueued : f.status = .queued)
      (hfirst : ∀ j < i, ∀ g, s.futures[j]? = some g → g.status ≠ .queued)
      (hfree : s.running < maxWorkers) :
      Step s (.started f.call) { s with futures := s.futures.set i { f with status := .running } }
  | finish {s : Service} {i : Nat} {f : Future} {e : Ending} (hfuture : s.futures[i]? = some f)
      (hrunning : f.status = .running) :
      Step s (.finished f.call e) { s with futures := s.futures.set i { f with status := .finished e } }

/-- Finite runs, with what happened at each step. -/
inductive Run : Service → List Label → Service → Prop where
  | nil (s : Service) : Run s [] s
  | snoc {s s₁ s' : Service} {labels : List Label} {label : Label} (head : Run s labels s₁)
      (last : Step c s₁ label s') : Run s (labels ++ [label]) s'

/-- No call has been made. -/
def fresh (clock : ℚ) (breaker : CircuitBreaker) : Service := ⟨clock, [], 0, .idle breaker⟩

end Service

end Connector

end Bass
