import Bass.Interaction.Act
import Bass.Models
import Mathlib.Algebra.Order.Ring.Unbundled.Rat

/-!
# Connectors

`CircuitBreaker` and `Connector.run` of `connectors.py`. What a call reads of the outside are the
monotonic clock, the outcome of an invocation of the operation, and the end of a sleep.
-/

namespace Bass

open Interaction

structure ReliabilityConfig where
  timeoutS : ℚ := 10
  maxRetries : Int := 3
  backoffBaseS : ℚ := 1 / 20
  backoffCapS : ℚ := 2
  breakerThreshold : Int := 5
  breakerResetS : ℚ := 30

/-- How an invocation ends for the caller that waits for it. -/
inductive Outcome where
  | returned (result : Json)
  | timedOut
  | raised (e : Exc)

namespace Connector

inductive Op where
  | now
  | invoke
  | sleep (delayS : ℚ)

def Op.Res : Op → Type
  | .now => ℚ
  | .invoke => Outcome
  | .sleep _ => Unit

end Connector

structure CircuitBreaker where
  failures : Nat
  openedAt : Option ℚ

/-- Code of a connector: it calls the outside, and its state is the breaker. -/
abbrev ConnectorM (α : Type) : Type := Act Connector.Op Connector.Op.Res CircuitBreaker Exc α

/-- What a connector's code works with: the clock, the operation, the sleep function and the breaker. -/
structure Rig (M : Type → Type) where
  now : M ℚ
  invoke : M Outcome
  sleep : ℚ → M Unit
  breaker : M CircuitBreaker
  record : CircuitBreaker → M Unit

namespace Connector

def now : ConnectorM ℚ := Act.perform Op.now

def invoke : ConnectorM Outcome := Act.perform Op.invoke

def sleep (delayS : ℚ) : ConnectorM Unit := Act.perform (Op.sleep delayS)

/-- The rig of a connector on its own: what it does not hold itself it calls for. -/
def rig : Rig ConnectorM := ⟨now, invoke, sleep, get, set⟩

@[simp] theorem rig_now : rig.now = now := rfl

@[simp] theorem rig_invoke : rig.invoke = invoke := rfl

@[simp] theorem rig_sleep : rig.sleep = sleep := rfl

@[simp] theorem rig_breaker : rig.breaker = get := rfl

@[simp] theorem rig_record (breaker : CircuitBreaker) : rig.record breaker = set breaker := rfl

end Connector

variable {M : Type → Type} [Monad M] [MonadExceptOf Exc M]

namespace CircuitBreaker

variable (rig : Rig M) (cfg : ReliabilityConfig)

def closed : CircuitBreaker := ⟨0, none⟩

/-- `is_open`, at a reading of the clock. -/
def isOpen (breaker : CircuitBreaker) (now : ℚ) : Bool :=
  breaker.openedAt.any fun openedAt => now - openedAt < cfg.breakerResetS

def allow : M Bool := do
  match (← rig.breaker).openedAt with
  | none => return true
  | some openedAt =>
      let now ← rig.now
      return cfg.breakerResetS ≤ now - openedAt

def recordSuccess : M Unit := rig.record closed

def recordFailure : M Unit := do
  let breaker ← rig.breaker
  rig.record { breaker with failures := breaker.failures + 1 }
  if cfg.breakerThreshold ≤ (breaker.failures + 1 : Nat) then
    let now ← rig.now
    rig.record { failures := breaker.failures + 1, openedAt := some now }

end CircuitBreaker

structure Connector where
  name : String
  config : ReliabilityConfig
  /-- `str` of a float. -/
  floatStr : ℚ → String

/-- `except Transient`. -/
def Exc.isTransient : Exc → Bool
  | .bass .transient _ => true
  | _ => false

/-- `except FutureTimeout`: the timeout of a future is the built-in `TimeoutError`. -/
def Exc.isTimeout : Exc → Bool
  | .python cls _ => cls == "TimeoutError"
  | _ => false

namespace Connector

variable (c : Connector)

def timeoutError : Exc :=
  .bass .transient s!"connector '{c.name}' timed out after {c.floatStr c.config.timeoutS}s"

/-- One attempt: the result, or the failure to retry for. -/
def attempt (rig : Rig M) : M (Except Exc Json) := do
  match ← rig.invoke with
  | .returned result =>
      CircuitBreaker.recordSuccess rig
      return .ok result
  | .timedOut =>
      CircuitBreaker.recordFailure rig c.config
      return .error c.timeoutError
  | .raised e =>
      if e.isTimeout then
        CircuitBreaker.recordFailure rig c.config
        return .error c.timeoutError
      else if e.isTransient then
        CircuitBreaker.recordFailure rig c.config
        return .error e
      else if e.isConnectorError then throw e
      else
        CircuitBreaker.recordFailure rig c.config
        throw (.bass .connectorError s!"connector '{c.name}' failed: {e.str}")

/-- `cfg.backoff_base_s * (2 ** attempt)`: the power is an integer, and has to fit into a float. -/
def backoff (number : Nat) : Except Exc ℚ :=
  if number < 1024 then .ok (c.config.backoffBaseS * 2 ^ number)
  else .error (.python "OverflowError" "int too large to convert to float")

/-- The retry loop with `n` attempts left, the next one being number `number`, and `last` the failure of
the one before. -/
def attempts (rig : Rig M) : (n number : Nat) → (last : Option Exc) → M Json
  | 0, _, none => throw (Exc.assertionError "")
  | 0, _, some e => throw e
  | n + 1, number, _ => do
      match ← c.attempt rig with
      | .ok result => return result
      | .error e =>
          if number < c.config.maxRetries then
            match c.backoff number with
            | .ok delay => rig.sleep (min delay c.config.backoffCapS)
            | .error e => throw e
          attempts rig n (number + 1) (some e)

/-- `run`, on a rig. -/
def runOn (rig : Rig M) : M Json := do
  if ← CircuitBreaker.allow rig c.config then attempts c rig (c.config.maxRetries + 1).toNat 0 none
  else throw (Exc.bass .circuitOpen s!"connector '{c.name}' circuit is open")

/-- `run`. -/
def run : ConnectorM Json := c.runOn rig

/-- A sequence of calls, whatever each of them returns or raises. -/
def runs : Nat → ConnectorM Unit
  | 0 => return
  | n + 1 => do
      tryCatch (do let _ ← run c) fun _ => return
      runs n

end Connector

end Bass
