import Bass.Connectors
import Mathlib.Data.NNRat.Defs

/-!
# A connector on a bench

A connector in surroundings that are known in advance: how each invocation of its operation ends, and how
long the invocations and the sleeps take. The code itself takes no time.
-/

namespace Bass

/-- What the invocations and the sleeps will be, by their number. -/
structure Script where
  outcome : Nat → Outcome
  took : Nat → ℚ≥0
  slept : Nat → ℚ≥0

/-- The time, the breaker, and what has been done so far. -/
structure Bench where
  time : ℚ
  breaker : CircuitBreaker
  invoked : Nat := 0
  sleeps : List ℚ := []

abbrev BenchM (α : Type) : Type := EStateM Exc Bench α

namespace Bench

variable (script : Script) (s : Bench)

def afterInvoke : Bench := { s with time := s.time + script.took s.invoked, invoked := s.invoked + 1 }

def afterSleep (delayS : ℚ) : Bench :=
  { s with time := s.time + script.slept s.sleeps.length, sleeps := s.sleeps ++ [delayS] }

end Bench

/-- The rig of a connector that follows a script. -/
def Script.rig (script : Script) : Rig BenchM where
  now := fun s => .ok s.time s
  invoke := fun s => .ok (script.outcome s.invoked) (s.afterInvoke script)
  sleep := fun delayS s => .ok () (s.afterSleep script delayS)
  breaker := fun s => .ok s.breaker s
  record := fun breaker s => .ok () { s with breaker := breaker }

/-- One call of `run`, and how it leaves the bench. -/
def Connector.runScript (c : Connector) (script : Script) (s : Bench) : Except Exc Json × Bench :=
  match c.runOn script.rig s with
  | .ok result s' => (.ok result, s')
  | .error e s' => (.error e, s')

end Bass
