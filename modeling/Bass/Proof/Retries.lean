import Bass.Bench
import Mathlib.Algebra.Field.Rat
import Mathlib.Data.Nat.Find

/-!
# What the retry loop does

Attempts are made until one of them ends in something that is not retried for, or until there are no more;
the only other way out is the exponent of the backoff, which stops fitting into a float at attempt 1024.
-/

namespace Bass

/-- The loop goes on after it. -/
def Outcome.retryable : Outcome → Bool
  | .returned _ => false
  | .timedOut => true
  | .raised e => e.isTimeout || e.isTransient

/-- The breaker with one more failure, recorded at a time. -/
def CircuitBreaker.failed (cfg : ReliabilityConfig) (breaker : CircuitBreaker) (now : ℚ) :
    CircuitBreaker where
  failures := breaker.failures + 1
  openedAt :=
    if cfg.breakerThreshold ≤ (breaker.failures + 1 : Nat) then some now else breaker.openedAt

namespace Connector

variable (c : Connector)

/-- The failure that is raised if an outcome that is retried for is the last one. -/
def failure : Outcome → Exc
  | .raised e => if e.isTimeout then c.timeoutError else e
  | _ => c.timeoutError

def wrapped (e : Exc) : Exc := .bass .connectorError s!"connector '{c.name}' failed: {e.str}"

/-- The sleep before attempt `i + 1`. -/
def delay (i : Nat) : ℚ := min (c.config.backoffBaseS * 2 ^ i) c.config.backoffCapS

end Connector

/-! ### One attempt -/

section Attempt

variable {σ : Type} {c : Connector} {rig : Rig (EStateM Exc σ)} {s : σ}

/-- How one attempt ends, with the state after the invocation, after its failure is recorded and after its
success is. -/
def Connector.attemptEnd (c : Connector) (invoked failed succeeded : σ) :
    Outcome → EStateM.Result Exc σ (Except Exc Json)
  | .returned result => .ok (.ok result) succeeded
  | .timedOut => .ok (.error c.timeoutError) failed
  | .raised e =>
      if (Outcome.raised e).retryable then .ok (.error (c.failure (.raised e))) failed
      else if e.isConnectorError then .error e invoked
      else .error (c.wrapped e) failed

theorem attemptEnd_of_retryable {invoked failed succeeded : σ} {outcome : Outcome}
    (h : outcome.retryable = true) :
    c.attemptEnd invoked failed succeeded outcome = .ok (.error (c.failure outcome)) failed := by
  cases outcome with
  | returned result => cases h
  | timedOut => rfl
  | raised e => exact if_pos h

theorem attempt_of_invoke {invoked failed succeeded : σ} {outcome : Outcome}
    (hinvoke : rig.invoke s = .ok outcome invoked)
    (hfailed : CircuitBreaker.recordFailure rig c.config invoked = .ok () failed)
    (hsucceeded : rig.record .closed invoked = .ok () succeeded) :
    c.attempt rig s = c.attemptEnd invoked failed succeeded outcome := by
  unfold Connector.attempt
  simp only [bind, EStateM.bind, hinvoke]
  cases outcome with
  | returned result =>
      simp only [EStateM.bind, CircuitBreaker.recordSuccess, hsucceeded]
      rfl
  | timedOut =>
      simp only [EStateM.bind, hfailed]
      rfl
  | raised e =>
      simp only [Connector.attemptEnd, Outcome.retryable, Connector.failure, Bool.or_eq_true]
      by_cases htimeout : e.isTimeout = true
      · simp only [if_pos htimeout, if_pos (Or.inl htimeout), EStateM.bind, hfailed]
        rfl
      · by_cases htransient : e.isTransient = true
        · simp only [if_neg htimeout, if_pos htransient, if_pos (Or.inr htransient), EStateM.bind, hfailed]
          rfl
        · by_cases hconnector : e.isConnectorError = true
          · simp only [if_neg htimeout, if_neg htransient, if_neg (not_or.mpr ⟨htimeout, htransient⟩),
              if_pos hconnector]
            rfl
          · simp only [if_neg htimeout, if_neg htransient, if_neg (not_or.mpr ⟨htimeout, htransient⟩),
              if_neg hconnector, EStateM.bind, hfailed]
            rfl

/-- What the loop does after an attempt that is retried for. -/
theorem attempts_of_attempt {n number : Nat} {last : Option Exc} {e : Exc} {s' : σ}
    (h : c.attempt rig s = .ok (.error e) s') :
    c.attempts rig (n + 1) number last s =
      if (number : Int) < c.config.maxRetries then
        match c.backoff number with
        | .ok delay =>
            match rig.sleep (min delay c.config.backoffCapS) s' with
            | .ok _ s'' => c.attempts rig n (number + 1) (some e) s''
            | .error e s'' => .error e s''
        | .error e => .error e s'
      else c.attempts rig n (number + 1) (some e) s' := by
  rw [Connector.attempts]
  simp only [bind, EStateM.bind, h]
  by_cases hretry : (number : Int) < c.config.maxRetries
  · simp only [if_pos hretry]
    cases c.backoff number with
    | error e => rfl
    | ok delay =>
        simp only [EStateM.bind]
        cases rig.sleep (min delay c.config.backoffCapS) s' <;> rfl
  · simp only [if_neg hretry]

/-- An attempt that is not retried for ends the loop. -/
theorem attempts_of_result {n number : Nat} {last : Option Exc} {result : Json} {s' : σ}
    (h : c.attempt rig s = .ok (.ok result) s') : c.attempts rig (n + 1) number last s = .ok result s' := by
  rw [Connector.attempts]
  simp only [bind, EStateM.bind, h]
  rfl

theorem attempts_of_error {n number : Nat} {last : Option Exc} {e : Exc} {s' : σ}
    (h : c.attempt rig s = .error e s') : c.attempts rig (n + 1) number last s = .error e s' := by
  rw [Connector.attempts]
  simp only [bind, EStateM.bind, h]

/-- What the loop ends with after an outcome that is not retried for. -/
inductive Settles (c : Connector) (invoked failed succeeded : σ) :
    Outcome → EStateM.Result Exc σ Json → Prop where
  | returned (result : Json) : Settles c invoked failed succeeded (.returned result) (.ok result succeeded)
  | known {e : Exc} (h : e.isConnectorError = true) :
      Settles c invoked failed succeeded (.raised e) (.error e invoked)
  | unknown {e : Exc} (h : e.isConnectorError = false) :
      Settles c invoked failed succeeded (.raised e) (.error (c.wrapped e) failed)

theorem attempts_settle (n number : Nat) (last : Option Exc) {invoked failed succeeded : σ} {outcome : Outcome}
    (hattempt : c.attempt rig s = c.attemptEnd invoked failed succeeded outcome)
    (h : outcome.retryable = false) :
    Settles c invoked failed succeeded outcome (c.attempts rig (n + 1) number last s) := by
  cases outcome with
  | returned result =>
      rw [attempts_of_result hattempt]
      exact .returned result
  | timedOut => cases h
  | raised e =>
      rw [Connector.attemptEnd, h] at hattempt
      cases hconnector : e.isConnectorError with
      | true =>
          rw [hconnector] at hattempt
          rw [attempts_of_error hattempt]
          exact .known hconnector
      | false =>
          rw [hconnector] at hattempt
          rw [attempts_of_error hattempt]
          exact .unknown hconnector

theorem allow_of_rig {breaker : CircuitBreaker} {now : ℚ} (cfg : ReliabilityConfig)
    (hbreaker : rig.breaker s = .ok breaker s) (hnow : rig.now s = .ok now s) :
    CircuitBreaker.allow rig cfg s = .ok (!breaker.isOpen cfg now) s := by
  unfold CircuitBreaker.allow CircuitBreaker.isOpen
  simp only [bind, EStateM.bind, hbreaker]
  cases breaker.openedAt with
  | none => rfl
  | some openedAt =>
      simp only [EStateM.bind, pure, EStateM.pure, hnow, Option.any_some]
      congr 1
      rw [← decide_not]
      exact decide_eq_decide.mpr not_lt.symm

end Attempt

/-! ### The loop on a bench -/

section Loop

variable {c : Connector} {script : Script} {s : Bench}

/-- The bench after a failed attempt. -/
def Bench.afterFailure (cfg : ReliabilityConfig) (script : Script) (s : Bench) : Bench :=
  { s.afterInvoke script with breaker := s.breaker.failed cfg (s.afterInvoke script).time }

theorem recordFailure_eq (cfg : ReliabilityConfig) (s : Bench) :
    CircuitBreaker.recordFailure script.rig cfg s =
      .ok () { s with breaker := s.breaker.failed cfg s.time } := by
  unfold CircuitBreaker.recordFailure CircuitBreaker.failed
  by_cases hreached : cfg.breakerThreshold ≤ (s.breaker.failures + 1 : Nat)
  · simp only [bind, EStateM.bind, Script.rig, if_pos hreached]
  · simp only [bind, EStateM.bind, Script.rig, if_neg hreached, pure, EStateM.pure]

theorem attempt_eq (c : Connector) (script : Script) (s : Bench) : c.attempt script.rig s =
    c.attemptEnd (s.afterInvoke script) (s.afterFailure c.config script)
      { s.afterInvoke script with breaker := .closed } (script.outcome s.invoked) :=
  attempt_of_invoke rfl (recordFailure_eq c.config _) rfl

theorem attempt_of_retryable (h : (script.outcome s.invoked).retryable = true) :
    c.attempt script.rig s =
      .ok (.error (c.failure (script.outcome s.invoked))) (s.afterFailure c.config script) := by
  rw [attempt_eq]
  exact attemptEnd_of_retryable h

/-- The bench after `m` attempts that are retried for, each with its sleep. -/
def Bench.retried (c : Connector) (script : Script) (s : Bench) : Nat → Bench
  | 0 => s
  | m + 1 => ((s.retried c script m).afterFailure c.config script).afterSleep script (c.delay m)

@[simp] theorem invoked_retried (m : Nat) : (s.retried c script m).invoked = s.invoked + m := by
  induction m with
  | zero => rfl
  | succ m ih =>
      change (s.retried c script m).invoked + 1 = _
      omega

@[simp] theorem failures_retried (m : Nat) :
    (s.retried c script m).breaker.failures = s.breaker.failures + m := by
  induction m with
  | zero => rfl
  | succ m ih =>
      change (s.retried c script m).breaker.failures + 1 = _
      omega

theorem sleeps_retried (m : Nat) :
    (s.retried c script m).sleeps = s.sleeps ++ (List.range m).map c.delay := by
  induction m with
  | zero => simp [Bench.retried]
  | succ m ih =>
      change (s.retried c script m).sleeps ++ [c.delay m] = _
      rw [ih, List.range_succ, List.map_append, List.append_assoc]
      rfl

variable {n number : Nat} {last : Option Exc}

theorem attempts_retry (h : (script.outcome s.invoked).retryable = true)
    (hretry : (number : Int) < c.config.maxRetries) (hfloat : number < 1024) :
    c.attempts script.rig (n + 1) number last s =
      c.attempts script.rig n (number + 1) (some (c.failure (script.outcome s.invoked)))
        ((s.afterFailure c.config script).afterSleep script (c.delay number)) := by
  rw [attempts_of_attempt (attempt_of_retryable h), if_pos hretry, Connector.backoff, if_pos hfloat]
  rfl

/-- The loop gets as far as its attempts are retried for. -/
theorem attempts_retried (last : Option Exc) (m : Nat) (h : ∀ i < m, (script.outcome (s.invoked + i)).retryable = true)
    (hretry : (m : Int) ≤ c.config.maxRetries) (hfloat : m ≤ 1024) :
    ∃ last', c.attempts script.rig (n + m) 0 last s =
      c.attempts script.rig n m last' (s.retried c script m) := by
  induction m generalizing n with
  | zero => exact ⟨last, rfl⟩
  | succ m ih =>
      obtain ⟨last', hreached⟩ := ih (n := n + 1) (fun i hi => h i (by omega)) (by omega) (by omega)
      refine ⟨some (c.failure (script.outcome (s.retried c script m).invoked)), ?_⟩
      rw [show n + (m + 1) = n + 1 + m by omega, hreached]
      apply attempts_retry
      · rw [invoked_retried]
        exact h m (by omega)
      · omega
      · omega

theorem allow_script (cfg : ReliabilityConfig) (s : Bench) :
    CircuitBreaker.allow script.rig cfg s = .ok (!s.breaker.isOpen cfg s.time) s :=
  allow_of_rig cfg rfl rfl

/-- How a call ends, for the caller. -/
def ended : EStateM.Result Exc Bench Json → Except Exc Json × Bench
  | .ok value s => (.ok value, s)
  | .error e s => (.error e, s)

/-- What `run` does is what its loop does, if the breaker lets it. -/
theorem runScript_of_attempts {r : EStateM.Result Exc Bench Json}
    (hallow : s.breaker.isOpen c.config s.time = false)
    (h : c.attempts script.rig (c.config.maxRetries + 1).toNat 0 none s = r) : c.runScript script s = ended r := by
  unfold Connector.runScript Connector.runOn
  simp only [bind, EStateM.bind, allow_script, hallow, Bool.not_false, if_true, h]
  cases r <;> rfl

variable {k : Nat}

/-- The first attempt that is not retried for decides. -/
theorem runScript_settles (hallow : s.breaker.isOpen c.config s.time = false)
    (hbefore : ∀ i < k, (script.outcome (s.invoked + i)).retryable = true)
    (hdecides : (script.outcome (s.invoked + k)).retryable = false)
    (hretries : (k : Int) ≤ c.config.maxRetries) (hfloat : k ≤ 1024) :
    ∃ r, c.runScript script s = ended r ∧
      Settles c ((s.retried c script k).afterInvoke script) ((s.retried c script k).afterFailure c.config script)
        { (s.retried c script k).afterInvoke script with breaker := .closed }
        (script.outcome (s.invoked + k)) r := by
  obtain ⟨n, hn⟩ : ∃ n, (c.config.maxRetries + 1).toNat = n + 1 + k :=
    ⟨(c.config.maxRetries - k).toNat, by omega⟩
  obtain ⟨last', hreached⟩ := attempts_retried (n := n + 1) none k hbefore hretries hfloat
  have hattempt := attempt_eq c script (s.retried c script k)
  rw [invoked_retried] at hattempt
  refine ⟨_, runScript_of_attempts hallow rfl, ?_⟩
  rw [hn, hreached]
  exact attempts_settle n k last' hattempt hdecides

/-- If every attempt is retried for, the last failure is raised. -/
theorem runScript_exhausted (hallow : s.breaker.isOpen c.config s.time = false)
    (hall : ∀ i ≤ k, (script.outcome (s.invoked + i)).retryable = true)
    (hretries : c.config.maxRetries = k) (hfloat : k ≤ 1024) :
    c.runScript script s =
      (.error (c.failure (script.outcome (s.invoked + k))),
        (s.retried c script k).afterFailure c.config script) := by
  have hn : (c.config.maxRetries + 1).toNat = 0 + 1 + k := by omega
  obtain ⟨last', hreached⟩ := attempts_retried (n := 0 + 1) none k
    (fun i hi => hall i hi.le) hretries.ge hfloat
  have hlast : (script.outcome (s.retried c script k).invoked).retryable = true := by
    rw [invoked_retried]
    exact hall k le_rfl
  have hloop := hreached.trans (attempts_of_attempt (attempt_of_retryable hlast))
  rw [← hn, if_neg (by omega), invoked_retried] at hloop
  exact runScript_of_attempts hallow hloop

/-- The power of two of attempt 1024 does not fit into a float. -/
theorem runScript_overflow (hallow : s.breaker.isOpen c.config s.time = false)
    (hall : ∀ i ≤ 1024, (script.outcome (s.invoked + i)).retryable = true)
    (hretries : 1024 < c.config.maxRetries) :
    c.runScript script s =
      (.error (.python "OverflowError" "int too large to convert to float"),
        (s.retried c script 1024).afterFailure c.config script) := by
  obtain ⟨n, hn⟩ : ∃ n, (c.config.maxRetries + 1).toNat = n + 1 + 1024 :=
    ⟨(c.config.maxRetries - 1024).toNat, by omega⟩
  obtain ⟨last', hreached⟩ := attempts_retried (n := n + 1) none 1024
    (fun i hi => hall i hi.le) hretries.le le_rfl
  have hlast : (script.outcome (s.retried c script 1024).invoked).retryable = true := by
    rw [invoked_retried]
    exact hall 1024 le_rfl
  have hloop := hreached.trans (attempts_of_attempt (attempt_of_retryable hlast))
  rw [← hn, if_pos (by exact_mod_cast hretries), Connector.backoff, if_neg (lt_irrefl 1024)] at hloop
  exact runScript_of_attempts hallow hloop

end Loop

/-! ### The loop against its description -/

/-- What a call from `start` on should do. -/
structure Described (c : Connector) (script : Script) (start : Bench) (out : Except Exc Json × Bench) :
    Prop where
  /-- Attempt `k` is the first one whose outcome is neither transient nor a timeout, and there is one. -/
  decided : ∀ k : Nat, (∀ i < k, (script.outcome i).retryable = true) →
    (script.outcome k).retryable = false → (k : Int) ≤ c.config.maxRetries →
      out.2.invoked = k + 1 ∧ out.2.sleeps = (List.range k).map c.delay ∧
        (∀ result, script.outcome k = .returned result →
          out.1 = .ok result ∧ out.2.breaker.failures = 0) ∧
        ∀ e, script.outcome k = .raised e →
          if e.isConnectorError then
            out.1 = .error e ∧ out.2.breaker.failures = start.breaker.failures + k
          else
            out.1 = .error (c.wrapped e) ∧ out.2.breaker.failures = start.breaker.failures + k + 1
  /-- There is no such attempt. -/
  exhausted : ∀ n : Nat, c.config.maxRetries = n → (∀ i ≤ n, (script.outcome i).retryable = true) →
    out.2.invoked = n + 1 ∧ out.2.sleeps = (List.range n).map c.delay ∧
      out.1 = .error (c.failure (script.outcome n)) ∧
      out.2.breaker.failures = start.breaker.failures + n + 1

variable {c : Connector} {script : Script} {time : ℚ} {breaker : CircuitBreaker}

/-- The first attempt that decides is unique. -/
theorem decides_unique {k k' : Nat} (hbefore : ∀ i < k, (script.outcome i).retryable = true)
    (hdecides : (script.outcome k).retryable = false)
    (hbefore' : ∀ i < k', (script.outcome i).retryable = true)
    (hdecides' : (script.outcome k').retryable = false) : k = k' := by
  rcases lt_trichotomy k k' with hlt | heq | hlt
  · rw [hbefore' k hlt] at hdecides
    cases hdecides
  · exact heq
  · rw [hbefore k' hlt] at hdecides'
    cases hdecides'

theorem exists_first_false {f : Nat → Bool} {n : Nat} (h : ∃ i ≤ n, f i = false) :
    ∃ k ≤ n, (∀ i < k, f i = true) ∧ f k = false := by
  obtain ⟨i, hi, hfalse⟩ := h
  have hfirst : ∃ i, f i = false := ⟨i, hfalse⟩
  refine ⟨Nat.find hfirst, (Nat.find_min' hfirst hfalse).trans hi, ?_, Nat.find_spec hfirst⟩
  intro j hj
  exact Bool.eq_true_of_not_eq_false (Nat.find_min hfirst hj)

theorem forall_true_of_not_exists {f : Nat → Bool} {n : Nat} (h : ¬∃ i ≤ n, f i = false) :
    ∀ i ≤ n, f i = true := by
  intro i hi
  by_contra hne
  exact h ⟨i, hi, Bool.eq_false_of_not_eq_true hne⟩

theorem described_decided {k : Nat} (hallow : breaker.isOpen c.config time = false)
    (hbefore : ∀ i < k, (script.outcome i).retryable = true)
    (hdecides : (script.outcome k).retryable = false)
    (hretries : (k : Int) ≤ c.config.maxRetries) (hfloat : k ≤ 1024) :
    Described c script ⟨time, breaker, 0, []⟩ (c.runScript script ⟨time, breaker, 0, []⟩) := by
  have hretried : ∀ i < k, (script.outcome (0 + i)).retryable = true := by simpa using hbefore
  have hstops : (script.outcome (0 + k)).retryable = false := by simpa using hdecides
  obtain ⟨r, hrun, hend⟩ :=
    runScript_settles (s := ⟨time, breaker, 0, []⟩) hallow hretried hstops hretries hfloat
  rw [Nat.zero_add] at hend
  constructor
  · intro k' hbefore' hdecides' _
    obtain rfl := decides_unique hbefore hdecides hbefore' hdecides'
    have hsleeps : ([] : List ℚ) ++ (List.range k).map c.delay = (List.range k).map c.delay :=
      List.nil_append _
    generalize script.outcome k = outcome at hend ⊢
    rw [hrun]
    cases hend with
    | returned result =>
        refine ⟨by simp [ended, Bench.afterInvoke], (sleeps_retried k).trans hsleeps, ?_, by simp⟩
        intro result' hresult
        cases hresult
        exact ⟨rfl, rfl⟩
    | @known e hconnector =>
        refine ⟨by simp [ended, Bench.afterInvoke], (sleeps_retried k).trans hsleeps, by simp, ?_⟩
        intro e' he
        cases he
        rw [if_pos hconnector]
        exact ⟨rfl, failures_retried k⟩
    | @unknown e hconnector =>
        refine ⟨by simp [ended, Bench.afterFailure, Bench.afterInvoke], (sleeps_retried k).trans hsleeps,
          by simp, ?_⟩
        intro e' he
        cases he
        rw [hconnector]
        exact ⟨rfl, congrArg (· + 1) (failures_retried k)⟩
  · intro n hn hall
    have hle : k ≤ n := by omega
    rw [hall k hle] at hdecides
    cases hdecides

theorem described_exhausted {k : Nat} (hallow : breaker.isOpen c.config time = false)
    (hall : ∀ i ≤ k, (script.outcome i).retryable = true) (hretries : c.config.maxRetries = k)
    (hfloat : k ≤ 1024) :
    Described c script ⟨time, breaker, 0, []⟩ (c.runScript script ⟨time, breaker, 0, []⟩) := by
  have hretried : ∀ i ≤ k, (script.outcome (0 + i)).retryable = true := by simpa using hall
  have hrun := runScript_exhausted (s := ⟨time, breaker, 0, []⟩) hallow hretried hretries hfloat
  rw [Nat.zero_add] at hrun
  constructor
  · intro k' _ hdecides' hle
    rw [hall k' (by omega)] at hdecides'
    cases hdecides'
  · intro n hn _
    obtain rfl : k = n := by omega
    rw [hrun]
    refine ⟨by simp [Bench.afterFailure, Bench.afterInvoke], ?_, rfl,
      congrArg (· + 1) (failures_retried k)⟩
    exact (sleeps_retried k).trans (List.nil_append _)

/-- **The retry loop.** For every script, from every breaker that lets the call through, a call does what
its description says iff it has at most 1024 retries or one of its first 1025 outcomes is not retried
for. -/
theorem described_iff (c : Connector) (script : Script) (time : ℚ) (breaker : CircuitBreaker)
    (hretries : 0 ≤ c.config.maxRetries) (hallow : breaker.isOpen c.config time = false) :
    Described c script ⟨time, breaker, 0, []⟩ (c.runScript script ⟨time, breaker, 0, []⟩) ↔
      c.config.maxRetries ≤ 1024 ∨ ∃ i ≤ 1024, (script.outcome i).retryable = false := by
  obtain ⟨n, hn⟩ : ∃ n : Nat, c.config.maxRetries = n := ⟨c.config.maxRetries.toNat, by omega⟩
  constructor
  · intro h
    by_contra hnot
    obtain ⟨hmany, hnone⟩ := not_or.mp hnot
    have hall : ∀ i ≤ 1024, (script.outcome i).retryable = true := forall_true_of_not_exists hnone
    have hretried : ∀ i ≤ 1024, (script.outcome (0 + i)).retryable = true := by simpa using hall
    have hrun := runScript_overflow (s := ⟨time, breaker, 0, []⟩) hallow hretried (by omega)
    have hinvoked : (c.runScript script ⟨time, breaker, 0, []⟩).2.invoked = 1025 := by
      rw [hrun]
      simp [Bench.afterFailure, Bench.afterInvoke]
    by_cases hdecides : ∃ i ≤ n, (script.outcome i).retryable = false
    · obtain ⟨k, hk, hbefore, hdecides⟩ := exists_first_false hdecides
      have hcount := (h.decided k hbefore hdecides (by omega)).1
      rw [hall k (by omega)] at hdecides
      cases hdecides
    · have hcount := (h.exhausted n hn (forall_true_of_not_exists hdecides)).1
      omega
  · intro h
    by_cases hdecides : ∃ i ≤ min n 1024, (script.outcome i).retryable = false
    · obtain ⟨k, hk, hbefore, hdecides⟩ := exists_first_false hdecides
      exact described_decided hallow hbefore hdecides (by omega) (by omega)
    · have hall : ∀ i ≤ min n 1024, (script.outcome i).retryable = true :=
        forall_true_of_not_exists hdecides
      have hfew : n ≤ 1024 := by
        rcases h with hfew | ⟨i, hi, hfalse⟩
        · omega
        · by_contra hmany
          rw [hall i (by omega)] at hfalse
          cases hfalse
      rw [min_eq_left hfew] at hall
      exact described_exhausted hallow hall hn hfew

/-- A dependency that answers the invocation with this number, and resets the connection before. -/
def Script.answering (answered : Nat) : Script where
  outcome := fun i =>
    if i < answered then .raised (.bass .transient "connection reset") else .returned (.str "ok")
  took := fun _ => 0
  slept := fun _ => 0

def Connector.mailer (cfg : ReliabilityConfig) : Connector := ⟨"mailer", cfg, fun _ => "10.0"⟩

theorem described_iff_mailer :
    Described (.mailer {}) (.answering 2) ⟨0, .closed, 0, []⟩
      ((Connector.mailer {}).runScript (.answering 2) ⟨0, .closed, 0, []⟩) := by
  apply (described_iff (.mailer {}) (.answering 2) 0 .closed (by decide) rfl).mpr
  exact Or.inl (by decide)

/-- With 1025 retries against a dependency that is down, the last attempt is not made. -/
theorem retries_overflow :
    ¬Described (.mailer { maxRetries := 1025 }) (.answering 2000) ⟨0, .closed, 0, []⟩
      ((Connector.mailer { maxRetries := 1025 }).runScript (.answering 2000) ⟨0, .closed, 0, []⟩) := by
  intro h
  have hdown : ∀ i ≤ 1025, ((Script.answering 2000).outcome i).retryable = true := by
    intro i hi
    rw [Script.answering]
    simp only
    rw [if_pos (by omega)]
    rfl
  have hretried : ∀ i ≤ 1024, ((Script.answering 2000).outcome (0 + i)).retryable = true := by
    intro i hi
    rw [Nat.zero_add]
    exact hdown i (by omega)
  have hrun := runScript_overflow (c := .mailer { maxRetries := 1025 }) (s := ⟨0, .closed, 0, []⟩) rfl hretried
    (by decide)
  have hcount := (h.exhausted 1025 rfl hdown).1
  rw [hrun] at hcount
  simp [Bench.afterFailure, Bench.afterInvoke] at hcount

end Bass
