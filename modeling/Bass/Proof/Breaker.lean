import Bass.Connectors
import Mathlib.Data.List.Chain
import Mathlib.Tactic.Linarith

/-!
# The circuit breaker

A call of a connector asks the breaker once, before its first attempt, and records every failed attempt.
So the breaker can open while a call goes on retrying, and a trial whose failure is not recorded leaves
it half-open. Apart from these two cases no invocation begins while the breaker is open, and a failed
trial is followed by a full cooldown.
-/

namespace Bass

open Interaction

/-- An invocation of the operation, with the breaker as it was when it began. -/
structure Invocation where
  breaker : CircuitBreaker
  began : ℚ
  outcome : Outcome
  ended : ℚ

namespace Connector

/-- The clock and the invocations so far. -/
abbrev Timeline : Type := ℚ × List Invocation

abbrev Site : Type := Interaction.Site Op CircuitBreaker

abbrev Site.Res (site : Site) : Type := site.op.Res

/-- The clock never goes back, and an invocation takes any time. -/
def step (x : Timeline) (site : Site) (answer : site.Res) (y : Timeline) : Prop :=
  match site, answer with
  | ⟨_, .now⟩, now => x.1 ≤ now ∧ y = (now, x.2)
  | ⟨_, .sleep _⟩, _ => x.1 ≤ y.1 ∧ y.2 = x.2
  | ⟨breaker, .invoke⟩, outcome =>
      ∃ began, x.1 ≤ began ∧ began ≤ y.1 ∧ y.2 = x.2 ++ [⟨breaker, began, outcome, y.1⟩]

end Connector

namespace Invocation

/-- The invocation is one that the breaker lets through after a cooldown. -/
def IsTrial (i : Invocation) : Prop := i.breaker.openedAt ≠ none

def Succeeded (i : Invocation) : Prop := ∃ result, i.outcome = .returned result

/-- Unless it was a trial that failed, it may be followed at any time. -/
def Admits (cfg : ReliabilityConfig) (i : Invocation) (now : ℚ) : Prop :=
  i.IsTrial → i.Succeeded ∨ i.ended + cfg.breakerResetS ≤ now

end Invocation

/-- The law of the breaker: nothing begins while it is open, and after a trial that was not a success
nothing begins for a full cooldown. -/
structure Lawful (cfg : ReliabilityConfig) (h : List Invocation) : Prop where
  closed : ∀ i ∈ h, i.breaker.isOpen cfg i.began = false
  trials : h.IsChain fun i j => i.Admits cfg j.began

/-- What a call may meet: it does not go on retrying when its failures have brought the count to the
threshold, and no trial ends in an error that is not recorded. -/
def Decisive (cfg : ReliabilityConfig) (event : Prog.Event Connector.Site Connector.Site.Res) : Prop :=
  match event with
  | ⟨⟨breaker, .sleep _⟩, _⟩ => (breaker.failures : Int) < cfg.breakerThreshold
  | ⟨⟨breaker, .invoke⟩, .raised e⟩ =>
      e.isConnectorError = true → e.isTransient = false → breaker.openedAt = none
  | _ => True

/-- An invocation may begin. -/
def MayBegin (cfg : ReliabilityConfig) (breaker : CircuitBreaker) (x : Connector.Timeline) : Prop :=
  (∀ openedAt, breaker.openedAt = some openedAt → openedAt + cfg.breakerResetS ≤ x.1) ∧
    ∀ i, x.2.getLast? = some i → i.Admits cfg x.1

def breakerGuar (cfg : ReliabilityConfig) (x : Connector.Timeline) (site : Connector.Site) : Prop :=
  match site with
  | ⟨breaker, .invoke⟩ => MayBegin cfg breaker x
  | _ => True

def breakerSpec (cfg : ReliabilityConfig) :
    Spec Connector.Site Connector.Site.Res Connector.Timeline :=
  .sequential (fun x site answer y => Connector.step x site answer y ∧ Decisive cfg ⟨site, answer⟩)
    (breakerGuar cfg)

/-- The breaker between two attempts: it is open only at the threshold, and since the last trial if that
was not a success. -/
structure Settling (cfg : ReliabilityConfig) (breaker : CircuitBreaker) (x : Connector.Timeline) :
    Prop where
  opened : ∀ openedAt, breaker.openedAt = some openedAt →
    cfg.breakerThreshold ≤ breaker.failures ∧ openedAt ≤ x.1
  last : ∀ i, x.2.getLast? = some i → i.IsTrial →
    i.Succeeded ∨ ∃ openedAt, breaker.openedAt = some openedAt ∧ i.ended ≤ openedAt

variable {cfg : ReliabilityConfig} {breaker : CircuitBreaker} {x y : Connector.Timeline}

/-- A breaker below its threshold has not been opened. -/
theorem Settling.openedAt_eq_none (h : Settling cfg breaker x)
    (hbelow : (breaker.failures : Int) < cfg.breakerThreshold) : breaker.openedAt = none := by
  cases hopened : breaker.openedAt with
  | none => rfl
  | some openedAt =>
      have hreached := (h.opened openedAt hopened).1
      omega

theorem Settling.later (h : Settling cfg breaker x) (htime : x.1 ≤ y.1) (hsame : y.2 = x.2) :
    Settling cfg breaker y where
  opened := fun openedAt hopened =>
    ⟨(h.opened openedAt hopened).1, le_trans (h.opened openedAt hopened).2 htime⟩
  last := by
    rw [hsame]
    exact h.last

/-- A breaker that was never opened, or long enough ago, lets an invocation begin. -/
theorem Settling.mayBegin (h : Settling cfg breaker x)
    (hcooled : ∀ openedAt, breaker.openedAt = some openedAt → openedAt + cfg.breakerResetS ≤ x.1) :
    MayBegin cfg breaker x := by
  refine ⟨hcooled, fun i hlast htrial => ?_⟩
  rcases h.last i hlast htrial with hsucceeded | ⟨openedAt, hopened, hended⟩
  · exact Or.inl hsucceeded
  · right
    have hcool := hcooled openedAt hopened
    linarith

section Code

variable {S : Spec Connector.Site Connector.Site.Res Connector.Timeline}
  {E : Exc → CircuitBreaker → Connector.Timeline → Prop}

theorem wp_now {Q : ℚ → CircuitBreaker → Connector.Timeline → Prop} :
    Act.wp S Connector.now Q E breaker x ↔ ∀ x₁, S.rely x x₁ →
      S.guar x₁ ⟨breaker, .now⟩ ∧ ∀ (now : ℚ) y, S.step x₁ ⟨breaker, .now⟩ now y → Q now breaker y :=
  Iff.rfl

theorem wp_invoke {Q : Outcome → CircuitBreaker → Connector.Timeline → Prop} :
    Act.wp S Connector.invoke Q E breaker x ↔ ∀ x₁, S.rely x x₁ →
      S.guar x₁ ⟨breaker, .invoke⟩ ∧
        ∀ (outcome : Outcome) y, S.step x₁ ⟨breaker, .invoke⟩ outcome y → Q outcome breaker y :=
  Iff.rfl

theorem wp_sleep {delayS : ℚ} {Q : Unit → CircuitBreaker → Connector.Timeline → Prop} :
    Act.wp S (Connector.sleep delayS) Q E breaker x ↔ ∀ x₁, S.rely x x₁ →
      S.guar x₁ ⟨breaker, .sleep delayS⟩ ∧
        ∀ (u : Unit) y, S.step x₁ ⟨breaker, .sleep delayS⟩ u y → Q u breaker y :=
  Iff.rfl

theorem settling_allow (h : Settling cfg breaker x) :
    Act.wp (breakerSpec cfg) (CircuitBreaker.allow Connector.rig cfg)
      (fun allowed breaker x => Settling cfg breaker x ∧ (allowed = true → MayBegin cfg breaker x))
      (fun _ => Settling cfg) breaker x := by
  simp only [CircuitBreaker.allow, Connector.rig_breaker, Connector.rig_now, Act.wp_bind, Act.wp_get]
  cases hopened : breaker.openedAt with
  | none =>
      constructor
      · exact h
      · intro _
        apply h.mayBegin
        intro openedAt hsome
        rw [hopened] at hsome
        contradiction
  | some openedAt =>
      rw [Act.wp_bind, wp_now]
      intro x₁ hx
      subst hx
      constructor
      · trivial
      · rintro now y ⟨⟨htime, rfl⟩, -⟩
        have hlater : Settling cfg breaker (now, x.2) := h.later htime rfl
        constructor
        · exact hlater
        · intro hallowed
          apply hlater.mayBegin
          intro openedAt' hsome
          have hsame : openedAt = openedAt' := Option.some.inj (hopened.symm.trans hsome)
          have hcooled : cfg.breakerResetS ≤ now - openedAt := of_decide_eq_true hallowed
          subst hsame
          change openedAt + cfg.breakerResetS ≤ now
          linarith

/-- Recording the failure of the last invocation: a breaker that it opens is opened no earlier than the
invocation ended. -/
theorem settling_recordFailure {i : Invocation} (h : Settling cfg breaker x)
    (hlast : y.2.getLast? = some i) (hbreaker : i.breaker = breaker) (hended : i.ended = y.1) :
    Act.wp (breakerSpec cfg) (CircuitBreaker.recordFailure Connector.rig cfg) (fun _ => Settling cfg)
      (fun _ => Settling cfg) breaker y := by
  simp only [CircuitBreaker.recordFailure, Connector.rig_breaker, Connector.rig_record, Connector.rig_now,
    Act.wp_bind, Act.wp_get, Act.wp_set]
  by_cases hreached : cfg.breakerThreshold ≤ ((breaker.failures + 1 : Nat) : Int)
  · simp only [if_pos hreached, Act.wp_bind, Act.wp_set]
    rw [wp_now]
    intro y₁ hy
    subst hy
    constructor
    · trivial
    · rintro now z ⟨⟨hnow, rfl⟩, -⟩
      constructor
      · intro openedAt hopened
        obtain rfl := Option.some.inj hopened
        exact ⟨hreached, le_refl _⟩
      · intro j hj _
        obtain rfl := Option.some.inj (hlast.symm.trans hj)
        right
        exact ⟨now, rfl, hended ▸ hnow⟩
  · simp only [if_neg hreached]
    have hnever : breaker.openedAt = none := by
      apply h.openedAt_eq_none
      omega
    constructor
    · intro openedAt hopened
      have hsome : breaker.openedAt = some openedAt := hopened
      rw [hnever] at hsome
      contradiction
    · intro j hj htrial
      obtain rfl := Option.some.inj (hlast.symm.trans hj)
      exact absurd (hbreaker ▸ hnever) htrial

theorem settling_recordSuccess {i : Invocation} (hlast : y.2.getLast? = some i)
    (hsucceeded : i.Succeeded) : Settling cfg .closed y where
  opened := fun _ hopened => nomatch hopened
  last := by
    intro j hj _
    obtain rfl := Option.some.inj (hlast.symm.trans hj)
    exact Or.inl hsucceeded

/-- An invocation whose failure is not recorded was made through a breaker that had not opened. -/
theorem settling_unrecorded {i : Invocation}
    (hlast : y.2.getLast? = some i) (hbreaker : i.breaker = breaker)
    (hnever : breaker.openedAt = none) : Settling cfg breaker y where
  opened := fun _ hopened => nomatch hnever.symm.trans hopened
  last := by
    intro j hj htrial
    obtain rfl := Option.some.inj (hlast.symm.trans hj)
    exact absurd (hbreaker ▸ hnever) htrial

/-- After a failure to retry for, an attempt may begin as soon as the count is below the threshold. -/
theorem settling_attempt (c : Connector) (h : Settling c.config breaker x)
    (hbegin : MayBegin c.config breaker x) :
    Act.wp (breakerSpec c.config) (c.attempt Connector.rig) (fun _ => Settling c.config) (fun _ => Settling c.config)
      breaker x := by
  rw [Connector.attempt, Act.wp_bind, Connector.rig_invoke, wp_invoke]
  intro x₁ hx
  subst hx
  refine ⟨hbegin, fun outcome y hy => ?_⟩
  obtain ⟨⟨began, -, -, htimeline⟩, hdecisive⟩ := hy
  have hlast : y.2.getLast? = some ⟨breaker, began, outcome, y.1⟩ := by
    rw [htimeline]
    exact List.getLast?_concat
  have hfailure := settling_recordFailure h hlast rfl rfl
  cases outcome with
  | returned result => exact settling_recordSuccess hlast ⟨result, rfl⟩
  | timedOut =>
      rw [Act.wp_bind]
      exact hfailure
  | raised e =>
      by_cases htimeout : e.isTimeout = true
      · simp only [if_pos htimeout]
        rw [Act.wp_bind]
        exact hfailure
      · by_cases htransient : e.isTransient = true
        · simp only [if_neg htimeout, if_pos htransient]
          rw [Act.wp_bind]
          exact hfailure
        · by_cases hconnector : e.isConnectorError = true
          · simp only [if_neg htimeout, if_neg htransient, if_pos hconnector]
            rw [Act.wp_throw]
            exact settling_unrecorded hlast rfl
              (hdecisive hconnector (Bool.eq_false_of_not_eq_true htransient))
          · simp only [if_neg htimeout, if_neg htransient, if_neg hconnector]
            rw [Act.wp_bind]
            exact hfailure

/-- The retry loop, by induction on the attempts left. What goes round it is that the next attempt may
begin, if there is one. -/
theorem settling_attempts (c : Connector) (n number : Nat) (last : Option Exc)
    (hcount : 0 < n → (number + n : Int) = c.config.maxRetries + 1)
    (h : Settling c.config breaker x) (hbegin : 0 < n → MayBegin c.config breaker x) :
    Act.wp (breakerSpec c.config) (Connector.attempts c Connector.rig n number last)
      (fun _ => Settling c.config) (fun _ => Settling c.config) breaker x := by
  induction n generalizing number last breaker x with
  | zero =>
      cases last with
      | none => exact h
      | some e => exact h
  | succ n ih =>
      have hlength := hcount (Nat.succ_pos n)
      unfold Connector.attempts
      rw [Act.wp_bind]
      apply Act.wp_mono _ _ (fun _ _ _ h => h) (settling_attempt c h (hbegin (Nat.succ_pos n)))
      intro result breaker y hsettling
      cases result with
      | ok result => exact hsettling
      | error e =>
          by_cases hretry : (number : Int) < c.config.maxRetries
          · simp only [if_pos hretry]
            cases c.backoff number with
            | error e => exact hsettling
            | ok delay =>
                rw [Act.wp_bind, Connector.rig_sleep, wp_sleep]
                intro y₁ hy
                subst hy
                refine ⟨trivial, fun _ z hz => ?_⟩
                obtain ⟨⟨htime, hsame⟩, hbelow⟩ := hz
                have hlater := hsettling.later htime hsame
                apply ih
                · omega
                · exact hlater
                · intro _
                  apply hlater.mayBegin
                  intro openedAt hopened
                  have hnever := hlater.openedAt_eq_none hbelow
                  rw [hnever] at hopened
                  contradiction
          · simp only [if_neg hretry]
            apply ih
            · omega
            · exact hsettling
            · omega

theorem settling_run (c : Connector) (h : Settling c.config breaker x) :
    Act.wp (breakerSpec c.config) c.run (fun _ => Settling c.config) (fun _ => Settling c.config)
      breaker x := by
  rw [Connector.run, Connector.runOn, Act.wp_bind]
  apply Act.wp_mono _ _ (fun _ _ _ h => h) (settling_allow h)
  intro allowed breaker y hallowed
  obtain ⟨hsettling, hbegin⟩ := hallowed
  by_cases hallow : allowed = true
  · simp only [if_pos hallow]
    apply settling_attempts
    · omega
    · exact hsettling
    · intro _
      exact hbegin hallow
  · simp only [if_neg hallow]
    exact hsettling

theorem settling_runs (c : Connector) (n : Nat) (h : Settling c.config breaker x) :
    Act.wp (breakerSpec c.config) (c.runs n) (fun _ => Settling c.config) (fun _ => Settling c.config)
      breaker x := by
  induction n generalizing breaker x with
  | zero => exact h
  | succ n ih =>
      unfold Connector.runs
      rw [Act.wp_bind, Act.wp_tryCatch, Act.wp_bind]
      apply Act.wp_mono _ _ _ (settling_run c h)
      · intro _ breaker y hsettling
        exact ih hsettling
      · intro _ breaker y hsettling
        exact ih hsettling

end Code

/-- An invocation that the breaker lets begin keeps the law. -/
theorem Lawful.step {site : Connector.Site} {answer : site.Res} (h : Lawful cfg x.2)
    (howed : breakerGuar cfg x site) (hstep : Connector.step x site answer y) : Lawful cfg y.2 := by
  obtain ⟨breaker, op⟩ := site
  cases op with
  | now =>
      obtain ⟨-, rfl⟩ := hstep
      exact h
  | sleep delayS =>
      obtain ⟨-, hsame⟩ := hstep
      rw [hsame]
      exact h
  | invoke =>
      obtain ⟨began, hbegan, -, htimeline⟩ := hstep
      obtain ⟨hcooled, hadmits⟩ := howed
      rw [htimeline]
      constructor
      · intro i hi
        rcases List.mem_append.mp hi with hbefore | hnew
        · exact h.closed i hbefore
        · obtain rfl := List.mem_singleton.mp hnew
          cases hopened : breaker.openedAt with
          | none => simp only [CircuitBreaker.isOpen, hopened, Option.any_none]
          | some openedAt =>
              have hreset := hcooled openedAt hopened
              simp only [CircuitBreaker.isOpen, hopened, Option.any_some, decide_eq_false_iff_not]
              linarith
      · rw [List.isChain_append]
        refine ⟨h.trials, List.isChain_singleton _, fun i hi j hj => ?_⟩
        obtain rfl := Option.some.inj hj
        intro htrial
        rcases hadmits i hi htrial with hsucceeded | hreset
        · exact Or.inl hsucceeded
        · exact Or.inr (le_trans hreset hbegan)

/-- Whatever the operations do and however long they take, as long as no call retries past the threshold
and no trial ends unrecorded, the breaker keeps its law through any number of calls. -/
theorem breaker_lawful (c : Connector) (n : Nat) (start : ℚ)
    {trace : List (Prog.Event Connector.Site Connector.Site.Res)}
    {p' : Prog Connector.Site Connector.Site.Res (Except Exc Unit × CircuitBreaker)}
    {x' : Connector.Timeline}
    (h : Prog.Exec Connector.step ((c.runs n).exec .closed) (start, []) trace p' x')
    (hdecisive : ∀ event ∈ trace, Decisive c.config event) : Lawful c.config x'.2 := by
  have hinitial : Settling c.config .closed (start, []) :=
    { opened := fun _ hopened => nomatch hopened
      last := fun _ hlast => nomatch hlast }
  have hkeeps : ∀ (x : Connector.Timeline) (site : Connector.Site) (answer : site.Res) y,
      breakerGuar c.config x site → (Connector.step x site answer y ∧ Decisive c.config ⟨site, answer⟩) →
      Lawful c.config x.2 → Lawful c.config y.2 :=
    fun _ _ _ _ howed hstep hlawful => hlawful.step howed hstep.1
  have hempty : Lawful c.config ([] : List Invocation) :=
    { closed := fun _ hmem => nomatch hmem
      trials := List.isChain_nil }
  let kept (x y : Connector.Timeline) : Prop := Lawful c.config x.2 → Lawful c.config y.2
  have hrefl : ∀ x, kept x x := fun _ hlawful => hlawful
  have htrans : ∀ x y z, kept x y → kept y z → kept x z :=
    fun _ _ _ hfirst hrest hlawful => hrest (hfirst hlawful)
  exact Prog.Exec.preserves_guar hrefl htrans hkeeps (h.with_events hdecisive)
    (settling_runs c n hinitial) hempty

instance Decisive.decidable (cfg : ReliabilityConfig) :
    (event : Prog.Event Connector.Site Connector.Site.Res) → Decidable (Decisive cfg event)
  | ⟨⟨_, .now⟩, _⟩ => .isTrue trivial
  | ⟨⟨_, .sleep _⟩, _⟩ => inferInstanceAs (Decidable (_ < _))
  | ⟨⟨_, .invoke⟩, .returned _⟩ => .isTrue trivial
  | ⟨⟨_, .invoke⟩, .timedOut⟩ => .isTrue trivial
  | ⟨⟨_, .invoke⟩, .raised _⟩ => inferInstanceAs (Decidable (_ → _ → _ = none))

namespace Connector

/-- A dependency that answers at once, its `k`-th invocation with `outcome k`. Between two readings the clock
moves by `tick` seconds. -/
def answering (tick : ℚ) (outcome : Nat → Outcome) (x : Timeline) (site : Site) : site.Res × Timeline :=
  match site with
  | ⟨_, .now⟩ => (x.1 + |tick|, (x.1 + |tick|, x.2))
  | ⟨_, .sleep delayS⟩ => ((), (x.1 + |delayS|, x.2))
  | ⟨breaker, .invoke⟩ =>
      (outcome x.2.length, (x.1, x.2 ++ [⟨breaker, x.1, outcome x.2.length, x.1⟩]))

theorem step_answering (tick : ℚ) (outcome : Nat → Outcome) (x : Timeline) (site : Site) :
    step x site (answering tick outcome x site).1 (answering tick outcome x site).2 := by
  obtain ⟨breaker, op⟩ := site
  cases op with
  | now => exact ⟨le_add_of_nonneg_right (abs_nonneg tick), rfl⟩
  | sleep delayS => exact ⟨le_add_of_nonneg_right (abs_nonneg delayS), rfl⟩
  | invoke => exact ⟨x.1, le_refl _, le_refl _, rfl⟩

def reset : Outcome := .raised (.bass .transient "connection reset")

def crm (cfg : ReliabilityConfig) : Connector := ⟨"crm", cfg, fun _ => "10.0"⟩

def resetRun (cfg : ReliabilityConfig) :=
  Prog.complete (answering 0 fun _ => reset) (((crm cfg).runs 1).exec .closed) (0, [])

/-- The breaker opens at the first failure, and the retry begins a twentieth of a second later. -/
theorem retried_while_open :
    Prog.Exec step (((crm { maxRetries := 1, breakerThreshold := 1 }).runs 1).exec .closed) (0, [])
        (resetRun { maxRetries := 1, breakerThreshold := 1 }).1
        (.pure (resetRun { maxRetries := 1, breakerThreshold := 1 }).2.1)
        (resetRun { maxRetries := 1, breakerThreshold := 1 }).2.2 ∧
      ¬ Lawful { maxRetries := 1, breakerThreshold := 1 }
        (resetRun { maxRetries := 1, breakerThreshold := 1 }).2.2.2 := by
  constructor
  · exact Prog.complete_exec (step_answering 0 fun _ => reset) _ _
  · intro hlawful
    have hclosed := hlawful.closed
    revert hclosed
    decide +kernel

/-- Two failures open the breaker. The first trial fails as well, and the second one succeeds. -/
def recovery : Nat → Outcome
  | 0 | 1 => reset
  | 2 => .raised (.python "ValueError" "no such record")
  | _ => .returned (.str "ok")

def twice : ReliabilityConfig := { maxRetries := 1, breakerThreshold := 2 }

/-- Eight calls, the breaker being asked every ten seconds. -/
def recoveryRun :=
  Prog.complete (answering 10 recovery) (((crm twice).runs 8).exec .closed) (0, [])

end Connector

/-- The breaker opens, turns calls away for thirty seconds, lets a trial through, turns calls away for thirty
seconds again, and closes after the next trial. -/
theorem breaker_lawful_recovering :
    (Connector.recoveryRun.2.2.2.map fun i => (i.breaker.openedAt, i.began)) =
        [(none, 0), (none, 1 / 20), (some (201 / 20), 801 / 20), (some (1001 / 20), 1601 / 20),
          (none, 1601 / 20)] ∧
      Lawful Connector.twice Connector.recoveryRun.2.2.2 :=
  ⟨by decide +kernel, breaker_lawful (Connector.crm Connector.twice) 8 0
    (Prog.complete_exec (Connector.step_answering 10 Connector.recovery) _ _) (by decide +kernel)⟩

end Bass
