import Bass.Proof.Retries
import Bass.Webhook

/-!
# How many requests a webhook tool sends

The registry retries `post`, and `post` retries `http_call`. A call of `run` makes at most
`max_retries + 1` invocations; a second one of `post` is made if the first fails transiently as a whole,
or if it has been abandoned, and it sends requests of its own unless the breaker of the webhook refuses it.
-/

namespace Bass

open Interaction

namespace WebhookConnector

/-! ### What a task has been told -/

/-- How its invocations have ended. -/
def outcomes (told : Told) : List Outcome :=
  told.filterMap fun event => match event with
    | ⟨.invoke, outcome⟩ => some outcome
    | _ => none

/-- The breaker has let it through: it was closed, or has cooled down. -/
def admitted (cfg : ReliabilityConfig) : Told → Bool
  | ⟨.breaker, breaker⟩ :: rest =>
      match CircuitBreaker.openedAt breaker with
      | none => true
      | some _ => match rest with
          | ⟨.now, now⟩ :: _ => !CircuitBreaker.isOpen cfg breaker now
          | _ => false
  | _ => false

variable {cfg : ReliabilityConfig} {told : Told}

theorem outcomes_invoke (told : Told) (outcome : Outcome) :
    outcomes (told ++ [⟨.invoke, outcome⟩]) = outcomes told ++ [outcome] := by
  rw [outcomes, List.filterMap_append]
  rfl

theorem outcomes_other {op : Op} (h : op ≠ .invoke) (told : Told) (answer : op.Res) :
    outcomes (told ++ [⟨op, answer⟩]) = outcomes told := by
  rw [outcomes, List.filterMap_append]
  cases op with
  | invoke => exact absurd rfl h
  | now | sleep | breaker | record => exact List.append_nil _

theorem admitted_append (h : admitted cfg told = true) (more : Told) : admitted cfg (told ++ more) = true := by
  unfold admitted at h ⊢
  split at h
  · rename_i breaker rest
    simp only [List.cons_append]
    cases hopened : CircuitBreaker.openedAt breaker with
    | none => rfl
    | some t =>
        rw [hopened] at h
        cases rest with
        | nil => cases h
        | cons event rest =>
            obtain ⟨op, answer⟩ := event
            cases op with
            | now => exact h
            | invoke | sleep | breaker | record => cases h
  · cases h

/-- The task has been let through, and its invocations have ended so. -/
structure Heard (cfg : ReliabilityConfig) (ends : List Outcome) (told : Told) : Prop where
  admitted : admitted cfg told = true
  outcomes : outcomes told = ends

theorem Heard.other {ends : List Outcome} (h : Heard cfg ends told) {op : Op} (hop : op ≠ .invoke)
    (answer : op.Res) : Heard cfg ends (told ++ [⟨op, answer⟩]) :=
  ⟨admitted_append h.admitted _, (outcomes_other hop told answer).trans h.outcomes⟩

theorem Heard.invoke {ends : List Outcome} (h : Heard cfg ends told) (outcome : Outcome) :
    Heard cfg (ends ++ [outcome]) (told ++ [⟨.invoke, outcome⟩]) :=
  ⟨admitted_append h.admitted _, by rw [outcomes_invoke, h.outcomes]⟩

/-! ### The retry loop -/

section Loop

variable {c : Connector} {n : Nat}

/-- What a task may do at a point: invoke if it has been let through, as long as all its invocations have
failed and they are not too many. -/
def MayCall (c : Connector) (n : Nat) (told : Told) (op : Op) : Prop :=
  op = .invoke → admitted c.config told = true ∧ (outcomes told).length ≤ n ∧
    ∀ outcome ∈ outcomes told, outcome.retryable = true

def loopSpec (c : Connector) (n : Nat) : Spec (Site Op Unit) (fun site => site.op.Res) Told :=
  .sequential (fun told site answer told' => told' = told ++ [⟨site.op, answer⟩])
    fun told site => MayCall c n told site.op

/-- What is known when `run` ends. -/
structure Ended (c : Connector) (n : Nat) (result : Except Exc Json) (told : Told) : Prop where
  asked : admitted c.config told = true → outcomes told ≠ []
  bounded : (outcomes told).length ≤ n + 1
  exhausted : ∀ e, result = .error e → (Outcome.raised e).retryable = true →
    (outcomes told).length = n + 1 ∧ ∀ outcome ∈ outcomes told, outcome.retryable = true

variable {Q : Unit → Unit → Told → Prop} {E : Exc → Unit → Told → Prop}

theorem wp_other {op : Op} (hop : op ≠ .invoke) {Q : op.Res → Unit → Told → Prop}
    (h : ∀ answer, Q answer () (told ++ [⟨op, answer⟩])) :
    Act.wp (loopSpec c n) (Act.perform op) Q E () told := by
  rintro _ rfl
  refine ⟨fun hinvoke => absurd hinvoke hop, ?_⟩
  rintro answer _ rfl
  exact h answer

theorem wp_invoke {Q : Outcome → Unit → Told → Prop} (hmay : MayCall c n told .invoke)
    (h : ∀ outcome, Q outcome () (told ++ [⟨.invoke, outcome⟩])) :
    Act.wp (loopSpec c n) (Act.perform Op.invoke) Q E () told := by
  rintro _ rfl
  refine ⟨hmay, ?_⟩
  rintro outcome _ rfl
  exact h outcome

theorem wp_recordFailure {ends : List Outcome} (h : Heard c.config ends told)
    (hQ : ∀ told, Heard c.config ends told → Q () () told) :
    Act.wp (loopSpec c n) (CircuitBreaker.recordFailure rig c.config) Q E () told := by
  unfold CircuitBreaker.recordFailure
  refine (Act.wp_bind _ _).mpr (wp_other (by simp) fun breaker => ?_)
  have hread := h.other (by simp) breaker
  refine (Act.wp_bind _ _).mpr (wp_other (by simp) fun answer => ?_)
  have hrecorded := hread.other (by simp) answer
  split
  · refine (Act.wp_bind _ _).mpr (wp_other (by simp) fun now => ?_)
    have hlooked := hrecorded.other (by simp) now
    exact wp_other (by simp) fun answer => hQ _ (hlooked.other (by simp) answer)
  · exact hQ _ hrecorded

theorem wp_attempt {ends : List Outcome} (h : Heard c.config ends told) (hfew : ends.length ≤ n)
    (hfailed : ∀ outcome ∈ ends, outcome.retryable = true) :
    Act.wp (loopSpec c n) (c.attempt rig)
      (fun result _ told => ∃ outcome, Heard c.config (ends ++ [outcome]) told ∧
        ∀ e, result = .error e → outcome.retryable = true)
      (fun e _ told => (∃ outcome, Heard c.config (ends ++ [outcome]) told) ∧
        (Outcome.raised e).retryable = false) () told := by
  unfold Connector.attempt
  have hmay : MayCall c n told .invoke := fun _ => ⟨h.admitted, by rwa [h.outcomes], by rwa [h.outcomes]⟩
  refine (Act.wp_bind _ _).mpr (wp_invoke hmay fun outcome => ?_)
  have hheard := h.invoke outcome
  cases outcome with
  | returned result =>
      refine (Act.wp_bind _ _).mpr (wp_other (by simp) fun answer => ?_)
      exact ⟨_, hheard.other (by simp) answer, by simp⟩
  | timedOut =>
      refine (Act.wp_bind _ _).mpr (wp_recordFailure hheard fun told htold => ?_)
      exact ⟨_, htold, fun _ _ => rfl⟩
  | raised e =>
      dsimp only
      split
      · rename_i htimeout
        refine (Act.wp_bind _ _).mpr (wp_recordFailure hheard fun told htold => ?_)
        exact ⟨_, htold, fun _ _ => by simp [Outcome.retryable, htimeout]⟩
      · rename_i htimeout
        split
        · rename_i htransient
          refine (Act.wp_bind _ _).mpr (wp_recordFailure hheard fun told htold => ?_)
          exact ⟨_, htold, fun _ _ => by simp [Outcome.retryable, htransient]⟩
        · rename_i htransient
          split
          · exact ⟨⟨_, hheard⟩, by simp [Outcome.retryable, htimeout, htransient]⟩
          · refine (Act.wp_bind _ _).mpr (wp_recordFailure hheard fun told htold => ?_)
            exact ⟨⟨_, htold⟩, rfl⟩

/-- The loop with `k` attempts left. -/
theorem wp_attempts (k number : Nat) (last : Option Exc) {ends : List Outcome} {told : Told}
    (h : Heard c.config ends told) (hnumber : ends.length = number) (hleft : number + k = n + 1)
    (hfailed : ∀ outcome ∈ ends, outcome.retryable = true) :
    Act.wp (loopSpec c n) (c.attempts rig k number last) (fun value _ told => Ended c n (.ok value) told)
      (fun e _ told => Ended c n (.error e) told) () told := by
  induction k generalizing number last ends told with
  | zero =>
      have hended : ∀ result, Ended c n result told := fun result =>
        { asked := fun _ => by rw [h.outcomes]; exact List.ne_nil_of_length_pos (by omega)
          bounded := by rw [h.outcomes]; omega
          exhausted := fun _ _ _ => by rw [h.outcomes]; exact ⟨by omega, hfailed⟩ }
      cases last <;> exact hended _
  | succ k ih =>
      unfold Connector.attempts
      refine (Act.wp_bind _ _).mpr ?_
      refine Act.wp_mono _ (fun result _ told hout => ?_) (fun e _ told hout => ?_)
        (wp_attempt h (by omega) hfailed)
      · obtain ⟨outcome, hheard, hretryable⟩ := hout
        have hlength : (ends ++ [outcome]).length = number + 1 := by simp [hnumber]
        cases result with
        | ok value =>
            exact
              { asked := fun _ => by rw [hheard.outcomes]; simp
                bounded := by rw [hheard.outcomes]; omega
                exhausted := by simp }
        | error e =>
            have hall : ∀ outcome' ∈ ends ++ [outcome], outcome'.retryable = true := by
              intro outcome' hmem
              rcases List.mem_append.mp hmem with hmem | hmem
              · exact hfailed outcome' hmem
              · rw [List.mem_singleton.mp hmem]
                exact hretryable e rfl
            dsimp only
            split
            · unfold Connector.backoff
              by_cases hfloat : number < 1024
              · rw [if_pos hfloat]
                refine (Act.wp_bind _ _).mpr (wp_other (by simp) fun answer => ?_)
                exact ih (number + 1) (some e) (hheard.other (by simp) answer) hlength (by omega) hall
              · rw [if_neg hfloat]
                refine { asked := fun _ => ?_, bounded := ?_, exhausted := ?_ }
                · rw [hheard.outcomes]
                  simp
                · rw [hheard.outcomes]
                  omega
                · rintro _ ⟨⟩ hoverflow
                  cases hoverflow
            · exact ih (number + 1) (some e) hheard hlength (by omega) hall
      · obtain ⟨⟨outcome, hheard⟩, hdecided⟩ := hout
        refine { asked := fun _ => ?_, bounded := ?_, exhausted := ?_ }
        · rw [hheard.outcomes]
          simp
        · rw [hheard.outcomes, List.length_append, List.length_singleton]
          omega
        · rintro _ ⟨⟩ hretryable
          rw [hdecided] at hretryable
          cases hretryable

theorem wp_allow : Act.wp (loopSpec c n) (CircuitBreaker.allow rig c.config)
    (fun allowed _ told => admitted c.config told = allowed ∧ outcomes told = []) (fun _ _ _ => False) () [] := by
  unfold CircuitBreaker.allow
  refine (Act.wp_bind _ _).mpr (wp_other (by simp) fun breaker => ?_)
  cases hopened : CircuitBreaker.openedAt breaker with
  | none => exact ⟨by simp [admitted, hopened], rfl⟩
  | some t =>
      refine (Act.wp_bind _ _).mpr (wp_other (by simp) fun now => ⟨?_, rfl⟩)
      simp only [admitted, List.nil_append, List.cons_append, hopened, CircuitBreaker.isOpen, Option.any_some]
      rw [← decide_not]
      exact decide_eq_decide.mpr not_lt

/-- `run`, from its start. -/
theorem wp_run (hretries : c.config.maxRetries = n) :
    (run c).wp (loopSpec c n) (fun out told => Ended c n out.1 told) [] := by
  have hwp : Act.wp (loopSpec c n) (c.runOn rig) (fun value _ told => Ended c n (.ok value) told)
      (fun e _ told => Ended c n (.error e) told) () [] := by
    unfold Connector.runOn
    refine (Act.wp_bind _ _).mpr (Act.wp_mono _ (fun allowed _ told hout => ?_)
      (fun _ _ _ hfalse => hfalse.elim) wp_allow)
    obtain ⟨hadmitted, hnone⟩ := hout
    cases allowed with
    | true => exact wp_attempts _ 0 none ⟨hadmitted, hnone⟩ rfl (by omega) (by simp)
    | false =>
        refine { asked := ?_, bounded := ?_, exhausted := ?_ }
        · rw [hadmitted]
          simp
        · rw [hnone]
          exact Nat.zero_le _
        · rintro _ ⟨⟩ hretryable
          cases hretryable
  refine Prog.wp_mono (fun out told h => ?_) _ hwp
  obtain ⟨result, _⟩ := out
  cases result <;> exact h

end Loop

/-! ### The tasks of an execution -/

variable {c : Connector} {n : Nat}

/-- The invocations a task has made, one of which it may be waiting for. -/
def Task.calls (task : Task) : Nat :=
  (outcomes task.told).length + match task.stage with
    | .waiting .. => 1
    | _ => 0

theorem Task.calls_of_busy {task : Task} {code : Code} (hstage : task.stage = .busy code) :
    task.calls = (outcomes task.told).length := by
  unfold Task.calls
  rw [hstage]
  rfl

/-- The code that is left keeps to the loop. -/
def Task.Follows (c : Connector) (n : Nat) (task : Task) : Prop :=
  match task.stage with
  | .queued => task.told = []
  | .busy code => code.wp (loopSpec c n) (fun out told => Ended c n out.1 told) task.told
  | .waiting _ next => ∀ outcome, (next outcome).wp (loopSpec c n) (fun out told => Ended c n out.1 told)
      (task.told ++ [⟨.invoke, outcome⟩])
  | .asleep delayS _ next => (next ()).wp (loopSpec c n) (fun out told => Ended c n out.1 told)
      (task.told ++ [⟨.sleep delayS, ()⟩])
  | .closed ending => ∃ result, Ended c n result task.told ∧ (ending = result ∨ ending = reply <$> result)

structure Task.Sound (c : Connector) (n : Nat) (task : Task) : Prop where
  follows : task.Follows c n
  admitted : task.calls ≠ 0 → admitted c.config task.told = true
  few : task.calls ≤ n + 1
  retried : ∀ k outcome, (outcomes task.told)[k]? = some outcome → k + 1 < task.calls →
    outcome.retryable = true

/-- What a task knows from being told something other than the end of an invocation. -/
theorem Task.Sound.other {task task' : Task} (h : task.Sound c n) {op : Op} (hop : op ≠ .invoke) (answer : op.Res)
    (htold : task'.told = task.told ++ [⟨op, answer⟩]) (hcalls : task'.calls = task.calls)
    (hfollows : task'.Follows c n) : task'.Sound c n where
  follows := hfollows
  admitted := by
    intro hmade
    rw [htold]
    exact admitted_append (h.admitted (hcalls ▸ hmade)) _
  few := hcalls ▸ h.few
  retried := by
    rw [htold, hcalls, outcomes_other hop]
    exact h.retried

theorem Task.Sound.hear {task : Task} (h : task.Sound c n) (op : Op) (hop : op ≠ .invoke) (answer : op.Res)
    {code : Code} (hstage : ∀ future next, task.stage ≠ .waiting future next)
    (hfollows : code.wp (loopSpec c n) (fun out told => Ended c n out.1 told) (task.told ++ [⟨op, answer⟩])) :
    (task.hear op answer code).Sound c n ∧ (task.hear op answer code).calls = task.calls := by
  have hcalls : (task.hear op answer code).calls = task.calls := by
    unfold Task.calls Task.hear
    rw [outcomes_other hop]
    cases hs : task.stage with
    | waiting future next => exact absurd hs (hstage future next)
    | queued | busy | asleep | closed => rfl
  exact ⟨h.other hop answer rfl hcalls hfollows, hcalls⟩

/-- A task that waits is told how its invocation ends. -/
theorem Task.Sound.answered {task : Task} (h : task.Sound c n) {future : Nat} {next : Outcome → Code}
    (hstage : task.stage = .waiting future next) (outcome : Outcome) :
    (task.hear .invoke outcome (next outcome)).Sound c n ∧
      (task.hear .invoke outcome (next outcome)).calls = task.calls := by
  have hmade : task.calls = (outcomes task.told).length + 1 := by
    unfold Task.calls
    rw [hstage]
  have hcalls : (task.hear .invoke outcome (next outcome)).calls = task.calls := by
    rw [hmade]
    change (outcomes (task.told ++ [⟨.invoke, outcome⟩])).length = _
    rw [outcomes_invoke, List.length_append, List.length_singleton]
  have hfollows := h.follows
  unfold Task.Follows at hfollows
  rw [hstage] at hfollows
  refine ⟨⟨hfollows outcome, ?_, hcalls ▸ h.few, ?_⟩, hcalls⟩
  · intro _
    exact admitted_append (h.admitted (by omega)) _
  · intro k earlier hearlier hk
    change (outcomes (task.told ++ [⟨.invoke, outcome⟩]))[k]? = _ at hearlier
    rw [hcalls] at hk
    rw [outcomes_invoke, List.getElem?_append_left (by omega)] at hearlier
    exact h.retried k earlier hearlier hk

/-- A task goes on without having been told anything. -/
theorem Task.Sound.moved {task task' : Task} (h : task.Sound c n) (htold : task'.told = task.told)
    (hcalls : task'.calls = task.calls) (hfollows : task'.Follows c n) : task'.Sound c n where
  follows := hfollows
  admitted := by
    rw [htold, hcalls]
    exact h.admitted
  few := hcalls ▸ h.few
  retried := by
    rw [htold, hcalls]
    exact h.retried

/-- A task that invokes waits. -/
theorem Task.Sound.invoked {task : Task} (h : task.Sound c n) {next : Outcome → Code}
    (hstage : task.stage = .busy (.call ⟨(), .invoke⟩ next)) (future : Nat) :
    Task.Sound c n { task with stage := .waiting future next } ∧
      Task.calls { task with stage := .waiting future next } = task.calls + 1 := by
  have hmade := Task.calls_of_busy hstage
  have hfollows := h.follows
  unfold Task.Follows at hfollows
  rw [hstage] at hfollows
  obtain ⟨hmay, hnext⟩ := hfollows _ rfl
  obtain ⟨hadmitted, hfew, hretried⟩ := hmay rfl
  have hcalls : Task.calls { task with stage := .waiting future next } = task.calls + 1 := by
    rw [hmade]
    rfl
  refine ⟨⟨fun outcome => hnext outcome _ rfl, fun _ => hadmitted, by omega, ?_⟩, hcalls⟩
  intro k outcome hk _
  exact hretried outcome (List.mem_of_getElem? hk)

/-! ### Counting -/

/-- Every post is an invocation of the registry, every request one of its post. -/
structure Counted (c : Connector) (n : Nat) (tasks : List Task) (owners : List Nat) : Prop where
  sound : ∀ (i : Nat) (task : Task), tasks[i]? = some task → task.Sound c n
  posts : ∀ task : Task, tasks[0]? = some task → tasks.length = 1 + task.calls
  requests : ∀ (i : Nat) (task : Task), i ≠ 0 → tasks[i]? = some task → owners.count i = task.calls
  owned : ∀ i ∈ owners, i ≠ 0 ∧ i < tasks.length

theorem getElem?_set_some {α : Type} {l : List α} {i j : Nat} {x y : α} (h : (l.set i x)[j]? = some y) :
    (j = i ∧ y = x) ∨ (j ≠ i ∧ l[j]? = some y) := by
  by_cases hji : j = i
  · subst hji
    have hlt : j < l.length := by
      have := (List.getElem?_eq_some_iff.mp h).1
      rwa [List.length_set] at this
    rw [List.getElem?_set_self hlt] at h
    exact .inl ⟨rfl, (Option.some.inj h).symm⟩
  · rw [List.getElem?_set_ne (Ne.symm hji)] at h
    exact .inr ⟨hji, h⟩

/-- A task goes on without an invocation. -/
theorem Counted.put {tasks : List Task} {owners : List Nat} (h : Counted c n tasks owners) {i : Nat}
    {task task' : Task} (hi : tasks[i]? = some task) (hsound : task'.Sound c n) (hcalls : task'.calls = task.calls) :
    Counted c n (tasks.set i task') owners where
  sound := by
    intro j other hj
    rcases getElem?_set_some hj with ⟨-, rfl⟩ | ⟨-, hj⟩
    · exact hsound
    · exact h.sound j other hj
  posts := by
    intro first hfirst
    rw [List.length_set]
    rcases getElem?_set_some hfirst with ⟨rfl, rfl⟩ | ⟨-, hfirst⟩
    · rw [hcalls]
      exact h.posts task hi
    · exact h.posts first hfirst
  requests := by
    intro j other hne hj
    rcases getElem?_set_some hj with ⟨rfl, rfl⟩ | ⟨-, hj⟩
    · rw [hcalls]
      exact h.requests j task hne hi
    · exact h.requests j other hne hj
  owned := by
    intro j hj
    rw [List.length_set]
    exact h.owned j hj

theorem sound_queued (submitted : ℚ) : Task.Sound c n ⟨submitted, .queued, []⟩ :=
  ⟨rfl, fun h => absurd rfl h, Nat.zero_le _, fun _ _ h => nomatch h⟩

/-- The registry invokes `post`. -/
theorem Counted.post {tasks : List Task} {owners : List Nat} (h : Counted c n tasks owners) {task task' : Task}
    (hi : tasks[0]? = some task) (hsound : task'.Sound c n) (hcalls : task'.calls = task.calls + 1)
    (submitted : ℚ) : Counted c n (tasks.set 0 task' ++ [⟨submitted, .queued, []⟩]) owners where
  sound := by
    intro j other hj
    by_cases hlt : j < (tasks.set 0 task').length
    · rw [List.getElem?_append_left hlt] at hj
      rcases getElem?_set_some hj with ⟨-, rfl⟩ | ⟨-, hj⟩
      · exact hsound
      · exact h.sound j other hj
    · rw [List.getElem?_append_right (by omega)] at hj
      obtain rfl := List.mem_singleton.mp (List.mem_of_getElem? hj)
      exact sound_queued submitted
  posts := by
    intro first hfirst
    have hpos : 0 < (tasks.set 0 task').length := by
      rw [List.length_set]
      exact (List.getElem?_eq_some_iff.mp hi).1
    rw [List.getElem?_append_left hpos] at hfirst
    rcases getElem?_set_some hfirst with ⟨-, rfl⟩ | ⟨hne, -⟩
    · have hposts := h.posts task hi
      simp only [List.length_append, List.length_set, List.length_singleton]
      omega
    · exact absurd rfl hne
  requests := by
    intro j other hne hj
    by_cases hlt : j < (tasks.set 0 task').length
    · rw [List.getElem?_append_left hlt] at hj
      rcases getElem?_set_some hj with ⟨rfl, -⟩ | ⟨-, hj⟩
      · exact absurd rfl hne
      · exact h.requests j other hne hj
    · rw [List.getElem?_append_right (by omega)] at hj
      obtain rfl := List.mem_singleton.mp (List.mem_of_getElem? hj)
      rw [List.length_set] at hlt
      exact List.count_eq_zero.mpr fun hmem => hlt (h.owned j hmem).2
  owned := by
    intro j hj
    obtain ⟨hne, hlt⟩ := h.owned j hj
    simp only [List.length_append, List.length_set, List.length_singleton]
    exact ⟨hne, by omega⟩

/-- A post invokes `http_call`. -/
theorem Counted.request {tasks : List Task} {owners : List Nat} (h : Counted c n tasks owners) {i : Nat}
    {task task' : Task} (hne : i ≠ 0) (hi : tasks[i]? = some task) (hsound : task'.Sound c n)
    (hcalls : task'.calls = task.calls + 1) : Counted c n (tasks.set i task') (owners ++ [i]) where
  sound := by
    intro j other hj
    rcases getElem?_set_some hj with ⟨-, rfl⟩ | ⟨-, hj⟩
    · exact hsound
    · exact h.sound j other hj
  posts := by
    intro first hfirst
    rw [List.length_set]
    rcases getElem?_set_some hfirst with ⟨rfl, -⟩ | ⟨-, hfirst⟩
    · exact absurd rfl hne
    · exact h.posts first hfirst
  requests := by
    intro j other hj₀ hj
    rw [List.count_append]
    rcases getElem?_set_some hj with ⟨rfl, rfl⟩ | ⟨hji, hj⟩
    · rw [hcalls, h.requests j task hne hi, List.count_singleton_self]
    · rw [h.requests j other hj₀ hj, List.count_singleton, if_neg (by simpa using Ne.symm hji), Nat.add_zero]
  owned := by
    intro j hj
    rw [List.length_set]
    rcases List.mem_append.mp hj with hj | hj
    · exact h.owned j hj
    · obtain rfl := List.mem_singleton.mp hj
      exact ⟨hne, (List.getElem?_eq_some_iff.mp hi).1⟩

/-! ### Steps -/

namespace Delivery

variable {shared : Bool} {s s' : Delivery}

/-- What a step does. -/
inductive Moves (shared : Bool) (c : Connector) (s : Delivery) : Label → Delivery → Prop where
  | pass (time : ℚ≥0) : Moves shared c s (.pass time) { s with clock := s.clock + time }
  | go {i : Nat} {task : Task} {code : Code} (hi : s.tasks[i]? = some task) (hstage : task.stage = .busy code) :
      Moves shared c s (.go i) (s.advance shared i task code)
  | answer {i future : Nat} {task : Task} {next : Outcome → Code} {since : ℚ} {ending : Connector.Ending}
      (hi : s.tasks[i]? = some task) (hstage : task.stage = .waiting future next)
      (hawaited : s.awaited i future = some (since, some ending)) :
      Moves shared c s (.answer i) (s.put i (task.hear .invoke ending.outcome (next ending.outcome)))
  | timeOut {i future : Nat} {task : Task} {next : Outcome → Code} (hi : s.tasks[i]? = some task)
      (hstage : task.stage = .waiting future next) :
      Moves shared c s (.timeOut i) (s.put i (task.hear .invoke Outcome.timedOut (next .timedOut)))
  | wake {i : Nat} {task : Task} {delayS wakes : ℚ} {next : Unit → Code} (hi : s.tasks[i]? = some task)
      (hstage : task.stage = .asleep delayS wakes next) :
      Moves shared c s (.wake i) (s.put i (task.hear (.sleep delayS) () (next ())))
  | start {i : Nat} {task : Task} (hi : s.tasks[i]? = some task) (hstage : task.stage = .queued) :
      Moves shared c s (.start i) (s.put i { task with stage := .busy (run c) })
  | send {j : Nat} {request : HttpRequest} (hj : s.requests[j]? = some request) :
      Moves shared c s (.send j) { s with requests := s.requests.set j { request with status := .running } }
  | respond {j : Nat} {request : HttpRequest} (hj : s.requests[j]? = some request) (outcome : HttpOutcome) :
      Moves shared c s (.respond j outcome)
        { s with requests := s.requests.set j { request with status := .finished (httpCall outcome) } }

theorem moves_of_step {label : Label} (h : s.step shared c label = some s') : Moves shared c s label s' := by
  cases label with
  | pass time =>
      cases h
      exact .pass time
  | go i =>
      simp only [step] at h
      split at h
      · rename_i hi
        cases h
        exact .go hi rfl
      · cases h
  | answer i =>
      simp only [step] at h
      split at h
      · rename_i hi
        split at h
        · rename_i hawaited
          cases h
          exact .answer hi rfl hawaited
        · cases h
      · cases h
  | timeOut i =>
      simp only [step] at h
      split at h
      · rename_i hi
        split at h
        · split at h
          · cases h
            exact .timeOut hi rfl
          · cases h
        · cases h
      · cases h
  | wake i =>
      simp only [step] at h
      split at h
      · rename_i hi
        split at h
        · cases h
          exact .wake hi rfl
        · cases h
      · cases h
  | start i =>
      simp only [step] at h
      split at h
      · rename_i hi
        split at h
        · cases h
          exact .start hi rfl
        · cases h
      · cases h
  | send j =>
      simp only [step] at h
      split at h
      · rename_i hj
        split at h
        · cases h
          exact .send hj
        · cases h
      · cases h
  | respond j outcome =>
      simp only [step] at h
      split at h
      · rename_i hj
        cases h
        exact .respond hj outcome
      · cases h

/-- Who has made the requests. -/
def owners (s : Delivery) : List Nat := s.requests.map HttpRequest.task

theorem owners_set {j : Nat} {request : HttpRequest} (hj : s.requests[j]? = some request)
    (status : Connector.Status) :
    owners { s with requests := s.requests.set j { request with status := status } } = s.owners := by
  unfold owners
  rw [List.map_set]
  have hsame : (s.requests.map HttpRequest.task)[j]? = some request.task := by
    rw [List.getElem?_map, hj]
    rfl
  refine List.ext_getElem? fun k => ?_
  by_cases hk : k = j
  · subst hk
    rw [List.getElem?_set_self (List.getElem?_eq_some_iff.mp hsame).1]
    exact hsame.symm
  · rw [List.getElem?_set_ne (Ne.symm hk)]

theorem counted_invoke {i : Nat} {task : Task} {next : Outcome → Code} (h : Counted c n s.tasks s.owners)
    (hi : s.tasks[i]? = some task) (hstage : task.stage = .busy (.call ⟨(), .invoke⟩ next)) :
    Counted c n (s.invoke i task next).tasks (s.invoke i task next).owners := by
  unfold invoke
  split
  · rename_i hzero
    subst hzero
    have hinvoked := (h.sound 0 task hi).invoked hstage s.tasks.length
    exact h.post hi hinvoked.1 hinvoked.2 s.clock
  · rename_i hpost
    have hinvoked := (h.sound i task hi).invoked hstage s.requests.length
    simpa [put, owners] using h.request hpost hi hinvoked.1 hinvoked.2

theorem counted_recordFor {i : Nat} {tasks : List Task} (h : Counted c n tasks s.owners) (breaker : CircuitBreaker) :
    Counted c n tasks (s.recordFor shared i breaker).owners := by
  unfold recordFor
  split <;> exact h

theorem tasks_recordFor (i : Nat) (breaker : CircuitBreaker) : (s.recordFor shared i breaker).tasks = s.tasks := by
  unfold recordFor
  split <;> rfl

theorem counted_advance {i : Nat} {task : Task} {code : Code} (h : Counted c n s.tasks s.owners)
    (hi : s.tasks[i]? = some task) (hstage : task.stage = .busy code) :
    Counted c n (s.advance shared i task code).tasks (s.advance shared i task code).owners := by
  have hsound := h.sound i task hi
  have hfollows := hsound.follows
  have hidle : ∀ future next, task.stage ≠ .waiting future next := by simp [hstage]
  unfold Task.Follows at hfollows
  rw [hstage] at hfollows
  have hcalls := Task.calls_of_busy hstage
  match code with
  | .pure (result, _) =>
      have hclosed : ∀ ending, ending = result ∨ ending = reply <$> result →
          Task.Sound c n { task with stage := .closed ending } := fun ending hending =>
        hsound.moved rfl hcalls.symm ⟨result, hfollows, hending⟩
      refine h.put hi (hclosed _ ?_) hcalls.symm
      split
      · exact .inl rfl
      · exact .inr rfl
  | .call ⟨_, .now⟩ next =>
      have hheard := hsound.hear .now (by simp) s.clock hidle ((hfollows _ rfl).2 _ _ rfl)
      exact h.put hi hheard.1 hheard.2
  | .call ⟨_, .invoke⟩ next => exact counted_invoke h hi hstage
  | .call ⟨_, .sleep delayS⟩ next =>
      have hasleep : Task.Sound c n { task with stage := .asleep delayS (s.clock + delayS) next } :=
        hsound.moved rfl hcalls.symm ((hfollows _ rfl).2 _ _ rfl)
      exact h.put hi hasleep hcalls.symm
  | .call ⟨_, .breaker⟩ next =>
      have hheard := hsound.hear .breaker (by simp) (s.breakerOf shared i) hidle
        ((hfollows _ rfl).2 _ _ rfl)
      exact h.put hi hheard.1 hheard.2
  | .call ⟨_, .record breaker⟩ next =>
      have hheard := hsound.hear (.record breaker) (by simp) () hidle ((hfollows _ rfl).2 _ _ rfl)
      change Counted c n ((s.recordFor shared i breaker).tasks.set i _) (s.recordFor shared i breaker).owners
      rw [tasks_recordFor]
      exact counted_recordFor (h.put hi hheard.1 hheard.2) breaker

/-- One step keeps the count. -/
theorem counted_step {label : Label} (hretries : c.config.maxRetries = n)
    (h : Counted c n s.tasks s.owners) (hstep : s.step shared c label = some s') :
    Counted c n s'.tasks s'.owners := by
  cases moves_of_step hstep with
  | pass time => exact h
  | go hi hstage => exact counted_advance h hi hstage
  | @answer i future task next since ending hi hstage =>
      have hanswered := (h.sound i task hi).answered hstage ending.outcome
      exact h.put hi hanswered.1 hanswered.2
  | timeOut hi hstage =>
      have hanswered := (h.sound _ _ hi).answered hstage .timedOut
      exact h.put hi hanswered.1 hanswered.2
  | @wake i task delayS wakes next hi hstage =>
      have hfollows := (h.sound i task hi).follows
      unfold Task.Follows at hfollows
      rw [hstage] at hfollows
      have hheard := (h.sound i task hi).hear (.sleep delayS) (by simp) () (by simp [hstage]) hfollows
      exact h.put hi hheard.1 hheard.2
  | @start i task hi hstage =>
      have hsound := h.sound i task hi
      have htold : task.told = [] := by
        have hfollows := hsound.follows
        unfold Task.Follows at hfollows
        rwa [hstage] at hfollows
      have hcalls : Task.calls { task with stage := .busy (run c) } = task.calls := by
        unfold Task.calls
        rw [hstage]
      refine h.put hi (hsound.moved rfl hcalls ?_) hcalls
      change (run c).wp _ _ task.told
      rw [htold]
      exact wp_run hretries
  | send hj =>
      rw [owners_set hj]
      exact h
  | respond hj =>
      rw [owners_set hj]
      exact h

/-- What the registry has heard of its posts, as long as it has abandoned none. -/
structure Followed (tasks : List Task) : Prop where
  heard : ∀ caller : Task, tasks[0]? = some caller → ∀ k outcome, (outcomes caller.told)[k]? = some outcome →
    ∃ (task : Task) (ending : Connector.Ending), tasks[k + 1]? = some task ∧ task.stage = .closed ending ∧
      ending.outcome = outcome
  waits : ∀ caller : Task, tasks[0]? = some caller → ∀ future next, caller.stage = .waiting future next →
    future = (outcomes caller.told).length + 1

/-- A task that is not over goes on, and the registry has heard nothing new. -/
theorem Followed.put {tasks : List Task} (h : Followed tasks) {i : Nat} {task task' : Task}
    (hi : tasks[i]? = some task) (hlive : ∀ ending, task.stage ≠ .closed ending)
    (hheard : i = 0 → outcomes task'.told = outcomes task.told ∧ ∀ future next, task'.stage ≠ .waiting future next) :
    Followed (tasks.set i task') := by
  have hkept : ∀ k (other : Task) ending, tasks[k + 1]? = some other → other.stage = .closed ending →
      (tasks.set i task')[k + 1]? = some other := by
    intro k other ending hother hclosed
    by_cases hki : i = k + 1
    · subst hki
      obtain rfl := Option.some.inj (hi.symm.trans hother)
      exact absurd hclosed (hlive ending)
    · rw [List.getElem?_set_ne hki]
      exact hother
  have hbefore : ∀ caller : Task, tasks[0]? = some caller → ∀ k outcome,
      (outcomes caller.told)[k]? = some outcome →
        ∃ (other : Task) (ending : Connector.Ending), (tasks.set i task')[k + 1]? = some other ∧
          other.stage = .closed ending ∧ ending.outcome = outcome := by
    intro caller hcaller k outcome hk
    obtain ⟨other, ending, hother, hclosed, heq⟩ := h.heard caller hcaller k outcome hk
    exact ⟨other, ending, hkept k other ending hother hclosed, hclosed, heq⟩
  constructor
  · intro caller hcaller k outcome hk
    rcases getElem?_set_some hcaller with ⟨rfl, rfl⟩ | ⟨-, hcaller⟩
    · rw [(hheard rfl).1] at hk
      exact hbefore task hi k outcome hk
    · exact hbefore caller hcaller k outcome hk
  · intro caller hcaller future next hstage
    rcases getElem?_set_some hcaller with ⟨rfl, rfl⟩ | ⟨-, hcaller⟩
    · exact absurd hstage ((hheard rfl).2 future next)
    · exact h.waits caller hcaller future next hstage

/-- The registry invokes `post`. -/
theorem Followed.post {tasks : List Task} (h : Followed tasks) {task : Task} (hi : tasks[0]? = some task)
    (task' : Task) (htold : task'.told = task.told)
    (hwaits : ∀ future next, task'.stage = .waiting future next → future = (outcomes task.told).length + 1)
    (post : Task) : Followed (tasks.set 0 task' ++ [post]) := by
  have hlength : 0 < (tasks.set 0 task').length := by
    rw [List.length_set]
    exact (List.getElem?_eq_some_iff.mp hi).1
  have hcaller : (tasks.set 0 task' ++ [post])[0]? = some task' := by
    rw [List.getElem?_append_left hlength, List.getElem?_set_self (by rwa [List.length_set] at hlength)]
  constructor
  · intro caller hfirst k outcome hk
    obtain rfl := Option.some.inj (hcaller.symm.trans hfirst)
    rw [htold] at hk
    obtain ⟨other, ending, hother, hclosed, heq⟩ := h.heard task hi k outcome hk
    refine ⟨other, ending, ?_, hclosed, heq⟩
    have hlt : k + 1 < (tasks.set 0 task').length := by
      rw [List.length_set]
      exact (List.getElem?_eq_some_iff.mp hother).1
    rw [List.getElem?_append_left hlt, List.getElem?_set_ne (by omega)]
    exact hother
  · intro caller hfirst future next hstage
    obtain rfl := Option.some.inj (hcaller.symm.trans hfirst)
    rw [htold]
    exact hwaits future next hstage

/-- The registry hears how its post has ended. -/
theorem Followed.answered {tasks : List Task} (h : Followed tasks) {caller post : Task} {future : Nat}
    {next : Outcome → Code} {ending : Connector.Ending} (hi : tasks[0]? = some caller)
    (hstage : caller.stage = .waiting future next) (hpost : tasks[future]? = some post)
    (hclosed : post.stage = .closed ending) :
    Followed (tasks.set 0 (caller.hear .invoke ending.outcome (next ending.outcome))) := by
  obtain rfl := h.waits caller hi future next hstage
  have hcaller : (tasks.set 0 (caller.hear .invoke ending.outcome (next ending.outcome)))[0]? =
      some (caller.hear .invoke ending.outcome (next ending.outcome)) :=
    List.getElem?_set_self (List.getElem?_eq_some_iff.mp hi).1
  constructor
  · intro first hfirst k outcome hk
    obtain rfl := Option.some.inj (hcaller.symm.trans hfirst)
    change (outcomes (caller.told ++ [⟨.invoke, ending.outcome⟩]))[k]? = _ at hk
    rw [outcomes_invoke] at hk
    by_cases hlt : k < (outcomes caller.told).length
    · rw [List.getElem?_append_left hlt] at hk
      obtain ⟨other, ending', hother, hclosed', heq⟩ := h.heard caller hi k outcome hk
      exact ⟨other, ending', by rwa [List.getElem?_set_ne (by omega)], hclosed', heq⟩
    · rw [List.getElem?_append_right (by omega)] at hk
      obtain rfl := List.mem_singleton.mp (List.mem_of_getElem? hk)
      obtain rfl : k = (outcomes caller.told).length := by
        have hbound := (List.getElem?_eq_some_iff.mp hk).1
        rw [List.length_singleton] at hbound
        omega
      exact ⟨post, ending, by rwa [List.getElem?_set_ne (by omega)], hclosed, rfl⟩
  · intro first hfirst future' next' hwaiting
    obtain rfl := Option.some.inj (hcaller.symm.trans hfirst)
    cases hwaiting

theorem followed_advance {i : Nat} {task : Task} {code : Code} (h : Followed s.tasks)
    (hcounted : Counted c n s.tasks s.owners) (hi : s.tasks[i]? = some task) (hstage : task.stage = .busy code) :
    Followed (s.advance shared i task code).tasks := by
  have hlive : ∀ ending, task.stage ≠ .closed ending := by simp [hstage]
  match code with
  | .pure (result, _) => exact h.put hi hlive fun _ => ⟨rfl, by simp⟩
  | .call ⟨_, .now⟩ next => exact h.put hi hlive fun _ => ⟨outcomes_other (by simp) _ _, by simp [Task.hear]⟩
  | .call ⟨_, .invoke⟩ next =>
      change Followed (s.invoke i task next).tasks
      unfold invoke
      split
      · rename_i hzero
        subst hzero
        refine h.post hi { task with stage := .waiting s.tasks.length next } rfl ?_ _
        rintro _ _ ⟨⟩
        have hposts := hcounted.posts task hi
        rw [Task.calls_of_busy hstage] at hposts
        omega
      · rename_i hpost
        exact h.put hi hlive fun hzero => absurd hzero hpost
  | .call ⟨_, .sleep delayS⟩ next => exact h.put hi hlive fun _ => ⟨rfl, by simp⟩
  | .call ⟨_, .breaker⟩ next => exact h.put hi hlive fun _ => ⟨outcomes_other (by simp) _ _, by simp [Task.hear]⟩
  | .call ⟨_, .record breaker⟩ next =>
      change Followed ((s.recordFor shared i breaker).tasks.set i _)
      rw [tasks_recordFor]
      exact h.put hi hlive fun _ => ⟨outcomes_other (by simp) _ _, by simp [Task.hear]⟩

theorem followed_step {label : Label} (h : Followed s.tasks) (hcounted : Counted c n s.tasks s.owners)
    (hstep : s.step shared c label = some s') (hkept : label ≠ .timeOut 0) : Followed s'.tasks := by
  cases moves_of_step hstep with
  | pass time => exact h
  | go hi hstage => exact followed_advance h hcounted hi hstage
  | @answer i future task next since ending hi hstage hawaited =>
      by_cases hzero : i = 0
      · subst hzero
        obtain ⟨post, hpost, hended⟩ := Option.map_eq_some_iff.mp hawaited
        have hclosed : post.stage = .closed ending := by
          have hending : post.stage.ending = some ending := congrArg Prod.snd hended
          unfold Stage.ending at hending
          split at hending
          · rename_i heq
            rw [heq, Option.some.inj hending]
          · cases hending
        exact h.answered hi hstage hpost hclosed
      · exact h.put hi (by simp [hstage]) fun hzero' => absurd hzero' hzero
  | @timeOut i future task next hi hstage =>
      exact h.put hi (by simp [hstage]) fun hzero => absurd (congrArg Label.timeOut hzero) hkept
  | wake hi hstage =>
      exact h.put hi (by simp [hstage]) fun _ => ⟨outcomes_other (by simp) _ _, by simp [Task.hear]⟩
  | start hi hstage => exact h.put hi (by simp [hstage]) fun _ => ⟨rfl, by simp⟩
  | send hj => exact h
  | respond hj => exact h

/-! ### Runs -/

theorem counted_execute (c : Connector) (hretries : c.config.maxRetries = n) (clock : ℚ)
    (webhook registry : CircuitBreaker) :
    Counted c n (execute c clock webhook registry).tasks (execute c clock webhook registry).owners where
  sound := by
    intro i task hi
    obtain rfl := List.mem_singleton.mp (List.mem_of_getElem? hi)
    exact ⟨wp_run hretries, fun h => absurd rfl h, Nat.zero_le _, fun _ _ h => nomatch h⟩
  posts := by
    rintro task ⟨⟩
    rfl
  requests := by
    intro i task hne hi
    have hlt := (List.getElem?_eq_some_iff.mp hi).1
    exact absurd (Nat.lt_one_iff.mp hlt) hne
  owned := by
    intro i hi
    cases hi

theorem followed_execute (c : Connector) (clock : ℚ) (webhook registry : CircuitBreaker) :
    Followed (execute c clock webhook registry).tasks := by
  constructor
  · rintro caller ⟨⟩ k outcome hk
    cases hk
  · rintro caller ⟨⟩ future next hstage
    cases hstage

theorem counted_follow (hretries : c.config.maxRetries = n) {labels : List Label}
    (h : Counted c n s.tasks s.owners) (hrun : s.follow shared c labels = some s') :
    Counted c n s'.tasks s'.owners ∧ (.timeOut 0 ∉ labels → Followed s.tasks → Followed s'.tasks) := by
  induction labels generalizing s with
  | nil =>
      cases hrun
      exact ⟨h, fun _ hfollowed => hfollowed⟩
  | cons label labels ih =>
      obtain ⟨s₁, hstep, hrest⟩ := Option.bind_eq_some_iff.mp hrun
      obtain ⟨hcounted, hfollowed⟩ := ih (counted_step hretries h hstep) hrest
      refine ⟨hcounted, fun hkept hbefore => ?_⟩
      obtain ⟨hlabel, hlabels⟩ := not_or.mp (mt List.mem_cons.mpr hkept)
      exact hfollowed hlabels (followed_step hbefore h hstep (Ne.symm hlabel))

/-! ### Requests of one execution -/

/-- The breaker of the webhook has refused every post but the first. -/
def Refuses (cfg : ReliabilityConfig) (s : Delivery) : Prop :=
  ∀ (i : Nat) (task : Task), 2 ≤ i → s.tasks[i]? = some task → admitted cfg task.told = false

/-- The requests of the first post, as many as it may make, have all failed transiently. -/
def Exhausted (n : Nat) (s : Delivery) : Prop :=
  ∃ post : Task, s.tasks[1]? = some post ∧ (outcomes post.told).length = n + 1 ∧
    ∀ outcome ∈ outcomes post.told, outcome.retryable = true

theorem sent_le (s : Delivery) : s.sent ≤ s.owners.length := by
  unfold sent owners
  rw [List.length_map]
  exact List.countP_le_length

theorem sent_of_settled (h : s.Settled) : s.sent = s.owners.length := by
  unfold sent owners
  rw [List.length_map, List.countP_eq_length]
  intro request hmem
  obtain ⟨ending, hstatus⟩ := h.2 request hmem
  rw [hstatus]

theorem length_of_first (h : Counted c n s.tasks s.owners) (hfirst : ∀ i ∈ s.owners, i = 1) :
    s.owners.length ≤ n + 1 := by
  rw [← List.count_eq_length.mpr fun i hi => (hfirst i hi).symm]
  cases hpost : s.tasks[1]? with
  | none =>
      rw [List.count_eq_zero.mpr]
      · exact Nat.zero_le _
      · intro hmem
        have hlt := (h.owned 1 hmem).2
        exact absurd hpost (by rw [List.getElem?_eq_getElem hlt]; simp)
  | some post =>
      rw [h.requests 1 post Nat.one_ne_zero hpost]
      exact (h.sound 1 post hpost).few

/-- If no later post is let through, all requests are the first one's. -/
theorem first_of_refuses (h : Counted c n s.tasks s.owners) (hrefuses : s.Refuses c.config) :
    ∀ i ∈ s.owners, i = 1 := by
  intro i hi
  obtain ⟨hne, hlt⟩ := h.owned i hi
  by_contra hother
  have hpost := List.getElem?_eq_getElem hlt
  have hcalls := h.requests i _ hne hpost
  have hmade : s.tasks[i].calls ≠ 0 := by
    rw [← hcalls]
    exact (List.count_pos_iff.mpr hi).ne'
  have hadmitted := (h.sound i _ hpost).admitted hmade
  rw [hrefuses i _ (by omega) hpost] at hadmitted
  cases hadmitted

/-- Without retries there is one post. -/
theorem first_of_zero (h : Counted c 0 s.tasks s.owners) : ∀ i ∈ s.owners, i = 1 := by
  intro i hi
  obtain ⟨hne, hlt⟩ := h.owned i hi
  have hcaller := List.getElem?_eq_getElem (Nat.zero_lt_of_lt hlt)
  have hposts := h.posts _ hcaller
  have hfew := (h.sound 0 _ hcaller).few
  omega

theorem error_of_retryable {ending : Connector.Ending} (h : ending.outcome.retryable = true) :
    ∃ e, ending = .error e := by
  cases ending with
  | ok result => cases h
  | error e => exact ⟨e, rfl⟩

/-- A second post is made for one reason only, if none is abandoned. -/
theorem exhausted_of_second (h : Counted c n s.tasks s.owners) (hfollowed : Followed s.tasks)
    (hsecond : 2 < s.tasks.length) : s.Exhausted n := by
  have hcaller := List.getElem?_eq_getElem (Nat.zero_lt_of_lt hsecond)
  have hposts := h.posts _ hcaller
  have hheard : (outcomes s.tasks[0].told).length + 1 ≥ s.tasks[0].calls := by
    unfold Task.calls
    split <;> omega
  have hfirst := List.getElem?_eq_getElem (l := outcomes s.tasks[0].told) (i := 0) (by omega)
  have hretryable := (h.sound 0 _ hcaller).retried 0 _ hfirst (by omega)
  obtain ⟨post, ending, hpost, hclosed, heq⟩ := hfollowed.heard _ hcaller 0 _ hfirst
  rw [← heq] at hretryable
  obtain ⟨e, rfl⟩ := error_of_retryable hretryable
  have hfollows := (h.sound 1 post hpost).follows
  unfold Task.Follows at hfollows
  rw [hclosed] at hfollows
  obtain ⟨result, hended, hresult⟩ := hfollows
  have hraised : result = .error e := by
    rcases hresult with hresult | hresult
    · exact hresult.symm
    · cases result with
      | ok value => cases hresult
      | error e' => exact hresult.symm
  exact ⟨post, hpost, hended.exhausted e hraised hretryable⟩

/-- A post that was let through, and is over, has sent a request. -/
theorem calls_of_admitted {task : Task} {ending : Connector.Ending} (h : task.Sound c n)
    (hclosed : task.stage = .closed ending) (hadmitted : admitted c.config task.told = true) : 0 < task.calls := by
  have hfollows := h.follows
  unfold Task.Follows at hfollows
  rw [hclosed] at hfollows
  obtain ⟨result, hended, -⟩ := hfollows
  have hpos := List.length_pos_iff.mpr (hended.asked hadmitted)
  unfold Task.calls
  omega

/-- In a settled execution that has abandoned no post, a second post that is let through sends too much. -/
theorem length_of_admitted (h : Counted c n s.tasks s.owners) (hfollowed : Followed s.tasks) (hsettled : s.Settled)
    {i : Nat} {task : Task} (hlater : 2 ≤ i) (hi : s.tasks[i]? = some task)
    (hadmitted : admitted c.config task.told = true) : n + 1 < s.owners.length := by
  have hlt : i < s.tasks.length := (List.getElem?_eq_some_iff.mp hi).1
  obtain ⟨post, hpost, hlength, -⟩ := exhausted_of_second h hfollowed (by omega)
  obtain ⟨ending, hclosed⟩ := hsettled.1 task (List.mem_of_getElem? hi)
  have hfirst : n + 1 ≤ s.owners.count 1 := by
    rw [h.requests 1 post Nat.one_ne_zero hpost]
    unfold Task.calls
    omega
  have hsecond : 0 < s.owners.count i := by
    rw [h.requests i task (by omega) hi]
    exact calls_of_admitted (h.sound i task hi) hclosed hadmitted
  have hboth : s.owners.count 1 + s.owners.count i ≤ s.owners.length := by
    have hsplit := List.length_eq_countP_add_countP (fun j => j == 1) (l := s.owners)
    have hrest : s.owners.count i ≤ s.owners.countP fun j => !(j == 1) := by
      refine List.countP_mono_left fun j _ hj => ?_
      have hji : j = i := by simpa using hj
      simp only [hji, Bool.not_eq_true', beq_eq_false_iff_ne, ne_eq]
      omega
    unfold List.count at hfirst hsecond ⊢
    simp only [Bool.not_eq_true, Bool.decide_eq_false] at hsplit
    unfold List.count at hrest
    omega
  omega

end Delivery

end WebhookConnector

namespace ToolRegistry

open WebhookConnector

variable {shared : Bool} {c : Connector} {labels : List Label} {s : Delivery}

/-- **Requests of one execution.** A webhook tool sends at most `max_retries + 1` requests if there are no
retries, if the breaker of the webhook refuses every post after the first, or if no post is abandoned and the
requests of the first do not all fail transiently. Once everything has ended and no post was abandoned, it
has sent no more only if every later post was refused. -/
theorem requests_le_iff {clock : ℚ} {webhook registry : CircuitBreaker}
    (h : (Delivery.execute c clock webhook registry).follow shared c labels = some s)
    (hretries : 0 ≤ c.config.maxRetries) :
    (c.config.maxRetries = 0 ∨ s.Refuses c.config ∨
        (.timeOut 0 ∉ labels ∧ ¬s.Exhausted c.config.maxRetries.toNat) →
      (s.sent : Int) ≤ c.config.maxRetries + 1) ∧
    (.timeOut 0 ∉ labels → s.Settled →
      ((s.sent : Int) ≤ c.config.maxRetries + 1 ↔ s.Refuses c.config)) := by
  obtain ⟨n, hn⟩ : ∃ n : Nat, c.config.maxRetries = n := ⟨c.config.maxRetries.toNat, by omega⟩
  obtain ⟨hcounted, hkept⟩ := Delivery.counted_follow hn (Delivery.counted_execute c hn clock webhook registry) h
  have hfew : s.Refuses c.config → (s.sent : Int) ≤ c.config.maxRetries + 1 := by
    intro hrefuses
    have hlength := Delivery.length_of_first hcounted (Delivery.first_of_refuses hcounted hrefuses)
    have hsent := s.sent_le
    omega
  constructor
  · rintro (hzero | hrefuses | ⟨hprompt, hdecided⟩)
    · obtain rfl : n = 0 := by omega
      have hlength := Delivery.length_of_first hcounted (Delivery.first_of_zero hcounted)
      have hsent := s.sent_le
      omega
    · exact hfew hrefuses
    · apply hfew
      intro i task hlater hi
      have hlt : i < s.tasks.length := (List.getElem?_eq_some_iff.mp hi).1
      have hexhausted := Delivery.exhausted_of_second hcounted
        (hkept hprompt (Delivery.followed_execute c clock webhook registry)) (by omega)
      rw [hn, Int.toNat_natCast] at hdecided
      exact absurd hexhausted hdecided
  · intro hprompt hsettled
    refine ⟨fun hsent i task hlater hi => ?_, hfew⟩
    by_contra hadmitted
    have hmany := Delivery.length_of_admitted hcounted
      (hkept hprompt (Delivery.followed_execute c clock webhook registry)) hsettled hlater hi
      (Bool.eq_true_of_not_eq_false hadmitted)
    rw [Delivery.sent_of_settled hsettled] at hsent
    omega

def notify (maxRetries : Int) : Connector := ⟨"webhook", { maxRetries := maxRetries }, fun _ => "10.0"⟩

/-- A request of a post, up to its answer. -/
def attempt (post request : Nat) (outcome : HttpOutcome) : List Label :=
  [.go post, .send request, .respond request outcome, .answer post]

/-- A failure is recorded and slept off. -/
def retry (task : Nat) : List Label := [.go task, .go task, .go task, .pass 2, .wake task]

/-- The endpoint is down at first, and up two seconds later. -/
def recovering : List Label :=
  [.go 0, .go 0, .start 1, .go 1] ++ attempt 1 0 (.response 503 "") ++ retry 1 ++
    attempt 1 1 (.response 200 "ok") ++ [.go 1, .go 1, .answer 0, .go 0, .go 0]

/-- The endpoint replies after twenty seconds. -/
def hanging : List Label :=
  [.go 0, .go 0, .start 1, .go 1, .go 1, .send 0, .pass 10, .timeOut 0, .timeOut 1, .pass 10,
    .respond 0 (.response 200 "ok")]

theorem requests_le_iff_recovering :
    (∃ s, (Delivery.execute (notify 1) 0 .closed .closed).follow true (notify 1) recovering = some s ∧
      (s.sent : Int) ≤ 1 + 1) ∧
    ∃ s, (Delivery.execute (notify 0) 0 .closed .closed).follow true (notify 0) hanging = some s ∧
      (s.sent : Int) ≤ 0 + 1 := by
  have hposts : ((Delivery.execute (notify 1) 0 .closed .closed).follow true (notify 1) recovering).map
      (fun s => s.tasks.length) = some 2 := by decide +kernel
  obtain ⟨s, hrun, hlength⟩ := Option.map_eq_some_iff.mp hposts
  have hrefuses : s.Refuses (notify 1).config := by
    intro i task hlater hi
    have hlt := (List.getElem?_eq_some_iff.mp hi).1
    omega
  have hruns : ((Delivery.execute (notify 0) 0 .closed .closed).follow true (notify 0) hanging).isSome := by
    decide +kernel
  obtain ⟨s', hrun'⟩ := Option.isSome_iff_exists.mp hruns
  exact ⟨⟨s, hrun, (requests_le_iff hrun (by decide)).1 (.inr (.inl hrefuses))⟩,
    ⟨s', hrun', (requests_le_iff hrun' (by decide)).1 (.inl rfl)⟩⟩

/-- The endpoint is down. The last failures open a shared breaker, which takes two more calls. -/
def down (shared : Bool) : List Label :=
  let opens (task : Nat) : List Label := if shared then [.go task, .go task] else []
  [.go 0, .go 0, .start 1, .go 1] ++ attempt 1 0 (.response 503 "") ++ retry 1 ++
    attempt 1 1 (.response 503 "") ++ [.go 1, .go 1, .go 1, .answer 0] ++ retry 0 ++ [.go 0, .start 2, .go 2] ++
    attempt 2 2 (.response 503 "") ++ retry 2 ++ attempt 2 3 (.response 503 "") ++ [.go 2, .go 2, .go 2] ++
    opens 2 ++ [.answer 0, .go 0, .go 0, .go 0] ++ opens 0

/-- The first reply comes after twenty seconds. Both loops have given it up: the registry posts again, and the
abandoned post sends its request again. -/
def late : List Label :=
  [.go 0, .go 0, .start 1, .go 1, .go 1, .send 0, .pass 10, .timeOut 0] ++ retry 0 ++ [.go 0, .start 2, .go 2] ++
    attempt 2 1 (.response 200 "ok") ++ [.go 2, .go 2, .answer 0, .go 0, .go 0, .timeOut 1] ++ retry 1 ++
    attempt 1 2 (.response 200 "ok") ++ [.go 1, .go 1, .pass 8, .respond 0 (.response 200 "ok")]

/-- A run of these steps sends more requests than the configuration allows. -/
def Exceeds (c : Connector) (shared : Bool) (labels : List Label) : Prop :=
  ∃ s, (Delivery.execute c 0 .closed .closed).follow shared c labels = some s ∧
    ¬(s.sent : Int) ≤ c.config.maxRetries + 1

theorem exceeds_of_sent {c : Connector} {shared : Bool} {labels : List Label} {n : Nat}
    (hrun : ((Delivery.execute c 0 .closed .closed).follow shared c labels).map Delivery.sent = some n)
    (hn : c.config.maxRetries + 1 < n) : Exceeds c shared labels := by
  obtain ⟨s, hfollow, hsent⟩ := Option.map_eq_some_iff.mp hrun
  exact ⟨s, hfollow, by omega⟩

/-- With one retry, an endpoint that is down is sent four requests, and one that is late three, whether the
webhook's own connector is registered or another one. -/
theorem four_requests :
    (Exceeds (notify 1) true (down true) ∧ Exceeds (notify 1) true late) ∧
      Exceeds (notify 1) false (down false) ∧ Exceeds (notify 1) false late := by
  have hretries : (notify 1).config.maxRetries + 1 = 2 := rfl
  have hdown (shared : Bool) : Exceeds (notify 1) shared (down shared) := by
    apply @exceeds_of_sent _ _ _ 4
    · cases shared <;> decide +kernel
    · omega
  have hlate (shared : Bool) : Exceeds (notify 1) shared late := by
    apply @exceeds_of_sent _ _ _ 3
    · cases shared <;> decide +kernel
    · omega
  exact ⟨⟨hdown true, hlate true⟩, hdown false, hlate false⟩

end ToolRegistry

end Bass
