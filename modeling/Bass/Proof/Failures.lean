import Bass.Proof.Outline
import Bass.Proof.StoreLemmas

/-!
# Failures that are recorded

`_drive` has handlers for two kinds of error a step can raise, a refusal of the gate and a connector
error, and marks the run failed itself when the budget is exceeded. Every other error of the platform
leaves the engine without a trace: the stored run is as its last checkpoint left it and the events of
the step are lost. Below, the sites such an error can come from, and what is stored when none of them
is met.
-/

namespace Bass

open Interaction EngineM

/-! ### The sites -/

/-- A platform error that no handler of the step loop catches. -/
def Exc.escapes (e : Exc) : Bool := e.isBassError && !e.isPolicyDenied && !e.isConnectorError

/-- A step entered with this context does not itself raise an error that escapes. -/
def Sound (cfg : EngineConfig) (step : Step) (context : Context) : Prop :=
  match step.nodeType with
  | .agent => (∃ agent, step.agent.bind cfg.agents.get? = some agent ∧ 0 < agent.maxSteps) ∧
      ∀ e, resolve step.args context = .error e → e.escapes = false
  | .tool => ∀ name, step.tool = some name → (∃ tool, cfg.tools.get name = .ok tool) ∧
      ∀ e, resolve step.args context = .error e → e.escapes = false
  | .branch => ∀ e, WorkflowEngine.chooseBranch context step.branches = .error e →
      e.escapes = false
  | .approval | .terminate => True
  | .other _ => False

/-- How many answers of the model the agent loop that is running has seen: a loop starts with an
empty scratch, and puts the tool results there before it asks again. -/
def rounds (trail : Trail) : Nat :=
  trail.foldl (fun n event => match event.1.op with
    | .respond _ _ scratch => if scratch.rows.isEmpty then 1 else n + 1
    | _ => n) 0

/-- Inside a compensation, where every exception is swallowed. -/
def Mem.compensating (m : Mem) : Prop := ∃ ev ∈ m.buffer, ev.type = "compensation"

/-- The call succeeds if it is one of the store, and its answer does not lead to an error that
escapes. -/
def Fine (cfg : EngineConfig) (wf : Workflow) (before : Trail) (call : Call) (answer : call.Res) :
    Prop :=
  match call, answer with
  | ⟨_, .checkpoint run _⟩, answer => answer = .ok () ∧
      ∀ name, run.cursorStep = some name → (wf.steps.get? name).isSome
  | ⟨_, .getEffect ..⟩, answer => ∃ value, answer = .ok value
  | ⟨_, .createApproval ..⟩, answer => ∃ approvalId, answer = .ok approvalId
  | ⟨_, .resolveApproval ..⟩, answer => answer = .ok ()
  | ⟨m, .stepSpan step⟩, _ => Sound cfg step m.run.context
  | ⟨m, .respond agent task scratch⟩, answer => m.compensating ∨
      match answer with
      | .error e => e.escapes = false
      | .ok (resp, scratch') => resp.type = some "tool_calls" →
          (rounds (before ++ [⟨⟨m, .respond agent task scratch⟩, .ok (resp, scratch')⟩]) : Int) <
            agent.maxSteps ∧
          ∀ calls, resp.calls = some calls → ∀ c ∈ calls, ∀ name, c.tool = some name →
            ∃ tool, cfg.tools.get name = .ok tool
  | ⟨m, .execute ..⟩, answer => m.compensating ∨ ∀ e, answer = .error e → e.escapes = false
  | ⟨m, .approvalFn ..⟩, answer => m.compensating ∨ ∀ e, answer = .error e → e.escapes = false
  | _, _ => True

/-! ### Assertions -/

/-- The sequential behaviour of calls that are fine, with the trail recorded. -/
def fineSpec (cfg : EngineConfig) (wf : Workflow) (redact : Json → Json) :
    Spec Call Call.Res (DB × Trail) :=
  .sequential (fun x call answer y => Call.step cfg.policy redact x.1 call answer y.1 ∧
    Fine cfg wf x.2 call answer ∧ y.2 = x.2 ++ [⟨call, answer⟩]) fun _ _ => True

/-- The run is stored, and no event that was ever in the buffer has been lost. -/
structure Intact (redact : Json → Json) (runId : String) (m : Mem) (x : DB × Trail) : Prop where
  id : m.run.id = runId
  row : (x.1.runs.find? runId).isSome
  events : ∀ event ∈ x.2, ∀ ev ∈ event.1.mem.buffer, ev ∈ m.buffer ∨ Stored redact x.1 ev

/-- The failure has been recorded, with everything that was emitted. -/
structure Recorded (redact : Json → Json) (runId : String) (m : Mem) (x : DB × Trail) : Prop where
  intact : Intact redact runId m x
  flushed : m.buffer = []
  failed : ∃ row, x.1.runs.find? runId = some row ∧ row.status = .failed

/-- Outside a compensation, with the context `context` and, where it matters, after `n` rounds of the
agent loop. -/
structure Clean (redact : Json → Json) (runId : String) (context : Context) (n : Option Nat)
    (m : Mem) (x : DB × Trail) : Prop where
  intact : Intact redact runId m x
  outside : ¬m.compensating
  context : m.run.context = context
  rounds : ∀ k, n = some k → rounds x.2 = k

section Assertions

variable {cfg : EngineConfig} {wf : Workflow} {redact : Json → Json} {runId : String}

theorem Intact.memory {m m' : Mem} {x : DB × Trail} (h : Intact redact runId m x)
    (hsame : SameIdent m m') : Intact redact runId m' x where
  id := hsame.id.trans h.id
  row := h.row
  events := fun event hevent ev hev => (h.events event hevent ev hev).imp_left
    fun hmem => hsame.buffer.subset hmem

theorem Intact.call {m : Mem} {op : Op} {answer : op.Res} {x y : DB × Trail}
    (h : Intact redact runId m x) (hs : (fineSpec cfg wf redact).step x ⟨m, op⟩ answer y) :
    Intact redact runId m y := by
  obtain ⟨hstep, -, htrail⟩ := hs
  refine ⟨h.id, isSome_run_of_step hstep h.row, fun event hevent ev hev => ?_⟩
  rw [htrail, List.mem_append, List.mem_singleton] at hevent
  rcases hevent with hold | rfl
  · exact (h.events event hold ev hev).imp_right fun hstored => hstored.mono (events_of_step hstep)
  · exact Or.inl hev

/-- An accepted checkpoint stores what is in the buffer, which may then be emptied. -/
theorem Intact.checkpoint {m : Mem} {answer : Except Exc Unit} {x y : DB × Trail}
    (h : Intact redact runId m x)
    (hs : (fineSpec cfg wf redact).step x ⟨m, .checkpoint m.run m.buffer⟩ answer y) :
    Intact redact runId { m with buffer := [] } y := by
  have hy := h.call hs
  obtain ⟨hstep, ⟨rfl, -⟩, -⟩ := hs
  refine ⟨h.id, hy.row, fun event hevent ev hev => Or.inr ?_⟩
  rcases hy.events event hevent ev hev with hmem | hstored
  · exact stored_of_checkpoint hstep hmem
  · exact hstored

/-- A checkpoint, where store operations succeed. -/
theorem wp_checkpoint_fine {m : Mem} {x : DB × Trail} {Q : Unit → Mem → DB × Trail → Prop}
    {E : Exc → Mem → DB × Trail → Prop}
    (hQ : ∀ y, (fineSpec cfg wf redact).step x ⟨m, .checkpoint m.run m.buffer⟩ (.ok ()) y →
      Q () { m with buffer := [] } y) :
    Act.wp (fineSpec cfg wf redact) EngineM.checkpoint Q E m x := by
  refine wp_checkpoint.mpr ?_
  rintro _ rfl
  refine ⟨trivial, fun answer y hs => ?_⟩
  have hanswer : answer = .ok () := hs.2.1.1
  subst hanswer
  exact hQ y hs

theorem recorded_checkpoint {m : Mem} {x : DB × Trail} (h : Intact redact runId m x)
    (hfailed : m.run.status = .failed) {E : Exc → Mem → DB × Trail → Prop} :
    Act.wp (fineSpec cfg wf redact) EngineM.checkpoint (fun _ => Recorded redact runId) E m x := by
  refine wp_checkpoint_fine fun y hs => ⟨h.checkpoint hs, rfl, ?_⟩
  obtain ⟨row, hrow⟩ := Option.isSome_iff_exists.mp h.row
  rw [← h.id] at hrow ⊢
  obtain ⟨now, hnew⟩ := row_of_checkpoint hs.1 hrow
  exact ⟨_, hnew, hfailed⟩

/-- Marking the run failed records the failure. -/
theorem recorded_failRun {m : Mem} {x : DB × Trail} (h : Intact redact runId m x)
    (reason detail : String) {E : Exc → Mem → DB × Trail → Prop} :
    Act.wp (fineSpec cfg wf redact) (WorkflowEngine.failRun reason detail)
      (fun _ => Recorded redact runId) E m x := by
  refine (wp_modifyRun_bind _ _).mpr ((wp_emit_bind _ _ _ _ _ _).mpr (recorded_checkpoint ?_ rfl))
  exact h.memory ⟨rfl, rfl, rfl, rfl, rfl, rfl, List.prefix_append _ _⟩

end Assertions

/-! ### Steps raise no error that escapes -/

section Steps

variable {cfg : EngineConfig} {wf : Workflow} {redact : Json → Json} {runId : String}
  {context : Context} {n : Option Nat}

/-- `x`, run outside a compensation, raises no error that escapes and leaves the context alone. -/
abbrev Behaves (cfg : EngineConfig) (wf : Workflow) (redact : Json → Json) (runId : String)
    (context : Context) (n : Option Nat) {α : Type} (x : EngineM α) : Prop :=
  Act.Raises (fineSpec cfg wf redact) (Clean redact runId context n) (Clean redact runId context n)
    (fun e : Exc => e.escapes = false) x

theorem rounds_concat {before : Trail} {call : Call} {answer : call.Res}
    (h : ∀ agent task scratch, call.op ≠ .respond agent task scratch) :
    rounds (before ++ [⟨call, answer⟩]) = rounds before := by
  obtain ⟨m, op⟩ := call
  rw [rounds, List.foldl_append]
  cases op with
  | respond agent task scratch => exact absurd rfl (h agent task scratch)
  | _ => rfl

theorem Clean.memory {m m' : Mem} {x : DB × Trail} (h : Clean redact runId context n m x)
    (hsame : SameRun m m') (houtside : ¬m'.compensating) : Clean redact runId context n m' x where
  intact := h.intact.memory hsame.toSameIdent
  outside := houtside
  context := hsame.context.trans h.context
  rounds := h.rounds

theorem not_compensating_emit {m : Mem} {type : String} {payload : Json} {stepId : Option String}
    {costUsd : ℚ} {actor : String} (h : ¬m.compensating) (htype : type ≠ "compensation") :
    ¬Mem.compensating { m with
      buffer := m.buffer ++ [⟨m.run.id, m.run.tenantId, type, payload, stepId, actor, costUsd⟩] } := by
  rintro ⟨ev, hmem, hev⟩
  rcases List.mem_append.mp hmem with hold | hnew
  · exact h ⟨ev, hold, hev⟩
  · rw [List.mem_singleton.mp hnew] at hev
    exact htype hev

theorem behaves_emit {type : String} (htype : type ≠ "compensation") (payload : Json)
    (stepId : Option String) (costUsd : ℚ) (actor : String) :
    Behaves cfg wf redact runId context n (emit type payload stepId costUsd actor) :=
  Act.raises_modify fun _ _ h =>
    h.memory ⟨⟨rfl, rfl, rfl, rfl, rfl, rfl, List.prefix_append _ _⟩, rfl⟩
      (not_compensating_emit h.outside htype)

theorem behaves_modifyRun {f : Run → Run} (hf : ∀ m : Mem, SameRun m { m with run := f m.run }) :
    Behaves cfg wf redact runId context n (modifyRun f) :=
  Act.raises_modify fun m _ h => h.memory (hf m) h.outside

theorem raises_getRun_bind {α : Type} {K : Mem → DB × Trail → Prop} {f : Run → EngineM α}
    (hf : ∀ run, run.context = context → Act.Raises (fineSpec cfg wf redact)
      (Clean redact runId context n) K (fun e : Exc => e.escapes = false) (f run)) :
    Act.Raises (fineSpec cfg wf redact) (Clean redact runId context n) K
      (fun e : Exc => e.escapes = false) (getRun >>= f) := by
  intro m x h
  exact (wp_getRun_bind _).mpr (hf m.run h.context m x h)

/-- A call other than one of the model; what is known of its answer is that it is fine. -/
theorem raises_perform_bind {α : Type} {K : Mem → DB × Trail → Prop} {op : Op}
    {f : op.Res → EngineM α} (hop : ∀ agent task scratch, op ≠ .respond agent task scratch)
    (hf : ∀ m before answer, ¬m.compensating → Fine cfg wf before ⟨m, op⟩ answer →
      Act.Raises (fineSpec cfg wf redact) (Clean redact runId context n) K
        (fun e : Exc => e.escapes = false) (f answer)) :
    Act.Raises (fineSpec cfg wf redact) (Clean redact runId context n) K
      (fun e : Exc => e.escapes = false) (perform op >>= f) := by
  intro m x h
  refine (Act.wp_perform_bind _ _).mpr ?_
  rintro _ rfl
  refine ⟨trivial, fun answer y hs => ?_⟩
  refine hf m x.2 answer h.outside hs.2.1 m y ⟨h.intact.call hs, h.outside, h.context, fun k hk => ?_⟩
  rw [hs.2.2, rounds_concat hop]
  exact h.rounds k hk

theorem behaves_checkpoint : Behaves cfg wf redact runId context n EngineM.checkpoint := by
  intro m x h
  refine wp_checkpoint_fine fun y hs => ⟨h.intact.checkpoint hs, ?_, h.context, fun k hk => ?_⟩
  · rintro ⟨ev, hmem, -⟩
    exact absurd hmem List.not_mem_nil
  · have hop : ∀ agent task scratch, Op.checkpoint m.run m.buffer ≠ .respond agent task scratch :=
      fun _ _ _ heq => nomatch heq
    rw [hs.2.2, rounds_concat hop]
    exact h.rounds k hk

theorem behaves_setStatus (status : RunStatus) :
    Behaves cfg wf redact runId context n (WorkflowEngine.setStatus status) :=
  behaves_modifyRun fun _ => ⟨⟨rfl, rfl, rfl, rfl, rfl, rfl, List.prefix_rfl⟩, rfl⟩

theorem escapes_of_answer {α : Type} {m : Mem} {answer : Except Exc α} (houtside : ¬m.compensating)
    (h : m.compensating ∨ ∀ e, answer = .error e → e.escapes = false) :
    ∀ e, answer = .error e → e.escapes = false :=
  h.resolve_left houtside

/-! #### The agent loop -/

theorem behaves_execCall (agent : Agent) {call : ToolCall}
    (htool : ∀ name, call.tool = some name → ∃ tool, cfg.tools.get name = .ok tool) :
    Behaves cfg wf redact runId context n (AgentRuntime.execCall cfg agent call) := by
  intro m x h
  unfold AgentRuntime.execCall
  refine (Act.wp_ofExcept_bind _ _).mpr ?_
  cases hname : call.tool with
  | none => exact ⟨rfl, h⟩
  | some name =>
      obtain ⟨tool, hget⟩ := htool name hname
      refine (Act.wp_ofExcept_bind _ _).mpr ?_
      rw [hget]
      refine raises_getRun_bind (fun run _ => ?_) m x h
      refine raises_perform_bind (fun _ _ _ heq => nomatch heq) fun _ _ decision _ _ => ?_
      refine Act.raises_bind (behaves_emit (by decide) _ _ _ _) fun _ => ?_
      split
      · refine raises_perform_bind (fun _ _ _ heq => nomatch heq) fun _ _ answer hout hfine => ?_
        refine Act.raises_bind (Act.raises_ofExcept (escapes_of_answer hout hfine)) fun result => ?_
        refine Act.raises_bind (behaves_modifyRun fun _ =>
          ⟨⟨rfl, rfl, rfl, rfl, rfl, rfl, List.prefix_rfl⟩, rfl⟩) fun _ => ?_
        exact Act.raises_bind (behaves_emit (by decide) _ _ _ _) fun _ => Act.raises_pure (fun _ _ h => h) _
      · exact Act.raises_bind (behaves_emit (by decide) _ _ _ _) fun _ => Act.raises_pure (fun _ _ h => h) _

theorem behaves_execCalls (agent : Agent) {calls : List ToolCall}
    (htool : ∀ c ∈ calls, ∀ name, c.tool = some name → ∃ tool, cfg.tools.get name = .ok tool) :
    Behaves cfg wf redact runId context n (AgentRuntime.execCalls cfg agent calls) := by
  induction calls with
  | nil => exact Act.raises_pure (fun _ _ h => h) _
  | cons call rest ih =>
      refine Act.raises_bind (behaves_execCall agent (htool call (List.mem_cons_self ..)))
        fun result => ?_
      refine Act.raises_bind (ih fun c hc => htool c (List.mem_cons_of_mem _ hc)) fun results => ?_
      exact Act.raises_pure (fun _ _ h => h) _

theorem Clean.anyRounds {m : Mem} {x : DB × Trail} (h : Clean redact runId context n m x) :
    Clean redact runId context none m x :=
  ⟨h.intact, h.outside, h.context, fun _ hk => nomatch hk⟩

theorem rounds_respond (before : Trail) (m : Mem) (agent : Agent) (task : Args) (scratch : Scratch)
    (answer : Except Exc (Response × Scratch)) :
    rounds (before ++ [⟨⟨m, .respond agent task scratch⟩, answer⟩]) =
      (if scratch.rows.isEmpty then 0 else rounds before) + 1 := by
  rw [rounds, List.foldl_append, ← rounds]
  change (if scratch.rows.isEmpty then 1 else rounds before + 1) = _
  by_cases hempty : scratch.rows.isEmpty
  · rw [if_pos hempty, if_pos hempty]
  · rw [if_neg hempty, if_neg hempty]

theorem rows_set_ne_nil {κ ν : Type} [DecidableEq κ] (d : Dict κ ν) (key : κ) (value : ν) :
    (Dict.set d key value).rows.isEmpty = false := by
  cases hrows : (Dict.set d key value).rows with
  | nil =>
      have hget := Dict.get?_set_self d key value
      rw [Dict.get?, Table.find?, hrows] at hget
      cases hget
  | cons row rest => rfl

/-- The loop with `k` answers behind it and `n` iterations left does not run out of them: an answer
that asks for tools is not the last one. -/
theorem behaves_loop (agent : Agent) (task : Args) (n : Nat) (scratch : Scratch) {k : Nat} {m : Mem}
    {x : DB × Trail} (h : Clean redact runId context (some k) m x) (hn : 0 < n)
    (hk : (if scratch.rows.isEmpty then 0 else k) + n = agent.maxSteps.toNat) :
    Act.wp (fineSpec cfg wf redact) (AgentRuntime.loop cfg agent task n scratch)
      (fun _ => Clean redact runId context none)
      (fun e m x => e.escapes = false ∧ Clean redact runId context none m x) m x := by
  induction n generalizing scratch k m x with
  | zero => exact absurd hn (lt_irrefl 0)
  | succ n ih =>
      unfold AgentRuntime.loop
      refine (Act.wp_perform_bind _ _).mpr ?_
      rintro _ rfl
      refine ⟨trivial, fun answer y hs => ?_⟩
      -- the answer is one more round, and what it may be is known
      have hrounds : rounds y.2 = (if scratch.rows.isEmpty then 0 else k) + 1 := by
        rw [hs.2.2, rounds_respond, h.rounds k rfl]
      have hfine := hs.2.1.resolve_left h.outside
      have hy : Clean redact runId context (some ((if scratch.rows.isEmpty then 0 else k) + 1)) m y :=
        ⟨h.intact.call hs, h.outside, h.context, fun _ heq => hrounds.trans (Option.some.inj heq)⟩
      refine (Act.wp_ofExcept_bind _ _).mpr ?_
      cases answer with
      | error e => exact ⟨hfine, hy.anyRounds⟩
      | ok out =>
          obtain ⟨resp, scratch'⟩ := out
          refine (wp_modifyRun_bind _ _).mpr ((Act.wp_ofExcept_bind _ _).mpr ?_)
          have hcost : Clean redact runId context
              (some ((if scratch.rows.isEmpty then 0 else k) + 1))
              { m with run := { m.run with costUsd := m.run.costUsd + resp.costUsd.getD 0 } } y :=
            hy.memory ⟨⟨rfl, rfl, rfl, rfl, rfl, rfl, List.prefix_rfl⟩, rfl⟩ hy.outside
          cases hkind : resp.type with
          | none => exact ⟨rfl, hcost.anyRounds⟩
          | some kind =>
              refine (Act.wp_bind _ _).mpr (Act.wp_mono _ ?_
                (fun e m x he => ⟨he.1, he.2.anyRounds⟩)
                (behaves_emit (by decide) _ _ _ _ _ _ hcost))
              intro _ m₁ x₁ h₁
              split
              · rename_i hcalls
                subst hcalls
                obtain ⟨hround, hknown⟩ := hfine hkind
                refine (Act.wp_ofExcept_bind _ _).mpr ?_
                cases hlist : resp.calls with
                | none => exact ⟨rfl, h₁.anyRounds⟩
                | some calls =>
                    refine (Act.wp_bind _ _).mpr (Act.wp_mono _ ?_
                      (fun e m x he => ⟨he.1, he.2.anyRounds⟩)
                      (behaves_execCalls agent (hknown calls hlist) _ _ h₁))
                    intro results m₂ x₂ h₂
                    rw [← hs.2.2, hrounds] at hround
                    refine ih _ h₂ (by omega) ?_
                    rw [rows_set_ne_nil, if_neg Bool.false_ne_true]
                    omega
              · refine (Act.wp_ofExcept_bind _ _).mpr ?_
                cases resp.output with
                | none => exact ⟨rfl, h₁.anyRounds⟩
                | some output =>
                    exact (Act.raises_bind (behaves_emit (by decide) _ _ _ _)
                      fun _ => Act.raises_pure (fun _ _ h => h) _) _ _ h₁.anyRounds

/-! #### Node handlers -/

/-- What is left of `Clean` once the step has written its output. -/
def Settled (redact : Json → Json) (runId : String) (m : Mem) (x : DB × Trail) : Prop :=
  Intact redact runId m x ∧ ¬m.compensating

theorem Clean.settled {m : Mem} {x : DB × Trail} (h : Clean redact runId context n m x) :
    Settled redact runId m x := ⟨h.intact, h.outside⟩

/-- Writing the output of a step. -/
theorem Clean.output {m : Mem} {x : DB × Trail} (h : Clean redact runId context n m x)
    (written : Context) :
    Settled redact runId { m with run := { m.run with context := written } } x :=
  ⟨h.intact.memory ⟨rfl, rfl, rfl, rfl, rfl, rfl, List.prefix_rfl⟩, h.outside⟩

/-- `x` raises no error that escapes, and may write the output of the step. -/
abbrev Handles (cfg : EngineConfig) (wf : Workflow) (redact : Json → Json) (runId : String)
    (context : Context) {α : Type} (x : EngineM α) : Prop :=
  Act.Raises (fineSpec cfg wf redact) (Clean redact runId context none) (Settled redact runId)
    (fun e : Exc => e.escapes = false) x

theorem Behaves.handles {α : Type} {x : EngineM α}
    (hx : Behaves cfg wf redact runId context none x) : Handles cfg wf redact runId context x :=
  Act.Raises.weaken hx fun _ _ h => h.settled

/-- The last thing a handler does: it writes the output of its step. -/
theorem handles_output (step : Step) (output : Json) :
    Handles cfg wf redact runId context (do
      modifyRun fun run => { run with context := Dict.set run.context step.id output }
      return step.next) :=
  fun _ _ h => h.output _

theorem handles_runAgent {step : Step} (htype : step.nodeType = .agent)
    (hsound : Sound cfg step context) :
    Handles cfg wf redact runId context (WorkflowEngine.runAgent cfg step) := by
  intro m s h
  rw [Sound, htype] at hsound
  obtain ⟨⟨agent, hagent, hsteps⟩, hargs⟩ := hsound
  unfold WorkflowEngine.runAgent
  rw [hagent]
  refine (wp_getRun_bind _).mpr ((Act.wp_ofExcept_bind _ _).mpr ?_)
  rw [h.context]
  cases hresolve : resolve step.args context with
  | error e => exact ⟨hargs e hresolve, h⟩
  | ok args =>
      have hclean : Clean redact runId context (some (rounds s.2)) m s :=
        ⟨h.intact, h.outside, h.context, fun _ heq => Option.some.inj heq⟩
      refine (Act.wp_bind _ _).mpr (Act.wp_mono _ ?_ (fun _ _ _ he => he)
        (behaves_loop agent _ agent.maxSteps.toNat Table.empty hclean (by omega) (Nat.zero_add _)))
      exact fun output m' s' h' => handles_output step output m' s' h'

theorem behaves_runBranch {step : Step} (htype : step.nodeType = .branch)
    (hsound : Sound cfg step context) :
    Behaves cfg wf redact runId context none (WorkflowEngine.runBranch step) := by
  rw [Sound, htype] at hsound
  refine raises_getRun_bind fun run hrun => ?_
  rw [hrun]
  refine Act.raises_bind (Act.raises_ofExcept hsound) fun choice => ?_
  cases choice with
  | none => exact Act.raises_pure (fun _ _ h => h) _
  | some goto => exact Act.raises_bind (behaves_emit (by decide) _ _ _ _) fun _ => Act.raises_pure (fun _ _ h => h) _

theorem behaves_awaitSync (step : Step) (approvers : List String) (tool : String) (args : Args) :
    Behaves cfg wf redact runId context none
      (WorkflowEngine.awaitSync step approvers tool args) := by
  refine raises_getRun_bind fun run _ => ?_
  refine raises_perform_bind (fun _ _ _ heq => nomatch heq) fun _ _ created _ hcreated => ?_
  obtain ⟨approvalId, rfl⟩ := hcreated
  refine Act.raises_bind (Act.raises_ofExcept fun _ he => nomatch he) fun approvalId => ?_
  refine Act.raises_bind (behaves_setStatus _) fun _ => ?_
  refine Act.raises_bind (behaves_emit (by decide) _ _ _ _) fun _ => ?_
  refine raises_getRun_bind fun run _ => ?_
  refine raises_perform_bind (fun _ _ _ heq => nomatch heq) fun _ _ answer hout hfine => ?_
  refine Act.raises_bind (Act.raises_ofExcept (escapes_of_answer hout hfine)) fun granted => ?_
  refine raises_perform_bind (fun _ _ _ heq => nomatch heq) fun _ _ resolved _ hresolved => ?_
  refine Act.raises_bind (Act.raises_ofExcept fun _ he => ?_) fun _ => ?_
  · rw [show resolved = .ok () from hresolved] at he
    cases he
  · refine Act.raises_bind (behaves_emit (by decide) _ _ _ _) fun _ => ?_
    exact Act.raises_bind (behaves_setStatus _) fun _ => Act.raises_pure (fun _ _ h => h) _

theorem behaves_awaitAsync (step : Step) (approvers : List String) (tool : String) (args : Args) :
    Behaves cfg wf redact runId context none
      (WorkflowEngine.awaitAsync step approvers tool args) := by
  refine raises_getRun_bind fun run _ => ?_
  refine raises_perform_bind (fun _ _ _ heq => nomatch heq) fun _ _ existing _ _ => ?_
  split
  · refine raises_perform_bind (fun _ _ _ heq => nomatch heq) fun _ _ created _ hcreated => ?_
    obtain ⟨approvalId, rfl⟩ := hcreated
    refine Act.raises_bind (Act.raises_ofExcept fun _ he => nomatch he) fun approvalId => ?_
    refine Act.raises_bind (behaves_setStatus _) fun _ => ?_
    refine Act.raises_bind (behaves_emit (by decide) _ _ _ _) fun _ => ?_
    exact Act.raises_bind behaves_checkpoint fun _ => Act.raises_throw rfl
  · split
    · refine Act.raises_bind (behaves_setStatus _) fun _ => ?_
      exact Act.raises_bind behaves_checkpoint fun _ => Act.raises_throw rfl
    · exact Act.raises_bind (behaves_emit (by decide) _ _ _ _) fun _ => Act.raises_pure (fun _ _ h => h) _

theorem behaves_awaitApproval (step : Step) (approvers : List String) (tool : String)
    (args : Args) :
    Behaves cfg wf redact runId context none
      (WorkflowEngine.awaitApproval cfg step approvers tool args) := by
  unfold WorkflowEngine.awaitApproval
  split
  · exact behaves_awaitSync step approvers tool args
  · exact behaves_awaitAsync step approvers tool args

theorem behaves_runApproval (step : Step) :
    Behaves cfg wf redact runId context none (WorkflowEngine.runApproval cfg step) := by
  refine Act.raises_bind (behaves_awaitApproval _ _ _ _) fun granted => ?_
  split
  · exact Act.raises_pure (fun _ _ h => h) _
  · exact Act.raises_throw rfl

theorem behaves_gate (step : Step) (tool : Tool) (name : String) (args : Args) :
    Behaves cfg wf redact runId context none (WorkflowEngine.gate cfg step tool name args) := by
  refine raises_getRun_bind fun run _ => ?_
  refine raises_perform_bind (fun _ _ _ heq => nomatch heq) fun _ _ decision _ _ => ?_
  refine Act.raises_bind (behaves_emit (by decide) _ _ _ _) fun _ => ?_
  split
  · exact Act.raises_pure (fun _ _ h => h) _
  · exact Act.raises_throw rfl
  · refine Act.raises_bind (behaves_awaitApproval _ _ _ _) fun granted => ?_
    split
    · exact Act.raises_pure (fun _ _ h => h) _
    · exact Act.raises_throw rfl

theorem behaves_cachedEffect (tool : Tool) (key : String) :
    Behaves cfg wf redact runId context none (WorkflowEngine.cachedEffect tool key) := by
  unfold WorkflowEngine.cachedEffect
  split
  · refine raises_getRun_bind fun run _ => ?_
    refine raises_perform_bind (fun _ _ _ heq => nomatch heq) fun _ _ answer _ hanswer => ?_
    obtain ⟨value, rfl⟩ := hanswer
    exact Act.raises_ofExcept fun _ he => nomatch he
  · exact Act.raises_pure (fun _ _ h => h) _

theorem handles_act (step : Step) (tool : Tool) (name : String) (args : Args) (key : String) :
    Handles cfg wf redact runId context (WorkflowEngine.act step tool name args key) := by
  have hbook : ∀ result, Handles cfg wf redact runId context (do
      modifyRun fun run => { run with costUsd := run.costUsd + tool.costUsd }
      emit "tool_result" (.obj [("tool", .str name), ("result", result)]) (some step.id)
        tool.costUsd
      modifyRun fun run => { run with context := Dict.set run.context step.id result }
      return step.next) := by
    intro result
    refine Act.raises_bind (behaves_modifyRun fun _ =>
      ⟨⟨rfl, rfl, rfl, rfl, rfl, rfl, List.prefix_rfl⟩, rfl⟩) fun _ => ?_
    exact Act.raises_bind (behaves_emit (by decide) _ _ _ _) fun _ => handles_output step result
  refine raises_perform_bind (fun _ _ _ heq => nomatch heq) fun _ _ answer hout hfine => ?_
  refine Act.raises_bind (Act.raises_ofExcept (escapes_of_answer hout hfine)) fun result => ?_
  refine raises_getRun_bind fun run _ => ?_
  split
  · exact raises_perform_bind (fun _ _ _ heq => nomatch heq) fun _ _ _ _ _ => hbook result
  · exact hbook result

theorem handles_runTool {step : Step} (htype : step.nodeType = .tool)
    (hsound : Sound cfg step context) :
    Handles cfg wf redact runId context (WorkflowEngine.runTool cfg step) := by
  rw [Sound, htype] at hsound
  unfold WorkflowEngine.runTool
  cases hname : step.tool with
  | none => exact Act.raises_throw rfl
  | some name =>
      obtain ⟨⟨tool, hget⟩, hargs⟩ := hsound name hname
      refine Act.raises_bind (Act.raises_ofExcept fun e he => ?_) fun tool => ?_
      · rw [hget] at he
        cases he
      · refine raises_getRun_bind fun run hrun => ?_
        rw [hrun]
        refine Act.raises_bind (Act.raises_ofExcept hargs) fun args => ?_
        refine Act.raises_bind (behaves_cachedEffect tool _) fun cached => ?_
        split
        · exact Act.raises_bind (behaves_gate _ _ _ _) fun _ => handles_act _ _ _ _ _
        · exact Act.raises_bind (behaves_emit (by decide) _ _ _ _) fun _ => handles_output step cached

theorem handles_runStep {step : Step} (hsound : Sound cfg step context) :
    Handles cfg wf redact runId context (WorkflowEngine.runStep cfg step) := by
  unfold WorkflowEngine.runStep
  cases htype : step.nodeType with
  | agent => exact handles_runAgent htype hsound
  | tool => exact handles_runTool htype hsound
  | branch => exact (behaves_runBranch htype hsound).handles
  | approval => exact (behaves_runApproval step).handles
  | terminate => exact Act.raises_pure (fun _ _ h => h.settled) none
  | other name =>
      rw [Sound, htype] at hsound
      exact hsound.elim

end Steps

/-! ### The outline -/

section Loop

variable {cfg : EngineConfig} {wf : Workflow} {redact : Json → Json} {runId : String}

/-- At the head of the loop: the step to enter, if any, exists. -/
def Ready (wf : Workflow) (redact : Json → Json) (runId : String) (next : Option String) (m : Mem)
    (x : DB × Trail) : Prop :=
  Settled redact runId m x ∧ ∀ name, next = some name → (wf.steps.get? name).isSome

/-- Within a step that is sound where it was entered. -/
def Entered (cfg : EngineConfig) (redact : Json → Json) (runId : String) (step : Step) (m : Mem)
    (x : DB × Trail) : Prop :=
  ∃ context, Clean redact runId context none m x ∧ Sound cfg step context

/-- What stopped the engine is recorded, if it is an error of the platform. -/
def Accounted (redact : Json → Json) (runId : String) (e : Exc) (m : Mem) (x : DB × Trail) : Prop :=
  e.isBassError = true → Recorded redact runId m x

theorem intact_stepInv :
    StepInv cfg wf (fineSpec cfg wf redact) (Intact redact runId) := by
  have hcheckpoint : Act.Keeps (fineSpec cfg wf redact) (Intact redact runId)
      EngineM.checkpoint := by
    refine keeps_checkpoint_call ?_
    rintro m x h _ rfl
    exact ⟨trivial, fun answer y hs => ⟨h.call hs, h.checkpoint hs⟩⟩
  refine stepInv_of_calls (fun m m' x hsame h => h.memory hsame) (fun op _ => ?_) wf
    (savedIn_of_keeps hcheckpoint _) (savedIn_of_keeps hcheckpoint _)
  refine Act.keeps_perform ?_
  rintro m x h _ rfl
  exact ⟨trivial, fun answer y hs => h.call hs⟩

/-- A compensation raises nothing. -/
theorem intact_compensate (step : Step) {m : Mem} {x : DB × Trail} (h : Intact redact runId m x) :
    Act.wp (fineSpec cfg wf redact) (WorkflowEngine.compensate cfg wf step)
      (fun _ => Intact redact runId) (fun _ _ _ => False) m x := by
  have hemit : ∀ (m m' : Mem) (x : DB × Trail), SameRun m m' → Intact redact runId m x →
      Intact redact runId m' x := fun _ _ _ hsame h' => h'.memory hsame.toSameIdent
  unfold WorkflowEngine.compensate
  split
  · exact h
  · rename_i comp hcomp
    refine (wp_emit_bind _ _ _ _ _ _).mpr ((Act.wp_tryCatch _ _).mpr ((Act.wp_bind _ _).mpr ?_))
    have hstep : wf.HasStep comp := by
      unfold WorkflowEngine.compensation at hcomp
      split at hcomp
      · cases hcomp
      · split at hcomp
        · cases hcomp
        · exact ⟨_, hcomp⟩
    refine Act.wp_mono _ (fun _ _ _ h' => h') (fun e m' x' h' => ?_)
      (intact_stepInv.runStep hstep _ x (hemit m _ x
        ⟨⟨rfl, rfl, rfl, rfl, rfl, rfl, List.prefix_append _ _⟩, rfl⟩ h))
    exact hemit m' _ x' ⟨⟨rfl, rfl, rfl, rfl, rfl, rfl, List.prefix_append _ _⟩, rfl⟩ h'

/-- Moving on: the cursor that is committed names the step to enter next. -/
theorem ready_advance (next : Option String) {m : Mem} {x : DB × Trail}
    (h : Settled redact runId m x) {E : Exc → Mem → DB × Trail → Prop} :
    Act.wp (fineSpec cfg wf redact) (WorkflowEngine.advance next)
      (fun _ => Ready wf redact runId next) E m x := by
  have hcommit : ∀ m : Mem, m.run.cursorStep = next → Intact redact runId m x →
      Act.wp (fineSpec cfg wf redact) EngineM.checkpoint (fun _ => Ready wf redact runId next)
        E m x := by
    intro m hcursor h
    refine wp_checkpoint_fine fun y hs => ⟨⟨h.checkpoint hs, ?_⟩, fun name heq => ?_⟩
    · rintro ⟨ev, hmem, -⟩
      exact absurd hmem List.not_mem_nil
    · exact hs.2.1.2 name (hcursor.trans heq)
  refine (wp_modifyRun_bind _ _).mpr ?_
  cases next with
  | some name => exact hcommit _ rfl (h.1.memory ⟨rfl, rfl, rfl, rfl, rfl, rfl, List.prefix_rfl⟩)
  | none =>
      refine (wp_modifyRun_bind _ _).mpr ((wp_modifyRun_bind _ _).mpr ?_)
      refine (wp_getRun_bind _).mpr ((wp_emit_bind _ _ _ _ _ _).mpr ?_)
      exact hcommit _ rfl (h.1.memory ⟨rfl, rfl, rfl, rfl, rfl, rfl, List.prefix_append _ _⟩)

theorem failures_outline :
    Outline cfg wf (fineSpec cfg wf redact) (Ready wf redact runId) (Entered cfg redact runId)
      (fun _ _ => Settled redact runId)
      (fun step e m x => e.escapes = false ∧ Entered cfg redact runId step m x)
      (Accounted redact runId) where
  unknown := by
    intro stepId m x hnone hready
    have hsome := hready.2 stepId rfl
    rw [hnone] at hsome
    cases hsome
  budget := by
    intro stepId step violation m x _ hready _
    exact Act.wp_mono _ (fun _ _ _ h _ => h) (fun _ _ _ h => h)
      (recorded_failRun hready.1.1 "budget exceeded" violation)
  enter := by
    intro stepId step m x _ hready _
    refine (wp_modifyRun_bind _ _).mpr ((wp_emit_bind _ _ _ _ _ _).mpr ?_)
    refine (Act.wp_perform _).mpr ?_
    rintro _ rfl
    refine ⟨trivial, fun answer y hs => ⟨m.run.context, ⟨?_, ?_, rfl, nofun⟩, hs.2.1⟩⟩
    · refine Intact.call ⟨hready.1.1.id, hready.1.1.row, fun event hevent ev hev => ?_⟩ hs
      exact (hready.1.1.events event hevent ev hev).imp_left (List.mem_append_left _)
    · exact not_compensating_emit (m := { m with run := { m.run with
        stepsUsed := m.run.stepsUsed + 1 } }) hready.1.2 (by decide)
  run := by
    rintro step m x - - ⟨context, hclean, hsound⟩
    exact Act.wp_mono _ (fun _ _ _ h => h) (fun _ _ _ h => ⟨h.1, context, h.2, hsound⟩)
      (handles_runStep hsound m x hclean)
  retry := by
    rintro step e attempt m x _ _ ⟨hescapes, context, hclean, hsound⟩
    refine Act.wp_mono _ (fun _ _ _ h => ?_) (fun _ _ _ h => ⟨h.1, context, h.2, hsound⟩)
      (behaves_emit (by decide) _ _ _ _ m x hclean)
    exact ⟨⟨context, h, hsound⟩, hescapes, context, h, hsound⟩
  exhausted := fun step m x h => ⟨rfl, h⟩
  denied := by
    rintro step e m x _ _ ⟨_, context, hclean, _⟩
    exact Act.wp_mono _ (fun _ _ _ h _ => h) (fun _ _ _ h => h)
      (recorded_failRun hclean.intact "policy denied" e.str)
  failed := by
    rintro step e m x _ _ ⟨_, context, hclean, _⟩
    refine (Act.wp_bind _ _).mpr (Act.wp_mono _ (fun _ m' x' h => ?_) (fun _ _ _ h => h.elim)
      (intact_compensate step hclean.intact))
    exact Act.wp_mono _ (fun _ _ _ h _ => h) (fun _ _ _ h => h)
      (recorded_failRun h "step failed" e.str)
  other := by
    rintro step e m x _ hdenied hconnector ⟨hescapes, _⟩ hbass
    rw [Exc.escapes, hbass, hdenied, hconnector] at hescapes
    cases hescapes
  finish := fun step next m x _ h => ready_advance next h

end Loop

/-- Every platform error that `resume` raises has been recorded: the stored run is failed, and every
event that was emitted is in the trace. -/
theorem failure_recorded {cfg : EngineConfig} {wf : Workflow} {redact : Json → Json} {m m' : Mem}
    {db db' : DB} {trail : Trail} {e : Exc} (hrow : (db.runs.find? m.run.id).isSome)
    (hcursor : (wf.steps.get? (m.run.cursorStep.getD wf.start)).isSome)
    (houtside : ¬m.compensating)
    (hexec : Prog.Exec (Call.step cfg.policy redact) ((WorkflowEngine.resume cfg wf).exec m) db
      trail (.pure (.error e, m')) db')
    (hfine : ∀ before call answer after, trail = before ++ ⟨call, answer⟩ :: after →
      Fine cfg wf before call answer)
    (hbass : e.isBassError = true) :
    (∃ row, db'.runs.find? m.run.id = some row ∧ row.status = .failed) ∧
      ∀ event ∈ trail, ∀ ev ∈ event.1.mem.buffer, Stored redact db' ev := by
  have hready : Ready wf redact m.run.id (some (m.run.cursorStep.getD wf.start))
      { m with run := { m.run with status := .running } } (db, []) := by
    refine ⟨⟨⟨rfl, hrow, fun _ hevent => absurd hevent List.not_mem_nil⟩, houtside⟩, ?_⟩
    rintro name ⟨⟩
    exact hcursor
  have hwp : Act.wp (fineSpec cfg wf redact) (WorkflowEngine.resume cfg wf) (fun _ _ _ => True)
      (fun e => Accounted redact m.run.id e) m (db, []) := by
    cases hstatus : m.run.status.terminal with
    | true => exact resume_of_terminal hstatus trivial
    | false =>
        exact Act.wp_mono _ (fun _ _ _ _ => trivial) (fun _ _ _ h => h.2)
          (failures_outline.resume hstatus hready)
  obtain ⟨hintact, hflushed, hfailed⟩ := Act.wp_of_exec
    ((hexec.recorded []).restrict hfine) hwp hbass
  refine ⟨hfailed, fun event hevent ev hev => ?_⟩
  have hkept := hintact.events event hevent ev hev
  rw [hflushed] at hkept
  exact hkept.resolve_left List.not_mem_nil

/-! ### Two runs -/

/-- Without rules, a mutating tool is denied. -/
def ungoverned : EngineConfig := { payDeployment.engine with policy := ⟨[], List.Pairwise.nil⟩ }

def deniedRun : Trail × (Except Exc Unit × Mem) × DB :=
  playResume ungoverned payWorkflow (.constant .null) "run"

theorem failure_recorded_deniedRun :
    (∃ row, deniedRun.2.2.runs.find? "run" = some row ∧ row.status = .failed) ∧
      ∀ event ∈ deniedRun.1, ∀ ev ∈ event.1.mem.buffer, Stored id deniedRun.2.2 ev := by
  have hdenied : ∃ e m', deniedRun.2.1 = (.error e, m') ∧ e.isBassError = true := ⟨_, _, rfl, rfl⟩
  obtain ⟨e, m', hout, hbass⟩ := hdenied
  have hexec := playResume_exec ungoverned payWorkflow (.constant .null) "run"
  rw [← deniedRun, hout] at hexec
  refine failure_recorded (m := ⟨(newRow "run" "payments").toRun, []⟩) rfl rfl ?_ hexec ?_ hbass
  · rintro ⟨ev, hmem, -⟩
    exact absurd hmem List.not_mem_nil
  · intro before call answer after hsplit
    have htrail : ∃ m₁ m₂ m₃ m₄ decision, deniedRun.1 =
        [⟨⟨m₁, .stepSpan payStep⟩, ()⟩, ⟨⟨m₂, .getEffect "acme" "run:pay:pay"⟩, .ok .null⟩,
          ⟨⟨m₃, .policyCheck (WorkflowEngine.systemAgent "pay") payTool Table.empty Table.empty⟩,
            decision⟩,
          ⟨⟨m₄, .checkpoint m₄.run m₄.buffer⟩, .ok ()⟩] ∧ m₄.run.cursorStep = none :=
      ⟨_, _, _, _, _, rfl, rfl⟩
    obtain ⟨m₁, m₂, m₃, m₄, decision, htrail, hcursor⟩ := htrail
    rw [htrail] at hsplit
    rcases List.cons_eq_append_iff.mp hsplit with ⟨rfl, hcons⟩ | ⟨_, rfl, hsplit₁⟩
    · cases hcons
      rintro name ⟨rfl⟩
      exact ⟨⟨payTool, rfl⟩, fun _ he => nomatch he⟩
    rcases List.cons_eq_append_iff.mp hsplit₁ with ⟨rfl, hcons⟩ | ⟨_, rfl, hsplit₂⟩
    · cases hcons
      exact ⟨.null, rfl⟩
    rcases List.cons_eq_append_iff.mp hsplit₂ with ⟨rfl, hcons⟩ | ⟨_, rfl, hsplit₃⟩
    · cases hcons
      trivial
    rcases List.cons_eq_append_iff.mp hsplit₃ with ⟨rfl, hcons⟩ | ⟨_, rfl, hsplit₄⟩
    · cases hcons
      exact ⟨rfl, fun name heq => nomatch hcursor.symm.trans heq⟩
    · exact absurd hsplit₄ (by simp)

/-- An agent whose model asks for a tool that is not registered. -/
def triageEngine : EngineConfig :=
  { payDeployment.engine with
    agents := Dict.ofList [("triage",
      { name := "triage"
        role := ""
        instructions := "" })] }

def triageWorkflow : Workflow :=
  { name := "triage"
    steps := Dict.ofList [("triage",
      { id := "triage"
        nodeType := .agent
        agent := some "triage" })]
    start := "triage"
    id := "triage" }

def asksForGhost : World :=
  { World.constant .null with
    respond := fun _ _ scratch =>
      .ok ({ type := some "tool_calls", calls := some [{ tool := some "ghost" }] }, scratch) }

/-- The registry raises `ToolError`, which nothing on the way out of the engine catches: the run is
stored as it was, and the events of the step are nowhere. -/
theorem failure_lost_unknownTool :
    ∃ (trail : Trail) (m : Mem) (db : DB) (message : String),
      Prog.Exec (Call.step triageEngine.policy id)
        ((WorkflowEngine.resume triageEngine triageWorkflow).exec
          ⟨(newRow "run" "triage").toRun, []⟩) (DB.withRun "run" "triage") trail
        (.pure (.error (.bass .toolError message), m)) db ∧
      (∃ row, db.runs.find? "run" = some row ∧ row.status = .pending) ∧
      (∃ event ∈ trail, ∃ ev ∈ event.1.mem.buffer, ev.type = "state_transition") ∧
      db.events.rows = [] := by
  let out := playResume triageEngine triageWorkflow asksForGhost "run"
  have hexec := playResume_exec triageEngine triageWorkflow asksForGhost "run"
  have hout : ∃ message m, out.2.1 = (.error (.bass .toolError message), m) := ⟨_, _, rfl⟩
  obtain ⟨message, m, hout⟩ := hout
  rw [hout] at hexec
  have hasked : (out.1[1]?).map (fun event => event.1.mem.buffer.map (·.type)) =
      some ["state_transition"] := rfl
  obtain ⟨event, hevent, hbuffer⟩ := Option.map_eq_some_iff.mp hasked
  have htypes : "state_transition" ∈ event.1.mem.buffer.map (·.type) := by simp [hbuffer]
  obtain ⟨ev, hmem, htype⟩ := List.mem_map.mp htypes
  exact ⟨_, m, _, message, hexec, ⟨_, rfl, rfl⟩,
    ⟨_, List.mem_of_getElem? hevent, ev, hmem, htype⟩, rfl⟩

end Bass
