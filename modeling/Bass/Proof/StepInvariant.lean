import Bass.Workflow

/-!
# Invariants of a step

While it runs a step the engine mostly moves the cursor, the status and the cost and appends to the
buffer. `StepInv` lists what an invariant between a driver's memory and the shared state has to
survive beyond that, one field for each place where a step calls out or writes the context; the walk
over the code of a step is done once, here.
-/

namespace Bass

open Interaction EngineM

variable {σ : Type}

/-- The memories of one driver during a step: what they say of the run that no step changes. -/
structure SameIdent (m m' : Mem) : Prop where
  id : m'.run.id = m.run.id
  tenantId : m'.run.tenantId = m.run.tenantId
  workflowId : m'.run.workflowId = m.run.workflowId
  idempotencyKey : m'.run.idempotencyKey = m.run.idempotencyKey
  triggerEvent : m'.run.triggerEvent = m.run.triggerEvent
  stepsUsed : m'.run.stepsUsed = m.run.stepsUsed
  buffer : m.buffer <+: m'.buffer

/-- Memories that differ in the status, the cursor, the cost and the result, and in events that the
second has in addition. -/
structure SameRun (m m' : Mem) : Prop extends SameIdent m m' where
  context : m'.run.context = m.run.context

/-- In addition the cost is the same, and the new events cost nothing. -/
structure Quiet (m m' : Mem) : Prop extends SameRun m m' where
  cost : m'.run.costUsd = m.run.costUsd
  free : ∃ events, m'.buffer = m.buffer ++ events ∧ ∀ ev ∈ events, ev.costUsd = 0

/-- The run in memory is at the same step and in the same status. -/
structure InPlace (m m' : Mem) : Prop extends SameIdent m m' where
  status : m'.run.status = m.run.status
  cursorStep : m'.run.cursorStep = m.run.cursorStep

/-- What a wait for an approval does to the run in memory. -/
structure Awaits (m m' : Mem) : Prop extends Quiet m m' where
  cursorStep : m'.run.cursorStep = m.run.cursorStep
  status : m'.run.status = m.run.status ∨ m'.run.status = .waitingApproval ∨ m'.run.status = .running

/-- The calls that the engine makes between two checkpoints. -/
def Op.Inner : Op → Prop
  | .getEffect .. | .recordEffect .. | .createApproval .. | .resolveApproval ..
  | .latestApproval .. | .stepSpan _ | .policyCheck .. | .respond .. | .execute ..
  | .approvalFn .. => True
  | _ => False

/-- The calls that settle an approval. -/
def Op.Asking : Op → Prop
  | .createApproval .. | .resolveApproval .. | .latestApproval .. | .approvalFn .. => True
  | _ => False

/-- The inner calls other than the entry into a step and the execution of a tool step. -/
def Op.Plain : Op → Prop
  | .stepSpan _ | .execute (.step _) _ _ => False
  | op => op.Inner

/-- The inner calls that neither enter a step nor settle an approval. -/
def Op.Acting : Op → Prop
  | .getEffect .. | .recordEffect .. | .policyCheck .. | .respond .. | .execute .. => True
  | _ => False

/-- The inner calls other than the entry into a step. -/
def Op.InStep : Op → Prop
  | .stepSpan _ => False
  | op => op.Inner

theorem Op.Asking.plain {op : Op} (h : op.Asking) : op.Plain := by
  cases op <;> trivial

theorem Op.Plain.inner {op : Op} (h : op.Plain) : op.Inner := by
  cases op <;> trivial

theorem Op.Plain.inStep {op : Op} (h : op.Plain) : op.InStep := by
  cases op <;> trivial

theorem Op.Acting.inStep {op : Op} (h : op.Acting) : op.InStep := by
  cases op <;> trivial

theorem Op.InStep.inner {op : Op} (h : op.InStep) : op.Inner := by
  cases op <;> trivial

theorem Op.Inner.ne_insertRun {op : Op} (h : op.Inner) (run : Run) : op ≠ .insertRun run := by
  rintro rfl
  exact h

theorem Op.Inner.ne_checkpoint {op : Op} (h : op.Inner) (run : Run) (events : List Event) :
    op ≠ .checkpoint run events := by
  rintro rfl
  exact h

/-- A step of the workflow. -/
def Workflow.HasStep (wf : Workflow) (step : Step) : Prop :=
  ∃ name, wf.steps.get? name = some step

theorem hasStep_of_compensation {wf : Workflow} {step comp : Step}
    (h : WorkflowEngine.compensation wf step = some comp) : wf.HasStep comp := by
  unfold WorkflowEngine.compensation at h
  split at h
  · cases h
  · split at h
    · cases h
    · exact ⟨_, h⟩

/-- An agent the engine knows. -/
def EngineConfig.HasAgent (cfg : EngineConfig) (agent : Agent) : Prop :=
  ∃ name, cfg.agents.get? name = some agent

/-- A checkpoint made in this status keeps the invariant. -/
def SavedIn (S : Spec Call Call.Res σ) (J : Mem → σ → Prop) (status : RunStatus) : Prop :=
  ∀ m s, J m s → m.run.status = status →
    Act.wp S EngineM.checkpoint (fun _ => J) (fun _ => J) m s

theorem savedIn_of_keeps {S : Spec Call Call.Res σ} {J : Mem → σ → Prop}
    (h : Act.Keeps S J EngineM.checkpoint) (status : RunStatus) : SavedIn S J status :=
  fun m s hJ _ => h m s hJ

structure StepInv (cfg : EngineConfig) (wf : Workflow) (S : Spec Call Call.Res σ)
    (J : Mem → σ → Prop) : Prop where
  memory : ∀ m m' s, SameRun m m' → J m s → J m' s
  output : ∀ step, wf.HasStep step → step.nodeType = .agent → ∀ m s output, J m s →
    J { m with run := { m.run with context := Dict.set m.run.context step.id output } } s
  respond : ∀ agent task scratch, Act.Keeps S J (perform (.respond agent task scratch))
  execCall : ∀ agent, cfg.HasAgent agent → ∀ call,
    Act.Keeps S J (AgentRuntime.execCall cfg agent call)
  await : ∀ step approvers tool args,
    Act.Keeps S J (WorkflowEngine.awaitApproval cfg step approvers tool args)
  tool : ∀ step, wf.HasStep step → step.nodeType = .tool →
    Act.Keeps S J (WorkflowEngine.runTool cfg step)
  failed : SavedIn S J .failed

/-- The invariant once a model's answer has been booked: the cost first and the event after it, so
that an answer without a type leaves the cost without its event. -/
def Booked (J : Mem → σ → Prop) (agent : Agent) (answer : Except Exc (Response × Scratch)) (m : Mem)
    (s : σ) : Prop :=
  match answer with
  | .error _ => J m s
  | .ok (resp, _) =>
      let run := { m.run with costUsd := m.run.costUsd + resp.costUsd.getD 0 }
      match resp.type with
      | none => J { m with run := run } s
      | some kind =>
          J { run := run
              buffer := m.buffer ++ [⟨m.run.id, m.run.tenantId, "agent_message",
                .obj [("agent", .str agent.name), ("kind", .str kind)], none, agent.name,
                resp.costUsd.getD 0⟩] } s

/-- What the handlers of a step owe: they keep `J` and return with it, and one that raises `e` leaves
`E e`. -/
structure Handlers (cfg : EngineConfig) (wf : Workflow) (S : Spec Call Call.Res σ)
    (J : Mem → σ → Prop) (E : Exc → Mem → σ → Prop) : Prop where
  raised : ∀ e m s, J m s → E e m s
  emit : ∀ m s (ev : Event), ev.costUsd = 0 → J m s → J { m with buffer := m.buffer ++ [ev] } s
  output : ∀ step, wf.HasStep step → step.nodeType = .agent → ∀ m s output, J m s →
    J { m with run := { m.run with context := Dict.set m.run.context step.id output } } s
  model : ∀ agent task scratch m s, J m s →
    Act.wp S (perform (.respond agent task scratch)) (Booked J agent) (fun _ => J) m s
  execCall : ∀ agent, cfg.HasAgent agent → ∀ call,
    Act.Leaves S J E (AgentRuntime.execCall cfg agent call)
  await : ∀ step approvers tool args,
    Act.Leaves S J E (WorkflowEngine.awaitApproval cfg step approvers tool args)
  tool : ∀ step, wf.HasStep step → step.nodeType = .tool →
    Act.Leaves S J E (WorkflowEngine.runTool cfg step)

/-- What an invariant that looks at the cost has to survive. -/
structure StepWalk (cfg : EngineConfig) (wf : Workflow) (S : Spec Call Call.Res σ)
    (J : Mem → σ → Prop) : Prop where
  quiet : ∀ m m' s, Quiet m m' → J m s → J m' s
  output : ∀ step, wf.HasStep step → step.nodeType = .agent → ∀ m s output, J m s →
    J { m with run := { m.run with context := Dict.set m.run.context step.id output } } s
  model : ∀ agent task scratch m s, J m s →
    Act.wp S (perform (.respond agent task scratch)) (Booked J agent) (fun _ => J) m s
  execCall : ∀ agent, cfg.HasAgent agent → ∀ call,
    Act.Keeps S J (AgentRuntime.execCall cfg agent call)
  await : ∀ step approvers tool args,
    Act.Keeps S J (WorkflowEngine.awaitApproval cfg step approvers tool args)
  tool : ∀ step, wf.HasStep step → step.nodeType = .tool →
    Act.Keeps S J (WorkflowEngine.runTool cfg step)
  failed : SavedIn S J .failed

section Pieces

variable {S : Spec Call Call.Res σ} {J : Mem → σ → Prop}

/-- Appending an event that costs nothing. -/
theorem quiet_emit {m : Mem} {ev : Event} (h : ev.costUsd = 0) :
    Quiet m { m with buffer := m.buffer ++ [ev] } :=
  ⟨⟨⟨rfl, rfl, rfl, rfl, rfl, rfl, List.prefix_append _ _⟩, rfl⟩, rfl, [ev], rfl,
    fun ev' hmem => by rwa [List.mem_singleton.mp hmem]⟩

/-- A change of the status, the cursor and the result only. -/
theorem quiet_of_run {m : Mem} {run : Run} (hid : run.id = m.run.id)
    (htenant : run.tenantId = m.run.tenantId) (hworkflow : run.workflowId = m.run.workflowId)
    (hkey : run.idempotencyKey = m.run.idempotencyKey)
    (htrigger : run.triggerEvent = m.run.triggerEvent) (hsteps : run.stepsUsed = m.run.stepsUsed)
    (hcontext : run.context = m.run.context) (hcost : run.costUsd = m.run.costUsd) :
    Quiet m { m with run := run } :=
  ⟨⟨⟨hid, htenant, hworkflow, hkey, htrigger, hsteps, List.prefix_rfl⟩, hcontext⟩, hcost, [],
    (List.append_nil _).symm, fun _ h => absurd h List.not_mem_nil⟩

theorem keeps_free_emit (hquiet : ∀ m m' s, Quiet m m' → J m s → J m' s) (type : String)
    (payload : Json) (stepId : Option String) (actor : String) :
    Act.Keeps S J (emit type payload stepId 0 actor) :=
  Act.keeps_modify fun m s h => hquiet m _ s (quiet_emit rfl) h

theorem keeps_emit (hmem : ∀ m m' s, SameRun m m' → J m s → J m' s) (type : String)
    (payload : Json) (stepId : Option String) (costUsd : ℚ) (actor : String) :
    Act.Keeps S J (emit type payload stepId costUsd actor) :=
  Act.keeps_modify fun m s h =>
    hmem m _ s ⟨⟨rfl, rfl, rfl, rfl, rfl, rfl, List.prefix_append _ _⟩, rfl⟩ h

theorem keeps_emit_inPlace
    (hplace : ∀ (m m' : Mem) s, InPlace m m' → m'.run.context = m.run.context → J m s → J m' s)
    (type : String) (payload : Json) (stepId : Option String) (costUsd : ℚ) (actor : String) :
    Act.Keeps S J (emit type payload stepId costUsd actor) :=
  Act.keeps_modify fun m s h =>
    hplace m _ s ⟨⟨rfl, rfl, rfl, rfl, rfl, rfl, List.prefix_append _ _⟩, rfl, rfl⟩ rfl h

theorem booked_inPlace
    (hplace : ∀ (m m' : Mem) s, InPlace m m' → m'.run.context = m.run.context → J m s → J m' s)
    {agent : Agent} {answer : Except Exc (Response × Scratch)} {m : Mem} {s : σ} (hJ : J m s) :
    Booked J agent answer m s := by
  cases answer with
  | error e => exact hJ
  | ok out =>
      obtain ⟨resp, scratch⟩ := out
      unfold Booked
      dsimp only
      split
      · exact hplace m _ s ⟨⟨rfl, rfl, rfl, rfl, rfl, rfl, List.prefix_rfl⟩, rfl, rfl⟩ rfl hJ
      · exact hplace m _ s ⟨⟨rfl, rfl, rfl, rfl, rfl, rfl, List.prefix_append _ _⟩, rfl, rfl⟩ rfl hJ

theorem keeps_modifyRun {f : Run → Run} (hf : ∀ m s, J m s → J { m with run := f m.run } s) :
    Act.Keeps S J (modifyRun f) :=
  Act.keeps_modify hf

theorem keeps_setStatus_quiet (hquiet : ∀ m m' s, Quiet m m' → J m s → J m' s)
    (status : RunStatus) : Act.Keeps S J (WorkflowEngine.setStatus status) :=
  keeps_modifyRun fun m s h => hquiet m _ s (quiet_of_run rfl rfl rfl rfl rfl rfl rfl rfl) h

theorem keeps_getRun : Act.Keeps S J getRun :=
  Act.keeps_bind Act.keeps_get fun m => Act.keeps_pure m.run

end Pieces

namespace Handlers

variable {cfg : EngineConfig} {wf : Workflow} {S : Spec Call Call.Res σ} {J : Mem → σ → Prop}
  {E : Exc → Mem → σ → Prop}

theorem freeEmit (h : Handlers cfg wf S J E) (type : String) (payload : Json)
    (stepId : Option String) (actor : String) :
    Act.Leaves S J E (EngineM.emit type payload stepId 0 actor) :=
  fun m s hJ => h.emit m s _ rfl hJ

theorem ofExcept (h : Handlers cfg wf S J E) {α : Type} (x : Except Exc α) :
    Act.Leaves S J E (Act.ofExcept x) :=
  (Act.keeps_ofExcept x).leaves h.raised

/-! ### The agent loop -/

theorem execCalls (h : Handlers cfg wf S J E) {agent : Agent} (hagent : cfg.HasAgent agent)
    (calls : List ToolCall) : Act.Leaves S J E (AgentRuntime.execCalls cfg agent calls) := by
  induction calls with
  | nil => exact fun _ _ hJ => hJ
  | cons call rest ih =>
      refine Act.leaves_bind (h.execCall agent hagent call) fun result => ?_
      exact Act.leaves_bind ih fun results _ _ hJ => hJ

theorem loop (h : Handlers cfg wf S J E) {agent : Agent} (hagent : cfg.HasAgent agent)
    (task : Args) (n : Nat) (scratch : Scratch) :
    Act.Leaves S J E (AgentRuntime.loop cfg agent task n scratch) := by
  induction n generalizing scratch with
  | zero => exact Act.leaves_throw (h.raised _)
  | succ n ih =>
      intro m s hJ
      refine (Act.wp_bind _ _).mpr (Act.wp_mono _ ?_ (fun e _ _ hJ' => h.raised e _ _ hJ')
        (h.model agent task scratch m s hJ))
      intro answer m' s' hbooked
      refine (Act.wp_ofExcept_bind _ _).mpr ?_
      cases answer with
      | error e => exact h.raised e m' s' hbooked
      | ok out =>
          obtain ⟨resp, scratch'⟩ := out
          refine (wp_modifyRun_bind _ _).mpr ((Act.wp_ofExcept_bind _ _).mpr ?_)
          cases htype : resp.type with
          | none =>
              simp only [Booked, htype] at hbooked
              exact h.raised _ _ s' hbooked
          | some kind =>
              refine (wp_emit_bind _ _ _ _ _ _).mpr ?_
              have hanswered : Act.Leaves S J E (if kind = "tool_calls" then do
                  let calls ← Act.ofExcept (item "calls" resp.calls)
                  let results ← AgentRuntime.execCalls cfg agent calls
                  AgentRuntime.loop cfg agent task n (Dict.set scratch' "tool_results" (.arr results))
                else do
                  let output ← Act.ofExcept (item "output" resp.output)
                  EngineM.emit "agent_final" (.obj [("agent", .str agent.name), ("output", output)])
                    none 0 agent.name
                  return output) := by
                split
                · refine Act.leaves_bind (h.ofExcept _) fun calls => ?_
                  exact Act.leaves_bind (h.execCalls hagent calls) fun results => ih _
                · refine Act.leaves_bind (h.ofExcept _) fun output => ?_
                  exact Act.leaves_bind (h.freeEmit _ _ _ _) fun _ _ _ hJ => hJ
              simp only [Booked, htype] at hbooked
              exact hanswered _ s' hbooked

/-! ### Node handlers -/

theorem getRun (h : Handlers cfg wf S J E) : Act.Leaves S J E EngineM.getRun :=
  keeps_getRun.leaves h.raised

theorem runAgent (h : Handlers cfg wf S J E) {step : Step} (hstep : wf.HasStep step)
    (htype : step.nodeType = .agent) : Act.Leaves S J E (WorkflowEngine.runAgent cfg step) := by
  unfold WorkflowEngine.runAgent
  split
  · exact Act.leaves_throw (h.raised _)
  · rename_i agent hagent
    obtain ⟨name, -, hname⟩ := Option.bind_eq_some_iff.mp hagent
    refine Act.leaves_bind h.getRun fun run => ?_
    refine Act.leaves_bind (h.ofExcept _) fun args => ?_
    refine Act.leaves_bind (h.loop ⟨name, hname⟩ _ _ _) fun output => ?_
    exact fun m s hJ => h.output step hstep htype m s output hJ

theorem runBranch (h : Handlers cfg wf S J E) (step : Step) :
    Act.Leaves S J E (WorkflowEngine.runBranch step) := by
  refine Act.leaves_bind h.getRun fun run => ?_
  refine Act.leaves_bind (h.ofExcept _) fun choice => ?_
  cases choice with
  | none => exact fun _ _ hJ => hJ
  | some goto => exact Act.leaves_bind (h.freeEmit _ _ _ _) fun _ _ _ hJ => hJ

theorem runApproval (h : Handlers cfg wf S J E) (step : Step) :
    Act.Leaves S J E (WorkflowEngine.runApproval cfg step) := by
  refine Act.leaves_bind (h.await _ _ _ _) fun granted => ?_
  split
  · exact fun _ _ hJ => hJ
  · exact Act.leaves_throw (h.raised _)

theorem runStep (h : Handlers cfg wf S J E) {step : Step} (hstep : wf.HasStep step) :
    Act.Leaves S J E (WorkflowEngine.runStep cfg step) := by
  unfold WorkflowEngine.runStep
  cases htype : step.nodeType with
  | agent => exact h.runAgent hstep htype
  | tool => exact h.tool step hstep htype
  | branch => exact h.runBranch step
  | approval => exact h.runApproval step
  | terminate => exact fun _ _ hJ => hJ
  | other name => exact Act.leaves_throw (h.raised _)

end Handlers

namespace StepWalk

variable {cfg : EngineConfig} {wf : Workflow} {S : Spec Call Call.Res σ} {J : Mem → σ → Prop}

/-- The invariants are the handlers that leave the same assertion however they end. -/
theorem handlers (h : StepWalk cfg wf S J) : Handlers cfg wf S J fun _ => J where
  raised := fun _ _ _ hJ => hJ
  emit := fun m s _ hcost hJ => h.quiet m _ s (quiet_emit hcost) hJ
  output := h.output
  model := h.model
  execCall := h.execCall
  await := h.await
  tool := h.tool

theorem runStep (h : StepWalk cfg wf S J) {step : Step} (hstep : wf.HasStep step) :
    Act.Keeps S J (WorkflowEngine.runStep cfg step) :=
  h.handlers.runStep hstep

/-! ### The step loop -/

theorem attempts (h : StepWalk cfg wf S J) {step : Step} (hstep : wf.HasStep step)
    (n attempt : Nat) (last : Option Exc) :
    Act.Keeps S J (WorkflowEngine.attempts cfg step n attempt last) := by
  induction n generalizing attempt last with
  | zero => cases last <;> exact Act.keeps_throw _
  | succ n ih =>
      refine Act.keeps_tryCatch (h.runStep hstep) fun e => ?_
      split
      · exact Act.keeps_bind (keeps_free_emit h.quiet _ _ _ _) fun _ => ih _ _
      · exact Act.keeps_throw _

theorem compensate (h : StepWalk cfg wf S J) (step : Step) :
    Act.Keeps S J (WorkflowEngine.compensate cfg wf step) := by
  unfold WorkflowEngine.compensate
  split
  · exact Act.keeps_pure _
  · rename_i comp hcomp
    refine Act.keeps_bind (keeps_free_emit h.quiet _ _ _ _) fun _ => ?_
    refine Act.keeps_tryCatch ?_ fun e => keeps_free_emit h.quiet _ _ _ _
    exact Act.keeps_bind (h.runStep (hasStep_of_compensation hcomp)) fun _ => Act.keeps_pure _

theorem failRun (h : StepWalk cfg wf S J) (reason detail : String) :
    Act.Keeps S J (WorkflowEngine.failRun reason detail) := by
  intro m s hJ
  refine (wp_modifyRun_bind _ _).mpr ((wp_emit_bind _ _ _ _ _ _).mpr (h.failed _ s ?_ rfl))
  exact h.quiet m _ s ⟨⟨⟨rfl, rfl, rfl, rfl, rfl, rfl, List.prefix_append _ _⟩, rfl⟩, rfl, [_], rfl, by simp⟩ hJ

theorem stepFailed (h : StepWalk cfg wf S J) (step : Step) (e : Exc) :
    Act.Keeps S J (WorkflowEngine.stepFailed cfg wf step e) := by
  unfold WorkflowEngine.stepFailed
  split
  · exact Act.keeps_bind (h.failRun _ _) fun _ => Act.keeps_throw _
  · split
    · exact Act.keeps_bind (h.compensate step) fun _ =>
        Act.keeps_bind (h.failRun _ _) fun _ => Act.keeps_throw _
    · exact Act.keeps_throw _

theorem advance (h : StepWalk cfg wf S J) (hcheckpoint : Act.Keeps S J EngineM.checkpoint)
    (next : Option String) :
    Act.Keeps S J (WorkflowEngine.advance next) := by
  refine Act.keeps_bind
    (keeps_modifyRun fun m s hJ => h.quiet m _ s (quiet_of_run rfl rfl rfl rfl rfl rfl rfl rfl) hJ) fun _ => ?_
  split
  · refine Act.keeps_bind (keeps_setStatus_quiet h.quiet _) fun _ => ?_
    refine Act.keeps_bind
      (keeps_modifyRun fun m s hJ => h.quiet m _ s (quiet_of_run rfl rfl rfl rfl rfl rfl rfl rfl) hJ) fun _ => ?_
    refine Act.keeps_bind keeps_getRun fun run => ?_
    exact Act.keeps_bind (keeps_free_emit h.quiet _ _ _ _) fun _ => hcheckpoint
  · exact hcheckpoint

end StepWalk

namespace StepInv

variable {cfg : EngineConfig} {wf : Workflow} {S : Spec Call Call.Res σ} {J : Mem → σ → Prop}

/-- An invariant that any cost satisfies survives the booking of one. -/
theorem booked (h : StepInv cfg wf S J) {agent : Agent} {answer : Except Exc (Response × Scratch)}
    {m : Mem} {s : σ} (hJ : J m s) : Booked J agent answer m s :=
  booked_inPlace (fun m m' s hplace hcontext => h.memory m m' s ⟨hplace.toSameIdent, hcontext⟩) hJ

theorem walk (h : StepInv cfg wf S J) : StepWalk cfg wf S J where
  quiet := fun m m' s hquiet => h.memory m m' s hquiet.toSameRun
  output := h.output
  model := fun agent task scratch m s hJ =>
    Act.wp_mono _ (fun _ _ _ hJ' => h.booked hJ') (fun _ _ _ hJ' => hJ')
      (h.respond agent task scratch m s hJ)
  execCall := h.execCall
  await := h.await
  tool := h.tool
  failed := h.failed

theorem runStep (h : StepInv cfg wf S J) {step : Step} (hstep : wf.HasStep step) :
    Act.Keeps S J (WorkflowEngine.runStep cfg step) :=
  h.walk.runStep hstep

theorem attempts (h : StepInv cfg wf S J) {step : Step} (hstep : wf.HasStep step)
    (n attempt : Nat) (last : Option Exc) :
    Act.Keeps S J (WorkflowEngine.attempts cfg step n attempt last) :=
  h.walk.attempts hstep n attempt last

theorem compensate (h : StepInv cfg wf S J) (step : Step) :
    Act.Keeps S J (WorkflowEngine.compensate cfg wf step) :=
  h.walk.compensate step

theorem failRun (h : StepInv cfg wf S J) (reason detail : String) :
    Act.Keeps S J (WorkflowEngine.failRun reason detail) :=
  h.walk.failRun reason detail

theorem stepFailed (h : StepInv cfg wf S J) (step : Step) (e : Exc) :
    Act.Keeps S J (WorkflowEngine.stepFailed cfg wf step e) :=
  h.walk.stepFailed step e

theorem advance (h : StepInv cfg wf S J) (hcheckpoint : Act.Keeps S J EngineM.checkpoint)
    (next : Option String) : Act.Keeps S J (WorkflowEngine.advance next) :=
  h.walk.advance hcheckpoint next

end StepInv

/-! ### Invariants that only name the run

When the invariant looks at no more of the run than what no step changes, it is enough that every
call keeps it on its own. -/

section OwnRun

variable {cfg : EngineConfig} {S : Spec Call Call.Res σ} {J : Mem → σ → Prop}

theorem keeps_checkpoint_call
    (h : ∀ m s, J m s → ∀ s₁, S.rely s s₁ →
      S.guar s₁ ⟨m, .checkpoint m.run m.buffer⟩ ∧
        ∀ answer s', S.step s₁ ⟨m, .checkpoint m.run m.buffer⟩ answer s' →
          J m s' ∧ J { m with buffer := [] } s') :
    Act.Keeps S J EngineM.checkpoint := by
  intro m s hJ
  refine wp_checkpoint.mpr fun s₁ hrely => ?_
  obtain ⟨hguar, hstep⟩ := h m s hJ s₁ hrely
  refine ⟨hguar, fun answer s' hs => ?_⟩
  obtain ⟨hkept, hcleared⟩ := hstep answer s' hs
  cases answer with
  | ok value => exact hcleared
  | error e => exact hkept

section Approvals

variable (hawaits : ∀ (m m' : Mem) s, Awaits m m' → J m s → J m' s)
  (hop : ∀ op : Op, op.Asking → Act.Keeps S J (perform op))

theorem awaits_emit {m : Mem} {ev : Event} (h : ev.costUsd = 0) :
    Awaits m { m with buffer := m.buffer ++ [ev] } :=
  ⟨quiet_emit h, rfl, Or.inl rfl⟩

theorem awaits_status (m : Mem) {status : RunStatus} (h : status = .waitingApproval ∨ status = .running) :
    Awaits m { m with run := { m.run with status := status } } :=
  ⟨quiet_of_run rfl rfl rfl rfl rfl rfl rfl rfl, rfl, Or.inr h⟩

include hawaits hop

theorem keeps_awaitSync (step : Step) (approvers : List String) (tool : String) (args : Args) :
    Act.Keeps S J (WorkflowEngine.awaitSync step approvers tool args) := by
  have hemit : ∀ type payload stepId actor, Act.Keeps S J (emit type payload stepId 0 actor) :=
    fun _ _ _ _ => Act.keeps_modify fun m s hJ => hawaits m _ s (awaits_emit rfl) hJ
  have hstatus : ∀ status, status = .waitingApproval ∨ status = .running →
      Act.Keeps S J (WorkflowEngine.setStatus status) :=
    fun _ h => keeps_modifyRun fun m s hJ => hawaits m _ s (awaits_status m h) hJ
  refine Act.keeps_bind keeps_getRun fun run => ?_
  refine Act.keeps_bind (hop _ trivial) fun created => ?_
  refine Act.keeps_bind (Act.keeps_ofExcept _) fun approvalId => ?_
  refine Act.keeps_bind (hstatus _ (Or.inl rfl)) fun _ => ?_
  refine Act.keeps_bind (hemit _ _ _ _) fun _ => ?_
  refine Act.keeps_bind keeps_getRun fun run => ?_
  refine Act.keeps_bind (hop _ trivial) fun answer => ?_
  refine Act.keeps_bind (Act.keeps_ofExcept _) fun granted => ?_
  refine Act.keeps_bind (hop _ trivial) fun resolved => ?_
  refine Act.keeps_bind (Act.keeps_ofExcept _) fun _ => ?_
  refine Act.keeps_bind (hemit _ _ _ _) fun _ => ?_
  exact Act.keeps_bind (hstatus _ (Or.inr rfl)) fun _ => Act.keeps_pure _

theorem keeps_awaitAsync (hpause : SavedIn S J .waitingApproval) (step : Step)
    (approvers : List String) (tool : String) (args : Args) :
    Act.Keeps S J (WorkflowEngine.awaitAsync step approvers tool args) := by
  refine Act.keeps_bind keeps_getRun fun run => ?_
  refine Act.keeps_bind (hop _ trivial) fun existing => ?_
  split
  · refine Act.keeps_bind (hop _ trivial) fun created => ?_
    refine Act.keeps_bind (Act.keeps_ofExcept _) fun approvalId => ?_
    intro m s hJ
    refine (wp_modifyRun_bind _ _).mpr ((wp_emit_bind _ _ _ _ _ _).mpr ((Act.wp_bind _ _).mpr ?_))
    have hwaiting := hawaits m _ s (awaits_status m (Or.inl rfl)) hJ
    exact hpause _ s (hawaits _ _ s (awaits_emit rfl) hwaiting) rfl
  · split
    · intro m s hJ
      refine (wp_modifyRun_bind _ _).mpr ((Act.wp_bind _ _).mpr ?_)
      exact hpause _ s (hawaits m _ s (awaits_status m (Or.inl rfl)) hJ) rfl
    · refine Act.keeps_bind (Act.keeps_modify fun m s hJ => ?_) fun _ => Act.keeps_pure _
      exact hawaits m _ s (awaits_emit rfl) hJ

theorem keeps_awaitApproval (hpause : SavedIn S J .waitingApproval) (step : Step)
    (approvers : List String) (tool : String) (args : Args) :
    Act.Keeps S J (WorkflowEngine.awaitApproval cfg step approvers tool args) := by
  unfold WorkflowEngine.awaitApproval
  split
  · exact keeps_awaitSync hawaits hop step approvers tool args
  · exact keeps_awaitAsync hawaits hop hpause step approvers tool args

end Approvals

section Place

variable {E : Exc → Mem → σ → Prop} (hraised : ∀ e m s, J m s → E e m s)
  (hplace : ∀ (m m' : Mem) s, InPlace m m' → m'.run.context = m.run.context → J m s → J m' s)
  (hop : ∀ op : Op, op.Acting → op.Plain → Act.Keeps S J (perform op))

include hplace hop

theorem keeps_execCall (agent : Agent) (call : ToolCall) :
    Act.Keeps S J (AgentRuntime.execCall cfg agent call) := by
  have hemit : ∀ type payload stepId costUsd actor,
      Act.Keeps S J (emit type payload stepId costUsd actor) :=
    fun type payload stepId costUsd actor => keeps_emit_inPlace hplace type payload stepId costUsd actor
  refine Act.keeps_bind (Act.keeps_ofExcept _) fun name => ?_
  refine Act.keeps_bind (Act.keeps_ofExcept _) fun tool => ?_
  refine Act.keeps_bind keeps_getRun fun run => ?_
  refine Act.keeps_bind (hop _ trivial trivial) fun decision => ?_
  refine Act.keeps_bind (hemit _ _ _ _ _) fun _ => ?_
  split
  · refine Act.keeps_bind (hop _ trivial trivial) fun answer => ?_
    refine Act.keeps_bind (Act.keeps_ofExcept _) fun result => ?_
    refine Act.keeps_bind (keeps_modifyRun fun m s hJ =>
      hplace m _ s ⟨⟨rfl, rfl, rfl, rfl, rfl, rfl, List.prefix_rfl⟩, rfl, rfl⟩ rfl hJ) fun _ => ?_
    exact Act.keeps_bind (hemit _ _ _ _ _) fun _ => Act.keeps_pure _
  · exact Act.keeps_bind (hemit _ _ _ _ _) fun _ => Act.keeps_pure _

include hraised

theorem leaves_gate (hawait : ∀ step approvers tool args,
      Act.Leaves S J E (WorkflowEngine.awaitApproval cfg step approvers tool args))
    (step : Step) (tool : Tool) (name : String) (args : Args) :
    Act.Leaves S J E (WorkflowEngine.gate cfg step tool name args) := by
  refine Act.leaves_bind (keeps_getRun.leaves hraised) fun run => ?_
  refine Act.leaves_bind (Act.Keeps.leaves (hop _ trivial trivial) hraised) fun decision => ?_
  refine Act.leaves_bind ((keeps_emit_inPlace hplace _ _ _ _ _).leaves hraised) fun _ => ?_
  split
  · exact fun _ _ hJ => hJ
  · exact Act.leaves_throw (hraised _)
  · refine Act.leaves_bind (hawait _ _ _ _) fun granted => ?_
    split
    · exact fun _ _ hJ => hJ
    · exact Act.leaves_throw (hraised _)

end Place

section Tool

variable {E : Exc → Mem → σ → Prop} (hraised : ∀ e m s, J m s → E e m s)
  (hplace : ∀ (m m' : Mem) s, InPlace m m' → J m s → J m' s)
  (hop : ∀ op : Op, op.Acting → Act.Keeps S J (perform op))

omit hop in
include hplace in
/-- The tool of a step acts, and its effect is recorded under the key. -/
theorem keeps_act {step : Step} {tool : Tool} {name key : String} (args : Args)
    (hexecute : ∀ sent, Act.Keeps S J (perform (.execute (.step step.id) name sent)))
    (hrecord : ∀ tenantId runId result,
      Act.Keeps S J (perform (.recordEffect tenantId key runId step.id name result))) :
    Act.Keeps S J (WorkflowEngine.act step tool name args key) := by
  have hrun : ∀ f : Run → Run, (∀ m : Mem, InPlace m { m with run := f m.run }) →
      Act.Keeps S J (modifyRun f) := fun f hf => keeps_modifyRun fun m s hJ => hplace m _ s (hf m) hJ
  refine Act.keeps_bind (hexecute _) fun answer => ?_
  refine Act.keeps_bind (Act.keeps_ofExcept _) fun result => ?_
  refine Act.keeps_bind keeps_getRun fun run => ?_
  have hbook : Act.Keeps S J (do
      modifyRun fun run => { run with costUsd := run.costUsd + tool.costUsd }
      emit "tool_result" (.obj [("tool", .str name), ("result", result)]) (some step.id) tool.costUsd
      modifyRun fun run => { run with context := Dict.set run.context step.id result }
      return step.next) := by
    refine Act.keeps_bind (hrun _ fun m => ⟨⟨rfl, rfl, rfl, rfl, rfl, rfl, List.prefix_rfl⟩, rfl, rfl⟩)
      fun _ => ?_
    refine Act.keeps_bind (keeps_emit_inPlace (fun m m' s h _ => hplace m m' s h) _ _ _ _ _) fun _ => ?_
    refine Act.keeps_bind (hrun _ fun m => ⟨⟨rfl, rfl, rfl, rfl, rfl, rfl, List.prefix_rfl⟩, rfl, rfl⟩)
      fun _ => ?_
    exact Act.keeps_pure _
  split
  · exact Act.keeps_bind (hrecord _ _ _) fun _ => hbook
  · exact hbook

omit hplace hop in
theorem keeps_cachedEffect (hget : ∀ tenantId key, Act.Keeps S J (perform (.getEffect tenantId key)))
    (tool : Tool) (key : String) :
    Act.Keeps S J (WorkflowEngine.cachedEffect tool key) := by
  unfold WorkflowEngine.cachedEffect
  split
  · refine Act.keeps_bind keeps_getRun fun run => ?_
    exact Act.keeps_bind (hget _ _) fun answer => Act.keeps_ofExcept _
  · exact Act.keeps_pure _

include hplace hop

include hraised

theorem leaves_runTool (hawait : ∀ step approvers tool args,
      Act.Leaves S J E (WorkflowEngine.awaitApproval cfg step approvers tool args)) (step : Step) :
    Act.Leaves S J E (WorkflowEngine.runTool cfg step) := by
  unfold WorkflowEngine.runTool
  split
  · exact Act.leaves_throw (hraised _)
  · refine Act.leaves_bind ((Act.keeps_ofExcept _).leaves hraised) fun tool => ?_
    refine Act.leaves_bind (keeps_getRun.leaves hraised) fun run => ?_
    refine Act.leaves_bind ((Act.keeps_ofExcept _).leaves hraised) fun args => ?_
    refine Act.leaves_bind ((keeps_cachedEffect (fun _ _ => hop _ trivial) _ _).leaves hraised) fun cached => ?_
    split
    · refine Act.leaves_bind (leaves_gate hraised (fun m m' s h _ => hplace m m' s h)
        (fun op hacting _ => hop op hacting) hawait _ _ _ _) fun _ => ?_
      exact (keeps_act hplace _ (fun _ => hop _ trivial) fun _ _ _ => hop _ trivial).leaves hraised
    · refine Act.leaves_bind ((keeps_emit_inPlace (fun m m' s h _ => hplace m m' s h) _ _ _ _ _).leaves
        hraised) fun _ => ?_
      exact fun m s hJ => hplace m _ s ⟨⟨rfl, rfl, rfl, rfl, rfl, rfl, List.prefix_rfl⟩, rfl, rfl⟩ hJ

/-- The handlers of an invariant that looks at the run's place, its status and its identity. -/
theorem handlers_inPlace (wf : Workflow) (hawait : ∀ step approvers tool args,
      Act.Leaves S J E (WorkflowEngine.awaitApproval cfg step approvers tool args)) :
    Handlers cfg wf S J E where
  raised := hraised
  emit := fun m s _ _ => hplace m _ s ⟨⟨rfl, rfl, rfl, rfl, rfl, rfl, List.prefix_append _ _⟩, rfl, rfl⟩
  output := fun _ _ _ m s _ => hplace m _ s ⟨⟨rfl, rfl, rfl, rfl, rfl, rfl, List.prefix_rfl⟩, rfl, rfl⟩
  model := fun agent task scratch m s hJ =>
    Act.wp_mono _ (fun _ _ _ hJ' => booked_inPlace (fun m m' s h _ => hplace m m' s h) hJ')
      (fun _ _ _ hJ' => hJ') (hop (.respond agent task scratch) trivial m s hJ)
  execCall := fun agent _ call => (keeps_execCall (fun m m' s h _ => hplace m m' s h)
    (fun op hacting _ => hop op hacting) agent call).leaves hraised
  await := hawait
  tool := fun step _ _ => leaves_runTool hraised hplace hop hawait step

end Tool

variable (hmem : ∀ (m m' : Mem) s, SameIdent m m' → J m s → J m' s)
  (hop : ∀ op : Op, op.InStep → Act.Keeps S J (perform op))

include hmem hop

theorem stepInv_of_calls (wf : Workflow) (hpause : SavedIn S J .waitingApproval)
    (hfailed : SavedIn S J .failed) : StepInv cfg wf S J where
  memory := fun m m' s h => hmem m m' s h.toSameIdent
  output := fun _ _ _ m s _ hJ => hmem m _ s ⟨rfl, rfl, rfl, rfl, rfl, rfl, List.prefix_rfl⟩ hJ
  respond := fun _ _ _ => hop _ trivial
  execCall := fun agent _ => keeps_execCall (fun m m' s h _ => hmem m m' s h.toSameIdent)
    (fun op h _ => hop op h.inStep) agent
  await := keeps_awaitApproval (fun m m' s h => hmem m m' s h.toSameRun.toSameIdent)
    (fun op h => hop op h.plain.inStep) hpause
  tool := fun step _ _ => leaves_runTool (fun _ _ _ hJ => hJ) (fun m m' s h => hmem m m' s h.toSameIdent)
    (fun op h => hop op h.inStep) (keeps_awaitApproval
      (fun m m' s h => hmem m m' s h.toSameRun.toSameIdent) (fun op h => hop op h.plain.inStep) hpause) step
  failed := hfailed

end OwnRun

end Bass
