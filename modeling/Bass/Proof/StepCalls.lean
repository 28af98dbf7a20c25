import Bass.Proof.Outline

/-!
# What a step calls

Which calls the handler of a step makes can be read off the step, whatever the store, the model and
the tools answer. The walk over the handlers is done once, for any assertion of a driver that knows
which run it holds; `wp_withCalls` adds what it finds to what a specification already guarantees.
-/

namespace Bass

open Interaction EngineM

/-- The calls that are made to carry out a step. -/
def Op.ByStep : Op → Prop
  | .stepSpan _ | .getEffect .. | .policyCheck .. | .respond .. | .execute .. | .recordEffect ..
  | .createApproval .. | .latestApproval .. | .approvalFn .. => True
  | _ => False

/-- The agent a step names. -/
def Step.agentIn (cfg : EngineConfig) (step : Step) : Option Agent := step.agent.bind cfg.agents.get?

/-- The call is one that carries out `step`. -/
def Op.Of (cfg : EngineConfig) (step : Step) : Op → Prop
  | .stepSpan entered => entered = step
  | .getEffect _ key => ∃ runId name, step.tool = some name ∧ key = ledgerKey runId step.id name
  | .recordEffect _ key _ stepId name _ =>
      stepId = step.id ∧ step.tool = some name ∧ ∃ runId, key = ledgerKey runId step.id name
  | .policyCheck agent tool _ _ =>
      step.agentIn cfg = some agent ∨
        (step.tool = some tool.name ∧ agent = WorkflowEngine.systemAgent tool.name)
  | .respond agent _ _ => step.agentIn cfg = some agent
  | .execute (.agent name) _ _ => ∃ agent, step.agentIn cfg = some agent ∧ agent.name = name
  | .execute (.step stepId) name _ => stepId = step.id ∧ step.tool = some name
  | .createApproval _ _ stepId _ | .latestApproval _ _ stepId => stepId = step.id
  | .approvalFn _ asked _ _ => asked = step
  | _ => True

/-- A call that `P` permits keeps every specification that asks for nothing else. -/
abbrev Makes {α : Type} (P : Op → Prop) (x : EngineM α) : Prop :=
  Act.Keeps (.calls fun call : Call => P call.op) (fun _ _ => True) x

/-- The call is made for the run `runId` of the tenant. -/
def Op.By (cfg : EngineConfig) (tenantId runId : String) : Op → Prop
  | .checkpoint run _ => run.tenantId = tenantId ∧ run.id = runId
  | .getEffect tenant key => tenant = tenantId ∧ ∃ stepId name, key = ledgerKey runId stepId name
  | .recordEffect tenant key owner stepId name _ =>
      tenant = tenantId ∧ owner = runId ∧ key = ledgerKey runId stepId name
  | .createApproval tenant owner .. | .latestApproval tenant owner _ =>
      tenant = tenantId ∧ owner = runId
  | .resolveApproval tenant .. => cfg.approvalFn = true ∧ tenant = tenantId
  | .approvalFn run .. => cfg.approvalFn = true ∧ run.tenantId = tenantId ∧ run.id = runId
  | .stepSpan _ | .policyCheck .. | .respond .. | .execute .. => True
  | _ => False

/-- The driver holds the run `runId` of the tenant. -/
def Mem.Of (tenantId runId : String) (m : Mem) : Prop := m.run.tenantId = tenantId ∧ m.run.id = runId

/-- Every call of a driver that holds the run is permitted by `P` and made for the run. -/
abbrev Performs {α : Type} (cfg : EngineConfig) (P : Op → Prop) (tenantId runId : String)
    (x : EngineM α) : Prop :=
  Act.Keeps (.calls fun call : Call => P call.op ∧ call.op.By cfg tenantId runId)
    (fun m _ => m.Of tenantId runId) x

/-- What an assertion `J` of a driver that holds the run has to survive: the run in memory keeps its
ids, events are emitted for it, and the calls that `P` permits are made for it. -/
structure DriverInv {σ : Type} (cfg : EngineConfig) (S : Spec Call Call.Res σ) (J : Mem → σ → Prop)
    (P : Op → Prop) (tenantId runId : String) : Prop where
  held : ∀ m s, J m s → m.Of tenantId runId
  run : ∀ f : Run → Run, (∀ run, (f run).tenantId = run.tenantId ∧ (f run).id = run.id) →
    Act.Keeps S J (modifyRun f)
  emit : ∀ type payload stepId costUsd actor, Act.Keeps S J (emit type payload stepId costUsd actor)
  call : ∀ op : Op, op.Acting → P op → op.By cfg tenantId runId → Act.Keeps S J (perform op)

namespace DriverInv

variable {σ : Type} {cfg : EngineConfig} {step : Step} {S : Spec Call Call.Res σ} {J : Mem → σ → Prop}
  {P : Op → Prop} {tenantId runId : String}

theorem getRun_bind {α : Type} (h : DriverInv cfg S J P tenantId runId) {f : Run → EngineM α}
    (hf : ∀ run : Run, run.tenantId = tenantId → run.id = runId → Act.Keeps S J (f run)) :
    Act.Keeps S J (getRun >>= f) := by
  intro m s hJ
  obtain ⟨htenant, hid⟩ := h.held m s hJ
  exact (wp_getRun_bind _).mpr (hf m.run htenant hid m s hJ)

section Handlers

theorem execCall (h : DriverInv cfg S J (Op.Of cfg step) tenantId runId) {agent : Agent}
    (hagent : step.agentIn cfg = some agent) (call : ToolCall) :
    Act.Keeps S J (AgentRuntime.execCall cfg agent call) := by
  refine Act.keeps_bind (Act.keeps_ofExcept _) fun name => ?_
  refine Act.keeps_bind (Act.keeps_ofExcept _) fun tool => ?_
  refine Act.keeps_bind keeps_getRun fun run => ?_
  refine Act.keeps_bind (h.call _ trivial (Or.inl hagent) trivial) fun decision => ?_
  refine Act.keeps_bind (h.emit _ _ _ _ _) fun _ => ?_
  split
  · refine Act.keeps_bind (h.call _ trivial ⟨agent, hagent, rfl⟩ trivial) fun answer => ?_
    refine Act.keeps_bind (Act.keeps_ofExcept _) fun result => ?_
    refine Act.keeps_bind (h.run _ fun _ => ⟨rfl, rfl⟩) fun _ => ?_
    exact Act.keeps_bind (h.emit _ _ _ _ _) fun _ => Act.keeps_pure _
  · exact Act.keeps_bind (h.emit _ _ _ _ _) fun _ => Act.keeps_pure _

theorem execCalls (h : DriverInv cfg S J (Op.Of cfg step) tenantId runId) {agent : Agent}
    (hagent : step.agentIn cfg = some agent) (calls : List ToolCall) :
    Act.Keeps S J (AgentRuntime.execCalls cfg agent calls) := by
  induction calls with
  | nil => exact Act.keeps_pure []
  | cons call rest ih =>
      exact Act.keeps_bind (h.execCall hagent call) fun result =>
        Act.keeps_bind ih fun results => Act.keeps_pure (result :: results)

theorem loop (h : DriverInv cfg S J (Op.Of cfg step) tenantId runId) {agent : Agent}
    (hagent : step.agentIn cfg = some agent) (task : Args) (n : Nat) (scratch : Scratch) :
    Act.Keeps S J (AgentRuntime.loop cfg agent task n scratch) := by
  induction n generalizing scratch with
  | zero => exact Act.keeps_throw _
  | succ n ih =>
      refine Act.keeps_bind (h.call _ trivial hagent trivial) fun answer => ?_
      refine Act.keeps_bind (Act.keeps_ofExcept _) fun out => ?_
      obtain ⟨resp, scratch'⟩ := out
      refine Act.keeps_bind (h.run _ fun _ => ⟨rfl, rfl⟩) fun _ => ?_
      refine Act.keeps_bind (Act.keeps_ofExcept _) fun kind => ?_
      refine Act.keeps_bind (h.emit _ _ _ _ _) fun _ => ?_
      split
      · refine Act.keeps_bind (Act.keeps_ofExcept _) fun calls => ?_
        exact Act.keeps_bind (h.execCalls hagent calls) fun results => ih _
      · refine Act.keeps_bind (Act.keeps_ofExcept _) fun output => ?_
        exact Act.keeps_bind (h.emit _ _ _ _ _) fun _ => Act.keeps_pure output

theorem runAgent (h : DriverInv cfg S J (Op.Of cfg step) tenantId runId) :
    Act.Keeps S J (WorkflowEngine.runAgent cfg step) := by
  unfold WorkflowEngine.runAgent
  split
  · exact Act.keeps_throw _
  · rename_i agent hagent
    refine Act.keeps_bind keeps_getRun fun run => ?_
    refine Act.keeps_bind (Act.keeps_ofExcept _) fun args => ?_
    refine Act.keeps_bind (h.loop hagent _ _ _) fun output => ?_
    exact Act.keeps_bind (h.run _ fun _ => ⟨rfl, rfl⟩) fun _ => Act.keeps_pure _

theorem act (h : DriverInv cfg S J (Op.Of cfg step) tenantId runId) {tool : Tool} {name : String}
    (hname : step.tool = some name) (args : Args) :
    Act.Keeps S J (WorkflowEngine.act step tool name args (ledgerKey runId step.id name)) := by
  refine Act.keeps_bind (h.call _ trivial ⟨rfl, hname⟩ trivial) fun answer => ?_
  refine Act.keeps_bind (Act.keeps_ofExcept _) fun result => ?_
  refine h.getRun_bind fun run htenant hid => ?_
  have hbook : Act.Keeps S J (do
      modifyRun fun run => { run with costUsd := run.costUsd + tool.costUsd }
      EngineM.emit "tool_result" (.obj [("tool", .str name), ("result", result)]) (some step.id) tool.costUsd
      modifyRun fun run => { run with context := Dict.set run.context step.id result }
      return step.next) := by
    refine Act.keeps_bind (h.run _ fun _ => ⟨rfl, rfl⟩) fun _ => ?_
    refine Act.keeps_bind (h.emit _ _ _ _ _) fun _ => ?_
    exact Act.keeps_bind (h.run _ fun _ => ⟨rfl, rfl⟩) fun _ => Act.keeps_pure _
  split
  · exact Act.keeps_bind (h.call _ trivial ⟨rfl, hname, runId, rfl⟩ ⟨htenant, hid, rfl⟩) fun _ => hbook
  · exact hbook

theorem cachedEffect (h : DriverInv cfg S J (Op.Of cfg step) tenantId runId) {tool : Tool} {name : String}
    (hname : step.tool = some name) :
    Act.Keeps S J (WorkflowEngine.cachedEffect tool (ledgerKey runId step.id name)) := by
  unfold WorkflowEngine.cachedEffect
  split
  · refine h.getRun_bind fun run htenant _ => ?_
    exact Act.keeps_bind (h.call _ trivial ⟨runId, name, hname, rfl⟩ ⟨htenant, step.id, name, rfl⟩)
      fun answer => Act.keeps_ofExcept _
  · exact Act.keeps_pure _

variable (hawait : ∀ approvers tool args,
  Act.Keeps S J (WorkflowEngine.awaitApproval cfg step approvers tool args))

include hawait

theorem gate (h : DriverInv cfg S J (Op.Of cfg step) tenantId runId) {tool : Tool} {name : String}
    (hname : step.tool = some name) (htool : tool.name = name) (args : Args) :
    Act.Keeps S J (WorkflowEngine.gate cfg step tool name args) := by
  subst htool
  refine Act.keeps_bind keeps_getRun fun run => ?_
  refine Act.keeps_bind (h.call _ trivial (Or.inr ⟨hname, rfl⟩) trivial) fun decision => ?_
  refine Act.keeps_bind (h.emit _ _ _ _ _) fun _ => ?_
  split
  · exact Act.keeps_pure _
  · exact Act.keeps_throw _
  · refine Act.keeps_bind (hawait _ _ _) fun granted => ?_
    split
    · exact Act.keeps_pure _
    · exact Act.keeps_throw _

theorem runTool (h : DriverInv cfg S J (Op.Of cfg step) tenantId runId) :
    Act.Keeps S J (WorkflowEngine.runTool cfg step) := by
  unfold WorkflowEngine.runTool
  split
  · exact Act.keeps_throw _
  · rename_i name hname
    intro m s hJ
    refine (Act.wp_ofExcept_bind _ _).mpr ?_
    cases htool : cfg.tools.get name with
    | error e => exact hJ
    | ok tool =>
        obtain ⟨htenant, rfl⟩ := h.held m s hJ
        refine (wp_getRun_bind _).mpr ((Act.wp_ofExcept_bind _ _).mpr ?_)
        split
        · rename_i args _
          refine Act.keeps_bind (h.cachedEffect hname) (fun cached => ?_) m s hJ
          split
          · exact Act.keeps_bind (h.gate hawait hname (ToolRegistry.name_of_get htool) args) fun _ =>
              h.act hname args
          · refine Act.keeps_bind (h.emit _ _ _ _ _) fun _ => ?_
            exact Act.keeps_bind (h.run _ fun _ => ⟨rfl, rfl⟩) fun _ => Act.keeps_pure _
        · exact hJ

/-- The handler of a step makes calls that carry out that step, for the run. -/
theorem runStep (h : DriverInv cfg S J (Op.Of cfg step) tenantId runId) :
    Act.Keeps S J (WorkflowEngine.runStep cfg step) := by
  unfold WorkflowEngine.runStep
  cases step.nodeType with
  | agent => exact h.runAgent
  | tool => exact h.runTool hawait
  | branch =>
      refine Act.keeps_bind keeps_getRun fun run => Act.keeps_bind (Act.keeps_ofExcept _) fun goto => ?_
      split
      · exact Act.keeps_bind (h.emit _ _ _ _ _) fun _ => Act.keeps_pure _
      · exact Act.keeps_pure _
  | approval =>
      refine Act.keeps_bind (hawait _ _ _) fun granted => ?_
      split
      · exact Act.keeps_pure _
      · exact Act.keeps_throw _
  | terminate => exact Act.keeps_pure _
  | other name => exact Act.keeps_throw _

end Handlers

/-! ### A whole drive -/

section Engine

variable {wf : Workflow} (h : DriverInv cfg S J P tenantId runId)
  (hstep : ∀ step, wf.HasStep step → Act.Keeps S J (WorkflowEngine.runStep cfg step))
  (hspan : ∀ step, wf.HasStep step → Act.Keeps S J (perform (.stepSpan step)))
  (hcheckpoint : Act.Keeps S J EngineM.checkpoint)

include h hcheckpoint

theorem failRun (reason detail : String) : Act.Keeps S J (WorkflowEngine.failRun reason detail) :=
  Act.keeps_bind (h.run _ fun _ => ⟨rfl, rfl⟩) fun _ =>
    Act.keeps_bind (h.emit _ _ _ _ _) fun _ => hcheckpoint

theorem advance (next : Option String) : Act.Keeps S J (WorkflowEngine.advance next) := by
  refine Act.keeps_bind (h.run _ fun _ => ⟨rfl, rfl⟩) fun _ => ?_
  split
  · refine Act.keeps_bind (h.run _ fun _ => ⟨rfl, rfl⟩) fun _ => ?_
    refine Act.keeps_bind (h.run _ fun _ => ⟨rfl, rfl⟩) fun _ => ?_
    refine Act.keeps_bind keeps_getRun fun run => ?_
    exact Act.keeps_bind (h.emit _ _ _ _ _) fun _ => hcheckpoint
  · exact hcheckpoint

omit hcheckpoint in
include hstep in
theorem compensate (step : Step) : Act.Keeps S J (WorkflowEngine.compensate cfg wf step) := by
  unfold WorkflowEngine.compensate
  split
  · exact Act.keeps_pure _
  · rename_i comp hcomp
    refine Act.keeps_bind (h.emit _ _ _ _ _) fun _ => ?_
    refine Act.keeps_tryCatch ?_ fun e => h.emit _ _ _ _ _
    exact Act.keeps_bind (hstep comp (hasStep_of_compensation hcomp)) fun _ => Act.keeps_pure _

include hstep hspan

theorem outline : Outline cfg wf S (fun _ => J) (fun _ => J) (fun _ _ => J) (fun _ _ => J) fun _ => J where
  unknown := fun _ _ _ _ hJ => hJ
  budget := fun _ _ _ m s _ hJ _ => h.failRun hcheckpoint _ _ m s hJ
  enter := by
    intro stepId step m s hget hJ _
    have hcount : Act.Keeps S J (modifyRun fun run => { run with stepsUsed := run.stepsUsed + 1 }) :=
      h.run _ fun _ => ⟨rfl, rfl⟩
    refine Act.keeps_bind hcount (fun _ => ?_) m s hJ
    exact Act.keeps_bind (h.emit _ _ _ _ _) fun _ => hspan step ⟨stepId, hget⟩
  run := fun step m s hget _ hJ => hstep step hget m s hJ
  retry := by
    intro step e attempt m s _ _ hJ
    exact Act.wp_mono _ (fun _ _ _ hJ' => ⟨hJ', hJ'⟩) (fun _ _ _ hJ' => hJ') (h.emit _ _ _ _ _ m s hJ)
  exhausted := fun _ _ _ hJ => hJ
  denied := fun _ _ m s _ _ hJ => h.failRun hcheckpoint _ _ m s hJ
  failed := fun step _ m s _ _ hJ =>
    Act.keeps_bind (h.compensate hstep step) (fun _ => h.failRun hcheckpoint _ _) m s hJ
  other := fun _ _ _ _ _ _ _ hJ => hJ
  finish := fun _ next m s _ hJ => h.advance hcheckpoint next m s hJ

/-- What a driver keeps in every step it keeps in a whole drive. -/
theorem resume : Act.Keeps S J (WorkflowEngine.resume cfg wf) := by
  intro m s hJ
  cases hstatus : m.run.status.terminal with
  | true => exact resume_of_terminal hstatus hJ
  | false =>
      have hrunning : J { m with run := { m.run with status := .running } } s :=
        h.run (fun run => { run with status := .running }) (fun _ => ⟨rfl, rfl⟩) m s hJ
      refine Act.wp_mono _ (fun _ _ _ hout => ?_) (fun _ _ _ hout => hout.2)
        ((h.outline hstep hspan hcheckpoint).resume hstatus hrunning)
      exact hout.elim (fun hJ' => hJ') fun ⟨_, hJ'⟩ => hJ'

end Engine

end DriverInv

/-! ### The calls of a drive -/

section Calls

variable {cfg : EngineConfig} {step : Step} {P : Op → Prop} {tenantId runId : String}

theorem performs_perform {op : Op} (h : P op) (hby : op.By cfg tenantId runId) :
    Performs cfg P tenantId runId (perform op) :=
  Act.keeps_perform fun _ _ hm _ _ => ⟨⟨h, hby⟩, fun _ _ _ => hm⟩

theorem performs_checkpoint (h : ∀ run events, P (.checkpoint run events)) :
    Performs cfg P tenantId runId EngineM.checkpoint :=
  keeps_checkpoint_call fun _ _ hm _ _ => ⟨⟨h _ _, hm⟩, fun _ _ _ => ⟨hm, hm⟩⟩

/-- Only the calls matter. -/
theorem performs_driver (cfg : EngineConfig) (P : Op → Prop) (tenantId runId : String) :
    DriverInv cfg (.calls fun call : Call => P call.op ∧ call.op.By cfg tenantId runId)
      (fun m _ => m.Of tenantId runId) P tenantId runId where
  held := fun _ _ hm => hm
  run := fun _ hf => keeps_modifyRun fun m _ hm => ⟨(hf m.run).1.trans hm.1, (hf m.run).2.trans hm.2⟩
  emit := fun type payload stepId costUsd actor => keeps_emit
    (fun _ _ _ hsame hm => ⟨hsame.tenantId.trans hm.1, hsame.id.trans hm.2⟩) type payload stepId costUsd actor
  call := fun _ _ hop hby => performs_perform hop hby

theorem performs_awaitSync (hsync : cfg.approvalFn = true) (approvers : List String) (tool : String)
    (args : Args) :
    Performs cfg (Op.Of cfg step) tenantId runId
      (WorkflowEngine.awaitSync step approvers tool args) := by
  have h := performs_driver cfg (Op.Of cfg step) tenantId runId
  refine h.getRun_bind fun run htenant hid => ?_
  refine Act.keeps_bind (performs_perform rfl ⟨htenant, hid⟩) fun created => ?_
  refine Act.keeps_bind (Act.keeps_ofExcept _) fun approvalId => ?_
  refine Act.keeps_bind (h.run _ fun _ => ⟨rfl, rfl⟩) fun _ => ?_
  refine Act.keeps_bind (h.emit _ _ _ _ _) fun _ => ?_
  refine h.getRun_bind fun asked htenant' hid' => ?_
  refine Act.keeps_bind (performs_perform rfl ⟨hsync, htenant', hid'⟩) fun answer => ?_
  refine Act.keeps_bind (Act.keeps_ofExcept _) fun granted => ?_
  refine Act.keeps_bind (performs_perform trivial ⟨hsync, htenant⟩) fun resolved => ?_
  refine Act.keeps_bind (Act.keeps_ofExcept _) fun _ => Act.keeps_bind (h.emit _ _ _ _ _) fun _ => ?_
  exact Act.keeps_bind (h.run _ fun _ => ⟨rfl, rfl⟩) fun _ => Act.keeps_pure _

theorem performs_awaitAsync (approvers : List String) (tool : String) (args : Args) :
    Performs cfg (Op.Of cfg step) tenantId runId
      (WorkflowEngine.awaitAsync step approvers tool args) := by
  have h := performs_driver cfg (Op.Of cfg step) tenantId runId
  have hcheckpoint : Performs cfg (Op.Of cfg step) tenantId runId EngineM.checkpoint :=
    performs_checkpoint fun _ _ => trivial
  refine h.getRun_bind fun run htenant hid => ?_
  refine Act.keeps_bind (performs_perform rfl ⟨htenant, hid⟩) fun existing => ?_
  split
  · refine Act.keeps_bind (performs_perform rfl ⟨htenant, hid⟩) fun created => ?_
    refine Act.keeps_bind (Act.keeps_ofExcept _) fun approvalId => ?_
    refine Act.keeps_bind (h.run _ fun _ => ⟨rfl, rfl⟩) fun _ => ?_
    refine Act.keeps_bind (h.emit _ _ _ _ _) fun _ => ?_
    exact Act.keeps_bind hcheckpoint fun _ => Act.keeps_throw _
  · split
    · refine Act.keeps_bind (h.run _ fun _ => ⟨rfl, rfl⟩) fun _ => ?_
      exact Act.keeps_bind hcheckpoint fun _ => Act.keeps_throw _
    · exact Act.keeps_bind (h.emit _ _ _ _ _) fun _ => Act.keeps_pure _

theorem performs_awaitApproval (approvers : List String) (tool : String) (args : Args) :
    Performs cfg (Op.Of cfg step) tenantId runId
      (WorkflowEngine.awaitApproval cfg step approvers tool args) := by
  unfold WorkflowEngine.awaitApproval
  split
  · rename_i hsync
    exact performs_awaitSync hsync approvers tool args
  · exact performs_awaitAsync approvers tool args

/-- The call is one that carries out a step of `wf`, if it carries out a step at all. -/
def Op.PartOf (cfg : EngineConfig) (wf : Workflow) (op : Op) : Prop :=
  op.ByStep → ∃ step, wf.HasStep step ∧ op.Of cfg step

variable {wf : Workflow}

theorem Performs.mono {α : Type} {P P' : Op → Prop} {x : EngineM α}
    (h : Performs cfg P tenantId runId x) (hmono : ∀ op, P op → P' op) :
    Performs cfg P' tenantId runId x :=
  fun m s hm => Prog.wp_calls_mono (fun call hP => ⟨hmono call.op hP.1, hP.2⟩) _ (h m s hm)

theorem performs_step {step : Step} (hstep : wf.HasStep step) :
    Performs cfg (Op.PartOf cfg wf) tenantId runId (WorkflowEngine.runStep cfg step) :=
  Performs.mono ((performs_driver cfg (Op.Of cfg step) tenantId runId).runStep performs_awaitApproval)
    fun _ hop _ => ⟨step, hstep, hop⟩

/-- Driving a run carries out steps of the definition it is driven with, and no others, and every
call is made for that run. -/
theorem performs_resume (cfg : EngineConfig) (wf : Workflow) (tenantId runId : String) :
    Performs cfg (Op.PartOf cfg wf) tenantId runId (WorkflowEngine.resume cfg wf) :=
  (performs_driver cfg (Op.PartOf cfg wf) tenantId runId).resume (fun _ hstep => performs_step hstep)
    (fun step hstep => performs_perform (fun _ => ⟨step, hstep, rfl⟩) trivial)
    (performs_checkpoint fun _ _ => False.elim)

theorem makes_resume (cfg : EngineConfig) (wf : Workflow) :
    Makes (Op.PartOf cfg wf) (WorkflowEngine.resume cfg wf) := by
  intro m s _
  have hcalls : Act.wp (.calls fun call : Call => call.op.PartOf cfg wf) (WorkflowEngine.resume cfg wf)
      (fun _ m' _ => m'.Of m.run.tenantId m.run.id) (fun _ m' _ => m'.Of m.run.tenantId m.run.id) m s :=
    Prog.wp_calls_mono (fun call hP => hP.1) _
      (performs_resume cfg wf m.run.tenantId m.run.id m s ⟨rfl, rfl⟩)
  exact Act.wp_mono _ (fun _ _ _ _ => trivial) (fun _ _ _ _ => trivial) hcalls

end Calls

end Bass
