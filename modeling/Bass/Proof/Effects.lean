import Bass.Proof.Executions
import Bass.Proof.Visits

/-!
# What a mutating step goes on with

However many drivers there are, the calls of one of them show where the output of a mutating tool step
comes from: from the ledger, or from its tool, called with the ledger key. The same holds of what is
recorded.
-/

namespace Bass

open Interaction EngineM

theorem mem_of_lastVisit {trail : Trail} {visit : Visit} (h : lastVisit trail = some visit) :
    ∀ event ∈ visit.calls, event ∈ trail := by
  induction trail using List.reverseRecOn generalizing visit with
  | nil => cases h
  | append_singleton trail event ih =>
      by_cases hop : ∃ step, event.1.op = .stepSpan step
      · obtain ⟨⟨m, op⟩, answer⟩ := event
        obtain ⟨step, rfl⟩ := hop
        rw [lastVisit_span] at h
        cases h
        exact fun _ hmem => absurd hmem List.not_mem_nil
      · rw [lastVisit_concat fun step hstep => hop ⟨step, hstep⟩] at h
        obtain ⟨old, hold, rfl⟩ := Option.map_eq_some_iff.mp h
        intro event' hmem
        rcases List.mem_append.mp hmem with hmem | hmem
        · exact List.mem_append_left _ (ih hold event' hmem)
        · exact List.mem_append_right _ hmem

/-- The call is one of a mutating tool with the key, and was answered by the value. -/
def Acts (tools : ToolRegistry) (key : String) (value : Json) (event : Prog.Event Call Call.Res) : Prop :=
  key ≠ "" ∧ ∃ m caller name sent, event = ⟨⟨m, .execute caller name sent⟩, .ok value⟩ ∧ tools.mutates name = true ∧
    sent.get? "_idempotency_key" = some (.str key)

/-- The value was found in the ledger under the key, or is what the tool answered. -/
def Yields (tools : ToolRegistry) (key : String) (value : Json) (event : Prog.Event Call Call.Res) : Prop :=
  (∃ m tenantId, event = ⟨⟨m, .getEffect tenantId key⟩, .ok value⟩ ∧ value ≠ .null) ∨ Acts tools key value event

/-- The output of a mutating tool step, in the context of the run, is one that the visit yielded. -/
def Effected (tools : ToolRegistry) (visit : Visit) (run : Run) : Prop :=
  ∀ name, visit.step.nodeType = .tool → visit.step.tool = some name → tools.mutates name = true →
    ∃ value, run.context.get? visit.step.id = some value ∧
      ∃ event ∈ visit.calls, Yields tools (ledgerKey run.id visit.step.id name) value event

/-- What is recorded has just been answered, and a step that is passed has had its effect. -/
def EffectedCall (tools : ToolRegistry) (before : Trail) (call : Call) : Prop :=
  match call.op with
  | .recordEffect _ key _ _ _ result => ∃ earlier event, before = earlier ++ [event] ∧ Acts tools key result event
  | .checkpoint run _ => run.status = .running ∨ run.status = .succeeded →
      ∃ visit, lastVisit before = some visit ∧ run.id = visit.entry.run.id ∧ Effected tools visit run
  | _ => True

/-- The calls that owe nothing. -/
def Op.Unowing : Op → Prop
  | .recordEffect .. | .checkpoint .. => False
  | _ => True

theorem effectedCall_of_unowing {tools : ToolRegistry} {before : Trail} {m : Mem} {op : Op} (h : op.Unowing) :
    EffectedCall tools before ⟨m, op⟩ := by
  cases op <;> trivial

/-- The visit in progress is one of the run to the step. -/
def VisitOf (runId : String) (step : Step) (before : Trail) (visit : Visit) : Prop :=
  lastVisit before = some visit ∧ visit.step = step ∧ visit.entry.run.id = runId

/-- The driver of the run is in a visit to the step. -/
def OnVisit (runId : String) (step : Step) (m : Mem) (before : Trail) : Prop :=
  m.run.id = runId ∧ ∃ visit, VisitOf runId step before visit

/-- The driver of the run has done what the visit to the step is for. -/
def StepSettled (tools : ToolRegistry) (runId : String) (step : Step) (m : Mem) (before : Trail) : Prop :=
  m.run.id = runId ∧ ∃ visit, VisitOf runId step before visit ∧ Effected tools visit m.run

section Engine

variable {ok : (call : Call) → call.Res → Prop} {cfg : EngineConfig} {wf : Workflow} {runId : String}
  {step : Step} {m m' : Mem} {before : Trail}

abbrev effectSpec (ok : (call : Call) → call.Res → Prop) (cfg : EngineConfig) : Spec Call Call.Res Trail :=
  .history ok (EffectedCall cfg.tools)

theorem OnVisit.memory (h : OnVisit runId step m before) (hid : m'.run.id = m.run.id) :
    OnVisit runId step m' before :=
  ⟨hid.trans h.1, h.2⟩

theorem VisitOf.after {visit : Visit} (h : VisitOf runId step before visit) (event : Prog.Event Call Call.Res)
    (hop : ∀ step', event.1.op ≠ .stepSpan step') :
    VisitOf runId step (before ++ [event]) { visit with calls := visit.calls ++ [event] } := by
  refine ⟨?_, h.2⟩
  rw [lastVisit_concat hop, h.1]
  rfl

/-- A call within the visit belongs to it. -/
theorem OnVisit.call (h : OnVisit runId step m before) (op : Op) (hop : ∀ step', op ≠ .stepSpan step')
    (answer : op.Res) : ∃ visit, VisitOf runId step (before ++ [⟨⟨m, op⟩, answer⟩]) visit ∧
      (⟨⟨m, op⟩, answer⟩ : Prog.Event Call Call.Res) ∈ visit.calls := by
  obtain ⟨-, visit, hvisit⟩ := h
  exact ⟨_, hvisit.after ⟨⟨m, op⟩, answer⟩ hop, List.mem_append_right _ List.mem_cons_self⟩

theorem OnVisit.after (h : OnVisit runId step m before) (op : Op) (hop : ∀ step', op ≠ .stepSpan step')
    (answer : op.Res) : OnVisit runId step m (before ++ [⟨⟨m, op⟩, answer⟩]) := by
  obtain ⟨visit, hvisit, -⟩ := h.call op hop answer
  exact ⟨h.1, visit, hvisit⟩

/-- The memory that a tool leaves has its output in the context. -/
theorem StepSettled.of_output {visit : Visit} {value : Json} (hid : m.run.id = runId)
    (hvisit : VisitOf runId step before visit) (hyields : ∀ name, step.tool = some name →
      cfg.tools.mutates name = true → ∃ event ∈ visit.calls, Yields cfg.tools (ledgerKey runId step.id name) value event) :
    StepSettled cfg.tools runId step { m with run := { m.run with context := Dict.set m.run.context step.id value } }
      before := by
  refine ⟨hid, visit, hvisit, fun name _ hname hmutates => ?_⟩
  obtain ⟨-, rfl, -⟩ := hvisit
  subst hid
  exact ⟨value, Dict.get?_set_self _ _ _, hyields name hname hmutates⟩

theorem onVisit_perform {op : Op} (hop : op.InStep) (hunowing : op.Unowing) :
    Act.Keeps (effectSpec ok cfg) (OnVisit runId step) (perform op) := by
  refine Act.keeps_perform fun m before h s₁ hsame => ?_
  obtain rfl : before = s₁ := hsame
  refine ⟨effectedCall_of_unowing hunowing, fun answer after hafter => ?_⟩
  rw [hafter.2]
  refine h.after op ?_ answer
  rintro step' rfl
  exact hop

theorem onVisit_emit (type : String) (payload : Json) (stepId : Option String) (costUsd : ℚ) (actor : String) :
    Act.Keeps (effectSpec ok cfg) (OnVisit runId step) (emit type payload stepId costUsd actor) :=
  Act.keeps_modify fun _ _ h => h.memory rfl

/-- A checkpoint of a run that waits or has failed. -/
theorem onVisit_savedIn {status : RunStatus} (hrunning : status ≠ .running) (hsucceeded : status ≠ .succeeded) :
    SavedIn (effectSpec ok cfg) (OnVisit runId step) status := by
  rintro m before h rfl
  refine wp_checkpoint.mpr ?_
  rintro _ rfl
  refine ⟨fun hmoves => absurd hmoves (not_or.mpr ⟨hrunning, hsucceeded⟩), fun answer after hafter => ?_⟩
  have hwithin := h.after (.checkpoint m.run m.buffer) (by rintro _ ⟨⟩) answer
  rw [← hafter.2] at hwithin
  cases answer with
  | ok value => exact hwithin.memory rfl
  | error e => exact hwithin

theorem onVisit_awaitApproval (asked : Step) (approvers : List String) (tool : String) (args : Args) :
    Act.Keeps (effectSpec ok cfg) (OnVisit runId step)
      (WorkflowEngine.awaitApproval cfg asked approvers tool args) := by
  refine keeps_awaitApproval (fun m m' s h hwithin => hwithin.memory h.id) (fun op hop => ?_)
    (onVisit_savedIn (by decide) (by decide)) asked approvers tool args
  refine onVisit_perform hop.plain.inStep ?_
  cases op <;> trivial

theorem onVisit_execCall (agent : Agent) (call : ToolCall) :
    Act.Keeps (effectSpec ok cfg) (OnVisit runId step) (AgentRuntime.execCall cfg agent call) := by
  refine Act.keeps_bind (Act.keeps_ofExcept _) fun name => ?_
  refine Act.keeps_bind (Act.keeps_ofExcept _) fun tool => ?_
  refine Act.keeps_bind keeps_getRun fun run => ?_
  refine Act.keeps_bind (onVisit_perform trivial trivial) fun decision => ?_
  refine Act.keeps_bind (onVisit_emit _ _ _ _ _) fun _ => ?_
  split
  · refine Act.keeps_bind (onVisit_perform trivial trivial) fun answer => ?_
    refine Act.keeps_bind (Act.keeps_ofExcept _) fun result => ?_
    refine Act.keeps_bind (keeps_modifyRun fun _ _ h => h.memory rfl) fun _ => ?_
    exact Act.keeps_bind (onVisit_emit _ _ _ _ _) fun _ => Act.keeps_pure _
  · exact Act.keeps_bind (onVisit_emit _ _ _ _ _) fun _ => Act.keeps_pure _

theorem onVisit_gate (asked : Step) (tool : Tool) (name : String) (args : Args) :
    Act.Keeps (effectSpec ok cfg) (OnVisit runId step) (WorkflowEngine.gate cfg asked tool name args) := by
  refine Act.keeps_bind keeps_getRun fun run => ?_
  refine Act.keeps_bind (onVisit_perform trivial trivial) fun decision => ?_
  refine Act.keeps_bind (onVisit_emit _ _ _ _ _) fun _ => ?_
  split
  · exact Act.keeps_pure _
  · exact Act.keeps_throw _
  · refine Act.keeps_bind (onVisit_awaitApproval _ _ _ _) fun granted => ?_
    split
    · exact Act.keeps_pure _
    · exact Act.keeps_throw _

/-- What the ledger has for a key belongs to the visit. -/
theorem onVisit_cachedEffect (tool : Tool) (key : String) (h : OnVisit runId step m before) :
    Act.wp (effectSpec ok cfg) (WorkflowEngine.cachedEffect tool key)
      (fun cached m' after => OnVisit runId step m' after ∧ (cached ≠ .null →
        ∃ visit, VisitOf runId step after visit ∧ ∃ event ∈ visit.calls, Yields cfg.tools key cached event))
      (fun _ => OnVisit runId step) m before := by
  unfold WorkflowEngine.cachedEffect
  split
  · refine (wp_getRun_bind _).mpr ((Act.wp_perform_history _ _).mpr ⟨trivial, fun answer _ => ?_⟩)
    rw [Act.wp_ofExcept]
    have hafter := h.after (.getEffect m.run.tenantId key) (by rintro _ ⟨⟩) answer
    obtain ⟨visit, hvisit, hmem⟩ := h.call (.getEffect m.run.tenantId key) (by rintro _ ⟨⟩) answer
    cases answer with
    | error e => exact hafter
    | ok cached =>
        exact ⟨hafter, fun hcached => ⟨visit, hvisit, _, hmem, Or.inl ⟨m, m.run.tenantId, rfl, hcached⟩⟩⟩
  · exact ⟨h, fun hcached => absurd rfl hcached⟩

/-- The tool acts under the key, and what it answers is recorded and goes into the context. -/
theorem settled_act {asked : Step} {tool : Tool} {name : String} {args : Args}
    (htool : cfg.tools.get name = .ok tool) (hname : asked.tool = some name) (h : OnVisit runId step m before) :
    Act.wp (effectSpec ok cfg) (WorkflowEngine.act asked tool name args (ledgerKey runId asked.id name))
      (fun _ m' after => OnVisit runId step m' after ∧ (asked = step → StepSettled cfg.tools runId step m' after))
      (fun _ => OnVisit runId step) m before := by
  unfold WorkflowEngine.act
  generalize hsent : (if tool.sideEffect = true then
    Dict.set args "_idempotency_key" (.str (ledgerKey runId asked.id name)) else args) = sent
  refine (Act.wp_perform_history _ _).mpr ⟨trivial, fun answer _ => (Act.wp_ofExcept_bind _ _).mpr ?_⟩
  have hafter := h.after (.execute (.step asked.id) name sent) (by rintro _ ⟨⟩) answer
  obtain ⟨visit, hvisit, hmem⟩ := h.call (.execute (.step asked.id) name sent) (by rintro _ ⟨⟩) answer
  cases answer with
  | error e => exact hafter
  | ok result =>
      refine (wp_getRun_bind _).mpr ?_
      by_cases hmutates : tool.sideEffect = true
      · rw [if_pos hmutates] at hsent
        have hacts : Acts cfg.tools (ledgerKey runId asked.id name) result
            ⟨⟨m, .execute (.step asked.id) name sent⟩, .ok result⟩ :=
          ⟨ledgerKey_ne_empty _ _ _, m, .step asked.id, name, sent, rfl, (ToolRegistry.mutates_of_get htool).trans hmutates,
            by rw [← hsent]; exact Dict.get?_set_self _ _ _⟩
        rw [if_pos hmutates]
        refine (Act.wp_perform_history _ _).mpr ⟨⟨before, _, rfl, hacts⟩, fun _ _ => ?_⟩
        refine (wp_modifyRun_bind _ _).mpr ((wp_emit_bind _ _ _ _ _ _).mpr ((wp_modifyRun_bind _ _).mpr ?_))
        have hrecorded := hafter.after
          (.recordEffect m.run.tenantId (ledgerKey runId asked.id name) m.run.id asked.id name result)
          (by rintro _ ⟨⟩) ()
        refine ⟨hrecorded.memory rfl, ?_⟩
        rintro rfl
        refine StepSettled.of_output h.1 (hvisit.after _ (by rintro _ ⟨⟩)) fun name' hname' _ => ?_
        obtain rfl := Option.some.inj (hname.symm.trans hname')
        exact ⟨_, List.mem_append_left _ hmem, Or.inr hacts⟩
      · rw [if_neg hmutates]
        refine (wp_modifyRun_bind _ _).mpr ((wp_emit_bind _ _ _ _ _ _).mpr ((wp_modifyRun_bind _ _).mpr ?_))
        refine ⟨hafter.memory rfl, ?_⟩
        rintro rfl
        refine StepSettled.of_output h.1 hvisit fun name' hname' hmutates' => ?_
        obtain rfl := Option.some.inj (hname.symm.trans hname')
        rw [ToolRegistry.mutates_of_get htool] at hmutates'
        exact absurd hmutates' hmutates

/-- A tool step. -/
theorem settled_runTool (asked : Step) (h : OnVisit runId step m before) :
    Act.wp (effectSpec ok cfg) (WorkflowEngine.runTool cfg asked)
      (fun _ m' after => OnVisit runId step m' after ∧ (asked = step → StepSettled cfg.tools runId step m' after))
      (fun _ => OnVisit runId step) m before := by
  unfold WorkflowEngine.runTool
  split
  · exact h
  · rename_i name hname
    refine (Act.wp_ofExcept_bind _ _).mpr ?_
    cases htool : cfg.tools.get name with
    | error e => exact h
    | ok tool =>
        refine (wp_getRun_bind _).mpr ((Act.wp_ofExcept_bind _ _).mpr ?_)
        cases resolve asked.args m.run.context with
        | error e => exact h
        | ok args =>
            obtain rfl := h.1
            refine (Act.wp_bind _ _).mpr (Act.wp_mono _ ?_ (fun _ _ _ h' => h') (onVisit_cachedEffect tool _ h))
            rintro cached m₁ after ⟨hwithin, hcached⟩
            split
            · refine (Act.wp_bind _ _).mpr (Act.wp_mono _ ?_ (fun _ _ _ h' => h')
                (onVisit_gate asked tool name args m₁ after hwithin))
              exact fun _ m₂ after' hpassed => settled_act htool hname hpassed
            · rename_i hvalue
              refine (wp_emit_bind _ _ _ _ _ _).mpr ((wp_modifyRun_bind _ _).mpr ⟨hwithin.memory rfl, ?_⟩)
              rintro rfl
              obtain ⟨visit, hvisit, event, hmem, hyields⟩ := hcached fun hnull => hvalue (Json.isNone_iff.mpr hnull)
              refine StepSettled.of_output hwithin.1 hvisit fun name' hname' _ => ?_
              obtain rfl := Option.some.inj (hname.symm.trans hname')
              exact ⟨event, hmem, hyields⟩

theorem onVisit_stepInv (wf : Workflow) : StepInv cfg wf (effectSpec ok cfg) (OnVisit runId step) where
  memory := fun _ _ _ hsame h => h.memory hsame.id
  output := fun _ _ _ _ _ _ h => h.memory rfl
  respond := fun _ _ _ => onVisit_perform trivial trivial
  execCall := fun agent _ call => onVisit_execCall agent call
  await := onVisit_awaitApproval
  tool := fun asked _ _ _ _ h =>
    Act.wp_mono _ (fun _ _ _ h' => h'.1) (fun _ _ _ h' => h') (settled_runTool asked h)
  failed := onVisit_savedIn (by decide) (by decide)

/-- A step that returns has done what the visit is for. -/
theorem settled_runStep (hstep : wf.HasStep step) (h : OnVisit runId step m before) :
    Act.wp (effectSpec ok cfg) (WorkflowEngine.runStep cfg step)
      (fun _ => StepSettled cfg.tools runId step) (fun _ => OnVisit runId step) m before := by
  by_cases hnode : step.nodeType = .tool
  · rw [WorkflowEngine.runStep, hnode]
    exact Act.wp_mono _ (fun _ _ _ h' => h'.2 rfl) (fun _ _ _ h' => h') (settled_runTool step h)
  · refine Act.wp_mono _ ?_ (fun _ _ _ h' => h') ((onVisit_stepInv wf).runStep hstep m before h)
    rintro - m' after ⟨hid, visit, hvisit⟩
    obtain ⟨hlast, rfl, hentry⟩ := hvisit
    exact ⟨hid, visit, ⟨hlast, rfl, hentry⟩, fun name hnode' => absurd hnode' hnode⟩

/-! ### The loop -/

theorem effect_outline (wf : Workflow) (runId : String) : Outline cfg wf (effectSpec ok cfg) (fun _ m _ => m.run.id = runId)
    (fun step => OnVisit runId step) (fun step _ => StepSettled cfg.tools runId step)
    (fun step _ => OnVisit runId step) (fun _ _ _ => True) where
  unknown := fun _ _ _ _ _ => trivial
  budget := by
    intro key step violation m before _ hid _
    refine (wp_modifyRun_bind _ _).mpr ((wp_emit_bind _ _ _ _ _ _).mpr (wp_checkpoint.mpr ?_))
    rintro _ rfl
    refine ⟨fun hmoves => ?_, fun answer _ _ => ?_⟩
    · rcases hmoves with hmoves | hmoves <;> cases hmoves
    · cases answer <;> trivial
  enter := by
    intro key step m before _ hid _
    refine (wp_modifyRun_bind _ _).mpr ((wp_emit_bind _ _ _ _ _ _).mpr ((Act.wp_perform _).mpr ?_))
    rintro _ rfl
    refine ⟨trivial, fun answer after hafter => ⟨hid, ?_⟩⟩
    rw [hafter.2]
    exact ⟨_, lastVisit_span before _ step, rfl, hid⟩
  run := fun step m before hstep _ h => settled_runStep hstep h
  retry := fun step e attempt m before _ _ h => ⟨h.memory rfl, h.memory rfl⟩
  exhausted := fun _ _ _ h => h
  denied := fun step e m before _ _ h => Act.wp_mono _ (fun _ _ _ _ => trivial) (fun _ _ _ _ => trivial)
    ((onVisit_stepInv wf).failRun _ _ m before h)
  failed := fun step e m before _ _ h => Act.wp_mono _ (fun _ _ _ _ => trivial) (fun _ _ _ _ => trivial)
    (Act.keeps_bind ((onVisit_stepInv wf).compensate step) (fun _ => (onVisit_stepInv wf).failRun _ _) m before h)
  other := fun _ _ _ _ _ _ _ _ => trivial
  finish := by
    rintro step next m before _ ⟨hid, visit, ⟨hvisit, -, hentry⟩, heffected⟩
    have howed : ∀ m' : Mem, m'.run.id = m.run.id → m'.run.context = m.run.context →
        EffectedCall cfg.tools before ⟨m', .checkpoint m'.run m'.buffer⟩ := by
      intro m' hsame hcontext _
      refine ⟨visit, hvisit, (hsame.trans hid).trans hentry.symm, ?_⟩
      intro name hnode hname hmutates
      obtain ⟨value, hvalue, hyields⟩ := heffected name hnode hname hmutates
      rw [hsame, hcontext]
      exact ⟨value, hvalue, hyields⟩
    refine (wp_modifyRun_bind _ _).mpr ?_
    cases next with
    | some key =>
        refine wp_checkpoint.mpr ?_
        rintro _ rfl
        refine ⟨howed _ rfl rfl, fun answer after _ => ?_⟩
        cases answer with
        | ok value => exact hid
        | error e => trivial
    | none =>
        refine (wp_modifyRun_bind _ _).mpr ((wp_modifyRun_bind _ _).mpr ?_)
        refine (wp_getRun_bind _).mpr ((wp_emit_bind _ _ _ _ _ _).mpr (wp_checkpoint.mpr ?_))
        rintro _ rfl
        refine ⟨howed _ rfl rfl, fun answer after _ => ?_⟩
        cases answer with
        | ok value => exact hid
        | error e => trivial

theorem effected_resume (wf : Workflow) (m : Mem) (before : Trail) :
    Act.wp (effectSpec ok cfg) (WorkflowEngine.resume cfg wf) (fun _ _ _ => True) (fun _ _ _ => True) m before :=
  (effect_outline wf m.run.id).drives fun _ => rfl

end Engine

/-- A request owes what its engine owes. -/
theorem effected_program {ok : (call : Call) → call.Res → Prop} (d : Deployment) (request : Request) (before : Trail) :
    (request.program d).wp (effectSpec ok d.engine) (fun _ _ => True) before := by
  have hservice : ∀ op : Op, op.Service → Act.Keeps (effectSpec ok d.engine) (fun _ _ => True) (perform op) := by
    intro op hop
    refine Act.keeps_perform fun m before _ s₁ _ => ⟨effectedCall_of_unowing ?_, fun _ _ _ => trivial⟩
    cases op <;> trivial
  have hresume : ∀ (cfg : EngineConfig), cfg.tools = d.engine.tools → ∀ wf,
      Act.Keeps (effectSpec ok d.engine) (fun _ _ => True) (WorkflowEngine.resume cfg wf) := by
    intro cfg htools wf m before _
    rw [effectSpec, ← htools]
    exact effected_resume wf m before
  exact respects_program hservice (hresume d.engine rfl) (hresume d.engine.asynchronous rfl) request trivial

end Bass
