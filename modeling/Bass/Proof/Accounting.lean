import Bass.Proof.EngineInvariant

/-!
# Booking costs

Cost is booked in three places: after a model's answer, after an agent's tool call and after a tool
step. Each adds to the run in memory and to an event of the buffer, one after the other. A `Meter` is
anything that moves in step with the calls that cost; whatever it is, the engine keeps the cost of the
run in memory equal to it.
-/

namespace Bass

open Interaction EngineM

/-! ### What a call costs -/

inductive Charge where
  | model (cost : ℚ)
  | called (caller : Caller) (name : String)
  | recorded (stepId name : String)
  deriving DecidableEq

/-- `tools.get(name).side_effect`, for a registered tool. -/
def ToolRegistry.mutates (tools : ToolRegistry) (name : String) : Bool :=
  match tools.get name with
  | .ok tool => tool.sideEffect
  | .error _ => false

/-- `tools.get(name).cost_usd`, for a registered tool. -/
def ToolRegistry.cost (tools : ToolRegistry) (name : String) : ℚ :=
  match tools.get name with
  | .ok tool => tool.costUsd
  | .error _ => 0

theorem ToolRegistry.mutates_of_get {tools : ToolRegistry} {name : String} {tool : Tool}
    (h : tools.get name = .ok tool) : tools.mutates name = tool.sideEffect := by
  rw [mutates, h]

theorem ToolRegistry.cost_of_get {tools : ToolRegistry} {name : String} {tool : Tool}
    (h : tools.get name = .ok tool) : tools.cost name = tool.costUsd := by
  rw [cost, h]

def Charge.cost (tools : ToolRegistry) : Charge → ℚ
  | model cost => cost
  | called _ name | recorded _ name => tools.cost name

/-- What an answered call has the engine book. A mutating tool step is booked once its effect has been
recorded. -/
def Op.charge (tools : ToolRegistry) : (op : Op) → op.Res → List Charge
  | .respond .., .ok (resp, _) => [.model (resp.costUsd.getD 0)]
  | .execute (.step stepId) name _, .ok _ =>
      if tools.mutates name then [] else [.called (.step stepId) name]
  | .execute (.agent agent) name _, .ok _ => [.called (.agent agent) name]
  | .recordEffect _ _ _ stepId name _, _ => [.recorded stepId name]
  | _, _ => []

def totalCost (tools : ToolRegistry) (charges : List Charge) : ℚ := (charges.map (Charge.cost tools)).sum

@[simp] theorem totalCost_nil (tools : ToolRegistry) : totalCost tools [] = 0 := rfl

@[simp] theorem totalCost_append (tools : ToolRegistry) (charges charges' : List Charge) :
    totalCost tools (charges ++ charges') = totalCost tools charges + totalCost tools charges' := by
  simp [totalCost]

theorem totalCost_singleton (tools : ToolRegistry) (charge : Charge) :
    totalCost tools [charge] = charge.cost tools := by
  simp [totalCost]

/-! ### Meters -/

/-- The memories hold the same run, and the second has no costs in its buffer that the first lacks. -/
structure SameBill (m m' : Mem) : Prop where
  id : m'.run.id = m.run.id
  tenantId : m'.run.tenantId = m.run.tenantId
  workflowId : m'.run.workflowId = m.run.workflowId
  free : ∃ events, m'.buffer = m.buffer ++ events ∧ ∀ ev ∈ events, ev.costUsd = 0

theorem Quiet.sameBill {m m' : Mem} (h : Quiet m m') : SameBill m m' :=
  ⟨h.id, h.tenantId, h.workflowId, h.free⟩

/-- A change of the run alone. -/
theorem sameBill_of_run {m : Mem} {run : Run} (hid : run.id = m.run.id)
    (htenant : run.tenantId = m.run.tenantId) (hworkflow : run.workflowId = m.run.workflowId) :
    SameBill m { m with run := run } :=
  ⟨hid, htenant, hworkflow, [], (List.append_nil _).symm, fun _ h => absurd h List.not_mem_nil⟩

/-- `f` moves in step with the charges of the calls and the costs of the events, where `K` holds. -/
structure Meter {σ : Type} (tools : ToolRegistry) (S : Spec Call Call.Res σ) (K : Mem → σ → Prop)
    (f : Mem → σ → ℚ) : Prop where
  memory : ∀ m m' s, SameBill m m' → K m s → K m' s ∧ f m' s = f m s
  rely : ∀ m s s₁, K m s → S.rely s s₁ → K m s₁ ∧ f m s₁ = f m s
  guar : ∀ m s (op : Op), op.InStep → K m s → S.guar s ⟨m, op⟩
  free : ∀ m s (op : Op) answer s', op.InStep → K m s → S.step s ⟨m, op⟩ answer s' →
    op.charge tools answer = [] → K m s' ∧ f m s' = f m s
  paid : ∀ m s (op : Op) answer s' ev, op.InStep → K m s → S.step s ⟨m, op⟩ answer s' →
    ev.runId = m.run.id → ev.costUsd = totalCost tools (op.charge tools answer) →
    K { m with buffer := m.buffer ++ [ev] } s' ∧
      f { m with buffer := m.buffer ++ [ev] } s' = f m s + ev.costUsd
  untyped : ∀ m s agent task scratch resp scratch' s', K m s →
    S.step s ⟨m, .respond agent task scratch⟩ (.ok (resp, scratch')) s' → resp.type = none →
    K m s' ∧ f m s' = f m s + resp.costUsd.getD 0

/-- A meter keeps working where more is known, more is owed, and a further assertion is kept. -/
theorem Meter.strengthen {σ : Type} {tools : ToolRegistry} {S S' : Spec Call Call.Res σ}
    {K K' : Mem → σ → Prop} {f : Mem → σ → ℚ} (h : Meter tools S K f)
    (hstep : ∀ s call answer s', S'.step s call answer s' → S.step s call answer s')
    (hrely : ∀ s s', S'.rely s s' → S.rely s s')
    (hguar : ∀ m s (op : Op), op.InStep → S.guar s ⟨m, op⟩ → S'.guar s ⟨m, op⟩)
    (hmemory : ∀ m m' s, m'.run.id = m.run.id → m'.run.workflowId = m.run.workflowId → K' m s →
      K' m' s)
    (hothers : ∀ m s s₁, K' m s → S'.rely s s₁ → K' m s₁)
    (hkept : ∀ m s (op : Op) answer s', op.InStep → K' m s → S'.step s ⟨m, op⟩ answer s' →
      K' m s') : Meter tools S' (fun m s => K m s ∧ K' m s) f where
  memory := by
    intro m m' s hsame hK
    obtain ⟨hK', hf⟩ := h.memory m m' s hsame hK.1
    exact ⟨⟨hK', hmemory m m' s hsame.id hsame.workflowId hK.2⟩, hf⟩
  rely := by
    intro m s s₁ hK hr
    obtain ⟨hK', hf⟩ := h.rely m s s₁ hK.1 (hrely s s₁ hr)
    exact ⟨⟨hK', hothers m s s₁ hK.2 hr⟩, hf⟩
  guar := fun m s op hop hK => hguar m s op hop (h.guar m s op hop hK.1)
  free := by
    intro m s op answer s' hop hK hs hfree
    obtain ⟨hK', hf⟩ := h.free m s op answer s' hop hK.1 (hstep _ _ _ _ hs) hfree
    exact ⟨⟨hK', hkept m s op answer s' hop hK.2 hs⟩, hf⟩
  paid := by
    intro m s op answer s' ev hop hK hs hid hcost
    obtain ⟨hK', hf⟩ := h.paid m s op answer s' ev hop hK.1 (hstep _ _ _ _ hs) hid hcost
    exact ⟨⟨hK', hmemory m _ s' rfl rfl (hkept m s op answer s' hop hK.2 hs)⟩, hf⟩
  untyped := by
    intro m s agent task scratch resp scratch' s' hK hs htype
    obtain ⟨hK', hf⟩ := h.untyped m s agent task scratch resp scratch' s' hK.1 (hstep _ _ _ _ hs) htype
    exact ⟨⟨hK', hkept m s (.respond agent task scratch) _ s' trivial hK.2 hs⟩, hf⟩

/-- The run in memory costs what the meter shows. -/
def Metered {σ : Type} (K : Mem → σ → Prop) (f : Mem → σ → ℚ) (m : Mem) (s : σ) : Prop :=
  K m s ∧ m.run.costUsd = f m s

section Walk

variable {σ : Type} {cfg : EngineConfig} {S : Spec Call Call.Res σ} {K : Mem → σ → Prop}
  {f : Mem → σ → ℚ}

theorem Metered.memory (h : Meter cfg.tools S K f) {m m' : Mem} {s : σ} (hsame : SameBill m m')
    (hcost : m'.run.costUsd = m.run.costUsd) (hm : Metered K f m s) : Metered K f m' s := by
  obtain ⟨hK, hf⟩ := h.memory m m' s hsame hm.1
  exact ⟨hK, hcost.trans (hm.2.trans hf.symm)⟩

theorem Metered.free (h : Meter cfg.tools S K f) {m : Mem} {s s₁ s' : σ} {op : Op} {answer : op.Res}
    (hm : Metered K f m s) (hrely : S.rely s s₁) (hs : S.step s₁ ⟨m, op⟩ answer s') (hop : op.InStep)
    (hfree : op.charge cfg.tools answer = []) :
    Metered K f m s' := by
  obtain ⟨hK₁, hf₁⟩ := h.rely m s s₁ hm.1 hrely
  obtain ⟨hK', hf'⟩ := h.free m s₁ op answer s' hop hK₁ hs hfree
  exact ⟨hK', hm.2.trans (hf₁.symm.trans hf'.symm)⟩

/-- The charge is added to the run, and then to the buffer. -/
theorem Metered.paid (h : Meter cfg.tools S K f) {m : Mem} {s s₁ s' : σ} {op : Op}
    {answer : op.Res} (ev : Event) (hm : Metered K f m s) (hrely : S.rely s s₁)
    (hs : S.step s₁ ⟨m, op⟩ answer s') (hop : op.InStep) (hid : ev.runId = m.run.id)
    (hcost : ev.costUsd = totalCost cfg.tools (op.charge cfg.tools answer)) :
    Metered K f { run := { m.run with costUsd := m.run.costUsd + ev.costUsd }
                  buffer := m.buffer ++ [ev] } s' := by
  obtain ⟨hK₁, hf₁⟩ := h.rely m s s₁ hm.1 hrely
  obtain ⟨hK', hf'⟩ := h.paid m s₁ op answer s' ev hop hK₁ hs hid hcost
  have hrun : SameBill { m with buffer := m.buffer ++ [ev] }
      { run := { m.run with costUsd := m.run.costUsd + ev.costUsd }
        buffer := m.buffer ++ [ev] } := sameBill_of_run rfl rfl rfl
  obtain ⟨hK, hf⟩ := h.memory _ _ s' hrun hK'
  refine ⟨hK, ?_⟩
  calc
    m.run.costUsd + ev.costUsd = f m s + ev.costUsd := by rw [hm.2]
    _ = f m s₁ + ev.costUsd := by rw [hf₁]
    _ = f { m with buffer := m.buffer ++ [ev] } s' := hf'.symm
    _ = _ := hf.symm

theorem metered_perform (h : Meter cfg.tools S K f) {op : Op} (hop : op.InStep)
    (hfree : ∀ answer, op.charge cfg.tools answer = []) :
    Act.Keeps S (Metered K f) (perform op) := by
  refine Act.keeps_perform fun m s hm s₁ hrely => ⟨?_, fun answer s' hs => ?_⟩
  · exact h.guar m s₁ op hop (h.rely m s s₁ hm.1 hrely).1
  · exact hm.free h hrely hs hop (hfree answer)

theorem metered_quiet (h : Meter cfg.tools S K f) :
    ∀ m m' s, Quiet m m' → Metered K f m s → Metered K f m' s :=
  fun _ _ _ hquiet hm => hm.memory h hquiet.sameBill hquiet.cost

theorem metered_model (h : Meter cfg.tools S K f) (agent : Agent) (task : Args) (scratch : Scratch)
    (m : Mem) (s : σ) (hm : Metered K f m s) :
    Act.wp S (perform (.respond agent task scratch)) (Booked (Metered K f) agent)
      (fun _ => Metered K f) m s := by
  refine (Act.wp_perform _).mpr fun s₁ hrely => ⟨?_, fun answer s' hs => ?_⟩
  · exact h.guar m s₁ _ trivial (h.rely m s s₁ hm.1 hrely).1
  · cases answer with
    | error e => exact hm.free h hrely hs trivial rfl
    | ok out =>
        obtain ⟨resp, scratch'⟩ := out
        unfold Booked
        dsimp only
        cases htype : resp.type with
        | none =>
            obtain ⟨hK₁, hf₁⟩ := h.rely m s s₁ hm.1 hrely
            obtain ⟨hK', hf'⟩ := h.untyped m s₁ agent task scratch resp scratch' s' hK₁ hs htype
            obtain ⟨hK, hf⟩ := h.memory m { m with run :=
              { m.run with costUsd := m.run.costUsd + resp.costUsd.getD 0 } } s'
              (sameBill_of_run rfl rfl rfl) hK'
            exact ⟨hK, by rw [hf, hf', hf₁, ← hm.2]⟩
        | some kind =>
            have hpaid := hm.paid h ⟨m.run.id, m.run.tenantId, "agent_message",
              .obj [("agent", .str agent.name), ("kind", .str kind)], none, agent.name,
              resp.costUsd.getD 0⟩ hrely hs trivial rfl
              (totalCost_singleton cfg.tools (.model (resp.costUsd.getD 0))).symm
            exact hpaid

theorem metered_execCall (h : Meter cfg.tools S K f) (agent : Agent) (call : ToolCall) :
    Act.Keeps S (Metered K f) (AgentRuntime.execCall cfg agent call) := by
  refine Act.keeps_bind (Act.keeps_ofExcept _) fun name => ?_
  intro m s hm
  refine (Act.wp_ofExcept_bind _ _).mpr ?_
  cases hget : cfg.tools.get name with
  | error e => exact hm
  | ok tool =>
      have hrest : Act.Keeps S (Metered K f) (do
          let decision ← perform (.policyCheck agent tool call.args m.run.context)
          emit "policy_decision" (AgentRuntime.decisionPayload name decision) none 0 agent.name
          if decision.effect = .allow then
            let answer ← perform (.execute (.agent agent.name) name call.args)
            let result ← Act.ofExcept answer
            modifyRun fun run => { run with costUsd := run.costUsd + tool.costUsd }
            emit "tool_result" (.obj [("tool", .str name), ("result", result)]) none tool.costUsd
              agent.name
            return Json.obj [("id", .str (call.id.getD name)), ("tool", .str name),
              ("result", result)]
          else
            let reason := AgentRuntime.refusal decision
            emit "tool_denied" (.obj [("tool", .str name), ("reason", .str reason)]) none 0 agent.name
            return Json.obj [("id", .str (call.id.getD name)), ("tool", .str name),
              ("error", .str reason)]) := by
        refine Act.keeps_bind (metered_perform h trivial fun _ => rfl) fun decision => ?_
        refine Act.keeps_bind (keeps_free_emit (metered_quiet h) _ _ _ _) fun _ => ?_
        split
        · intro m₁ x₁ hm₁
          refine (Act.wp_perform_bind _ _).mpr fun x₂ hrely => ⟨?_, fun answer x₃ hs => ?_⟩
          · exact h.guar m₁ x₂ _ trivial (h.rely m₁ x₁ x₂ hm₁.1 hrely).1
          · refine (Act.wp_ofExcept_bind _ _).mpr ?_
            cases answer with
            | error e => exact hm₁.free h hrely hs trivial rfl
            | ok result =>
                refine (wp_modifyRun_bind _ _).mpr ((wp_emit_bind _ _ _ _ _ _).mpr ?_)
                have hcost : tool.costUsd = totalCost cfg.tools [.called (.agent agent.name) name] := by
                  rw [totalCost_singleton, Charge.cost, ToolRegistry.cost_of_get hget]
                exact hm₁.paid h ⟨m₁.run.id, m₁.run.tenantId, "tool_result",
                  .obj [("tool", .str name), ("result", result)], none, agent.name, tool.costUsd⟩
                  hrely hs trivial rfl hcost
        · exact Act.keeps_bind (keeps_free_emit (metered_quiet h) _ _ _ _) fun _ => Act.keeps_pure _
      exact (wp_getRun_bind _).mpr (hrest m s hm)

/-- After the call that is charged for, the result is booked and put into the context. -/
theorem metered_booking (h : Meter cfg.tools S K f) {step : Step} {tool : Tool} {name : String}
    {result : Json} {m : Mem} {s s₁ s' : σ} {op : Op} {answer : op.Res}
    (hm : Metered K f m s) (hrely : S.rely s s₁) (hs : S.step s₁ ⟨m, op⟩ answer s') (hop : op.InStep)
    (hcost : tool.costUsd = totalCost cfg.tools (op.charge cfg.tools answer)) :
    Act.wp S (do
      modifyRun fun run => { run with costUsd := run.costUsd + tool.costUsd }
      emit "tool_result" (.obj [("tool", .str name), ("result", result)]) (some step.id) tool.costUsd
      modifyRun fun run => { run with context := Dict.set run.context step.id result }
      return step.next) (fun _ => Metered K f) (fun _ => Metered K f) m s' := by
  refine (wp_modifyRun_bind _ _).mpr ((wp_emit_bind _ _ _ _ _ _).mpr ((wp_modifyRun_bind _ _).mpr ?_))
  have hpaid := hm.paid h ⟨m.run.id, m.run.tenantId, "tool_result",
    .obj [("tool", .str name), ("result", result)], some step.id, "system", tool.costUsd⟩
    hrely hs hop rfl hcost
  exact hpaid.memory h (sameBill_of_run rfl rfl rfl) rfl

theorem metered_act (h : Meter cfg.tools S K f) (step : Step) {tool : Tool} {name : String}
    (hget : cfg.tools.get name = .ok tool) (args : Args) (key : String) :
    Act.Keeps S (Metered K f) (WorkflowEngine.act step tool name args key) := by
  have hcalled : ∀ caller, tool.costUsd = totalCost cfg.tools [.called caller name] := by
    intro caller
    rw [totalCost_singleton, Charge.cost, ToolRegistry.cost_of_get hget]
  have hrecorded : tool.costUsd = totalCost cfg.tools [.recorded step.id name] := by
    rw [totalCost_singleton, Charge.cost, ToolRegistry.cost_of_get hget]
  intro m s hm
  refine (Act.wp_perform_bind _ _).mpr fun s₁ hrely => ⟨?_, fun answer s' hs => ?_⟩
  · exact h.guar m s₁ _ trivial (h.rely m s s₁ hm.1 hrely).1
  refine (Act.wp_ofExcept_bind _ _).mpr ?_
  cases answer with
  | error e => exact hm.free h hrely hs trivial rfl
  | ok result =>
      refine (wp_getRun_bind _).mpr ?_
      by_cases hmutating : tool.sideEffect = true
      · -- a mutating tool: nothing is owed for the execution, but for its record
        rw [if_pos hmutating]
        have hfree : Op.charge cfg.tools (.execute (.step step.id) name
            (if tool.sideEffect = true then Dict.set args "_idempotency_key" (.str key) else args))
            (.ok result) = [] := by
          simp [Op.charge, ToolRegistry.mutates_of_get hget, hmutating]
        have hexecuted := hm.free h hrely hs trivial hfree
        refine (Act.wp_perform_bind _ _).mpr fun s₂ hrely' => ⟨?_, fun answer s'' hs' => ?_⟩
        · exact h.guar m s₂ _ trivial (h.rely m s' s₂ hexecuted.1 hrely').1
        · exact metered_booking h hexecuted hrely' hs' trivial hrecorded
      · rw [if_neg hmutating]
        refine metered_booking h hm hrely hs trivial ?_
        have hcharge : Op.charge cfg.tools (.execute (.step step.id) name
            (if tool.sideEffect = true then Dict.set args "_idempotency_key" (.str key) else args))
            (.ok result) = [.called (.step step.id) name] := by
          simp [Op.charge, ToolRegistry.mutates_of_get hget, hmutating]
        rw [hcharge]
        exact hcalled _

theorem metered_runTool (h : Meter cfg.tools S K f)
    (hpause : SavedIn S (Metered K f) .waitingApproval) (step : Step) :
    Act.Keeps S (Metered K f) (WorkflowEngine.runTool cfg step) := by
  have hplain : ∀ op : Op, op.Asking → Act.Keeps S (Metered K f) (perform op) := by
    intro op hop
    refine metered_perform h hop.plain.inStep fun answer => ?_
    cases op <;> first | rfl | exact hop.elim
  unfold WorkflowEngine.runTool
  split
  · exact Act.keeps_throw _
  · rename_i name _
    intro m s hm
    refine (Act.wp_ofExcept_bind _ _).mpr ?_
    cases hget : cfg.tools.get name with
    | error e => exact hm
    | ok tool =>
        refine (wp_getRun_bind _).mpr ?_
        have hrest : Act.Keeps S (Metered K f) (do
            let args ← Act.ofExcept (resolve step.args m.run.context)
            let key := ledgerKey m.run.id step.id name
            let cached ← WorkflowEngine.cachedEffect tool key
            if cached.isNone then
              WorkflowEngine.gate cfg step tool name args
              WorkflowEngine.act step tool name args key
            else
              emit "tool_result_replayed" (.obj [("tool", .str name), ("result", cached)])
                (some step.id)
              modifyRun fun run => { run with context := Dict.set run.context step.id cached }
              return step.next) := by
          refine Act.keeps_bind (Act.keeps_ofExcept _) fun args => Act.keeps_bind ?_ fun cached => ?_
          · unfold WorkflowEngine.cachedEffect
            split
            · refine Act.keeps_bind keeps_getRun fun run => ?_
              exact Act.keeps_bind (metered_perform h trivial fun _ => rfl) fun _ =>
                Act.keeps_ofExcept _
            · exact Act.keeps_pure _
          · split
            · refine Act.keeps_bind (Act.keeps_bind keeps_getRun fun run => ?_) fun _ =>
                metered_act h step hget args _
              refine Act.keeps_bind (metered_perform h trivial fun _ => rfl) fun decision => ?_
              refine Act.keeps_bind (keeps_free_emit (metered_quiet h) _ _ _ _) fun _ => ?_
              split
              · exact Act.keeps_pure _
              · exact Act.keeps_throw _
              · refine Act.keeps_bind (keeps_awaitApproval (fun m m' s ha => metered_quiet h m m' s ha.toQuiet) hplain hpause _ _ _ _)
                  fun granted => ?_
                split
                · exact Act.keeps_pure _
                · exact Act.keeps_throw _
            · refine Act.keeps_bind (keeps_free_emit (metered_quiet h) _ _ _ _) fun _ => ?_
              refine Act.keeps_bind (keeps_modifyRun fun m s hm => ?_) fun _ => Act.keeps_pure _
              exact hm.memory h (sameBill_of_run rfl rfl rfl) rfl
        exact hrest m s hm

/-- Whatever it shows, a meter that every checkpoint keeps right is kept right by every step. -/
theorem metered_step (h : Meter cfg.tools S K f) (wf : Workflow)
    (hcheckpoint : Act.Keeps S (Metered K f) EngineM.checkpoint) :
    StepWalk cfg wf S (Metered K f) where
  quiet := metered_quiet h
  output := fun _ _ _ _ _ _ hm => hm.memory h (sameBill_of_run rfl rfl rfl) rfl
  model := metered_model h
  execCall := fun agent _ call => metered_execCall h agent call
  await := keeps_awaitApproval (fun m m' s ha => metered_quiet h m m' s ha.toQuiet) (fun op hop => by
    refine metered_perform h hop.plain.inStep fun answer => ?_
    cases op <;> first | rfl | exact hop.elim) (savedIn_of_keeps hcheckpoint _)
  tool := fun step _ _ => metered_runTool h (savedIn_of_keeps hcheckpoint _) step
  failed := savedIn_of_keeps hcheckpoint _

theorem metered_engine (h : Meter cfg.tools S K f) (wf : Workflow)
    (hspan : ∀ step, Act.Keeps S (Metered K f) (perform (.stepSpan step)))
    (hcheckpoint : Act.Keeps S (Metered K f) EngineM.checkpoint) :
    EngineWalk cfg wf S (Metered K f) where
  toStepWalk := metered_step h wf hcheckpoint
  count := fun _ _ hm => hm.memory h (sameBill_of_run rfl rfl rfl) rfl
  span := hspan
  checkpoint := hcheckpoint

end Walk

end Bass
