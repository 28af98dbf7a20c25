import Bass.Interaction.Trace
import Bass.Proof.RequestInvariant

/-!
# Complete mediation

A tool is executed in two places, a tool step of the engine and a call of the agent loop. Both put
the same arguments to the policy gate immediately before, and go on only if it allows them to, a tool
step also if an approval it requires has been granted.
-/

namespace Bass

open Interaction EngineM

/-- The calls by which a tool step obtains an approval that is granted. -/
inductive Granted (run : Run) (step : Step) : Trail → Prop where
  /-- The callback was asked about an approval requested for this, and said yes. -/
  | sync {m₁ m₂ m₃ : Mem} {approvers : List String} {approvalId tool : String} {asked : Run}
      {args : Args} (hasked : asked.id = run.id) :
      Granted run step
        [⟨⟨m₁, .createApproval run.tenantId run.id step.id approvers⟩, .ok approvalId⟩,
          ⟨⟨m₂, .approvalFn asked step tool args⟩, .ok true⟩,
          ⟨⟨m₃, .resolveApproval run.tenantId approvalId true "approval_fn" ""⟩, .ok ()⟩]
  /-- The latest approval of the step has been resolved, positively. -/
  | async {m : Mem} {approvalId : String} :
      Granted run step
        [⟨⟨m, .latestApproval run.tenantId run.id step.id⟩, some (approvalId, .approved)⟩]

/-- The gate was asked about `args` and its answer, with the approval that followed, licenses the
caller to execute the tool on `sent`. -/
def Licensed (cfg : EngineConfig) (run : Run) (agent : Agent) (decision : Decision) (tool : Tool)
    (args : Args) (approval : Trail) (name : String) (sent : Args) : Caller → Prop
  | .agent agentName => cfg.HasAgent agent ∧ agent.name = agentName ∧ name ∈ agent.tools ∧
      decision.effect = .allow ∧ approval = [] ∧ sent = args
  | .step stepId => ∃ step : Step, step.id = stepId ∧ step.tool = some name ∧
      agent = WorkflowEngine.systemAgent name ∧
      sent = (if tool.sideEffect then
        Dict.set args "_idempotency_key" (.str (ledgerKey run.id stepId name)) else args) ∧
      ((decision.effect = .allow ∧ approval = []) ∨
        (decision.effect = .requireApproval ∧ Granted run step approval))

/-- The last question put to the gate in `before` was about this execution, and it was licensed. -/
def Mediated (cfg : EngineConfig) (before : Trail) (m : Mem) (caller : Caller) (name : String)
    (sent : Args) : Prop :=
  ∃ (earlier : Trail) (m₁ : Mem) (agent : Agent) (tool : Tool) (args : Args) (decision : Decision)
    (approval : Trail),
    before = earlier ++ ⟨⟨m₁, .policyCheck agent tool args m.run.context⟩, decision⟩ :: approval ∧
    cfg.tools.get name = .ok tool ∧ decision = cfg.policy.check agent tool args m.run.context ∧
    Licensed cfg m.run agent decision tool args approval name sent caller

/-- A driver owes mediation at every execution. -/
def MediatedCall (cfg : EngineConfig) (before : Trail) (call : Call) : Prop :=
  ∀ caller name sent, call.op = .execute caller name sent →
    Mediated cfg before call.mem caller name sent

/-- Answers of some database. -/
abbrev Answered (cfg : EngineConfig) (redact : Json → Json) (call : Call) (answer : call.Res) :
    Prop := Pool.Answers (Call.step cfg.policy redact) call answer

abbrev mediationSpec (cfg : EngineConfig) (redact : Json → Json) : Spec Call Call.Res Trail :=
  .history (Answered cfg redact) (MediatedCall cfg)

section Engine

variable {cfg : EngineConfig} {redact : Json → Json}

theorem decision_of_answered {m : Mem} {agent : Agent} {tool : Tool} {args : Args}
    {context : Context} {decision : Decision}
    (h : Answered cfg redact ⟨m, .policyCheck agent tool args context⟩ decision) :
    decision = cfg.policy.check agent tool args context := by
  obtain ⟨db, db', hdecision, -⟩ := h
  exact hdecision

/-- A call that executes nothing owes nothing. -/
theorem mediatedCall_of_ne {before : Trail} {call : Call}
    (h : ∀ caller name sent, call.op ≠ .execute caller name sent) :
    MediatedCall cfg before call :=
  fun caller name sent heq => absurd heq (h caller name sent)

theorem keeps_perform_of_ne {op : Op} (h : ∀ caller name sent, op ≠ .execute caller name sent) :
    Act.Keeps (mediationSpec cfg redact) (fun _ _ => True) (perform op) :=
  Act.keeps_perform fun _ _ _ _ _ => ⟨mediatedCall_of_ne h, fun _ _ _ => trivial⟩

/-- A call of the agent loop is put to the gate before it is executed. -/
theorem mediated_execCall {agent : Agent} (hagent : cfg.HasAgent agent) (call : ToolCall) :
    Act.Keeps (mediationSpec cfg redact) (fun _ _ => True) (AgentRuntime.execCall cfg agent call) := by
  intro m before _
  refine (Act.wp_ofExcept_bind _ _).mpr ?_
  split
  · rename_i name _
    refine (Act.wp_ofExcept_bind _ _).mpr ?_
    split
    · rename_i tool htool
      refine (wp_getRun_bind _).mpr ((Act.wp_perform_history _ _).mpr ⟨?_, fun decision hcheck => ?_⟩)
      · exact mediatedCall_of_ne fun _ _ _ h => nomatch h
      have hdecision := decision_of_answered hcheck
      refine (wp_emit_bind _ _ _ _ _ _).mpr ?_
      split
      · rename_i hallow
        refine (Act.wp_perform_history _ _).mpr ⟨?_, fun answer _ => ?_⟩
        · rintro caller name' sent heq
          cases heq
          have hpermitted : (cfg.policy.check agent tool call.args m.run.context).effect ≠ .deny := by
            rw [← hdecision, hallow]
            nofun
          have hmem : name ∈ agent.tools := by
            rw [← ToolRegistry.name_of_get htool]
            exact PolicyEngine.mem_tools_of_check hpermitted
          exact ⟨before, m, agent, tool, call.args, decision, [], rfl, htool, hdecision, hagent, rfl,
            hmem, hallow, rfl, rfl⟩
        · refine (Act.wp_ofExcept_bind _ _).mpr ?_
          split
          · exact (wp_modifyRun_bind _ _).mpr ((wp_emit_bind _ _ _ _ _ _).mpr trivial)
          · trivial
      · exact (wp_emit_bind _ _ _ _ _ _).mpr trivial
    · trivial
  · trivial

/-! ### Tool steps -/

/-- What an approval leaves behind: the run as it was, and if it was granted the calls that say so. -/
def Awaited (step : Step) (m : Mem) (before : Trail) (granted : Bool) (m' : Mem) (after : Trail) :
    Prop :=
  SameRun m m' ∧ (granted = true → ∃ approval, after = before ++ approval ∧
    Granted m.run step approval)

theorem awaited_awaitSync (step : Step) (approvers : List String) (tool : String) (args : Args)
    (m : Mem) (before : Trail) :
    Act.wp (mediationSpec cfg redact) (WorkflowEngine.awaitSync step approvers tool args)
      (Awaited step m before) (fun _ _ _ => True) m before := by
  refine (wp_getRun_bind _).mpr ((Act.wp_perform_history _ _).mpr ⟨?_, fun created _ => ?_⟩)
  · exact mediatedCall_of_ne fun _ _ _ h => nomatch h
  refine (Act.wp_ofExcept_bind _ _).mpr ?_
  split
  · refine (wp_modifyRun_bind _ _).mpr ((wp_emit_bind _ _ _ _ _ _).mpr ((wp_getRun_bind _).mpr ?_))
    refine (Act.wp_perform_history _ _).mpr ⟨?_, fun answer _ => ?_⟩
    · exact mediatedCall_of_ne fun _ _ _ h => nomatch h
    refine (Act.wp_ofExcept_bind _ _).mpr ?_
    split
    · refine (Act.wp_perform_history _ _).mpr ⟨?_, fun resolved _ => ?_⟩
      · exact mediatedCall_of_ne fun _ _ _ h => nomatch h
      refine (Act.wp_ofExcept_bind _ _).mpr ?_
      split
      · refine (wp_emit_bind _ _ _ _ _ _).mpr ((wp_modifyRun_bind _ _).mpr ?_)
        have hbuffer : ∀ (l : List Event) (a b : Event), l <+: (l ++ [a]) ++ [b] :=
          fun l a b => (List.prefix_append l [a]).trans (List.prefix_append _ [b])
        refine ⟨⟨⟨rfl, rfl, rfl, rfl, rfl, rfl, hbuffer _ _ _⟩, rfl⟩, ?_⟩
        rintro rfl
        refine ⟨_, by rw [List.append_assoc, List.append_assoc], ?_⟩
        exact .sync rfl
      · trivial
    · trivial
  · trivial

theorem mediated_checkpoint :
    Act.Keeps (mediationSpec cfg redact) (fun _ _ => True) EngineM.checkpoint :=
  keeps_checkpoint_call fun _ _ _ _ _ =>
    ⟨mediatedCall_of_ne (fun _ _ _ h => nomatch h), fun _ _ _ => ⟨trivial, trivial⟩⟩

theorem awaited_awaitAsync (step : Step) (approvers : List String) (tool : String) (args : Args)
    (m : Mem) (before : Trail) :
    Act.wp (mediationSpec cfg redact) (WorkflowEngine.awaitAsync step approvers tool args)
      (Awaited step m before) (fun _ _ _ => True) m before := by
  refine (wp_getRun_bind _).mpr ((Act.wp_perform_history _ _).mpr ⟨?_, fun latest _ => ?_⟩)
  · exact mediatedCall_of_ne fun _ _ _ h => nomatch h
  split
  · refine (Act.wp_perform_history _ _).mpr ⟨?_, fun created _ => ?_⟩
    · exact mediatedCall_of_ne fun _ _ _ h => nomatch h
    refine (Act.wp_ofExcept_bind _ _).mpr ?_
    split
    · refine (wp_modifyRun_bind _ _).mpr ((wp_emit_bind _ _ _ _ _ _).mpr ((Act.wp_bind _ _).mpr ?_))
      exact mediated_checkpoint _ _ trivial
    · trivial
  · rename_i approvalId status
    split
    · refine (wp_modifyRun_bind _ _).mpr ((Act.wp_bind _ _).mpr ?_)
      exact mediated_checkpoint _ _ trivial
    · refine (wp_emit_bind _ _ _ _ _ _).mpr
        ⟨⟨⟨rfl, rfl, rfl, rfl, rfl, rfl, List.prefix_append _ _⟩, rfl⟩, fun hgranted => ?_⟩
      obtain rfl := of_decide_eq_true hgranted
      exact ⟨_, rfl, .async⟩

theorem awaited_awaitApproval (step : Step) (approvers : List String) (tool : String) (args : Args)
    (m : Mem) (before : Trail) :
    Act.wp (mediationSpec cfg redact) (WorkflowEngine.awaitApproval cfg step approvers tool args)
      (Awaited step m before) (fun _ _ _ => True) m before := by
  unfold WorkflowEngine.awaitApproval
  split
  · exact awaited_awaitSync step approvers tool args m before
  · exact awaited_awaitAsync step approvers tool args m before

theorem Granted.congr {run run' : Run} {step : Step} {approval : Trail}
    (h : Granted run step approval) (hid : run'.id = run.id) (htenant : run'.tenantId = run.tenantId) :
    Granted run' step approval := by
  cases h with
  | sync hasked =>
      rw [← hid, ← htenant]
      exact .sync (hasked.trans hid.symm)
  | async =>
      rw [← hid, ← htenant]
      exact .async

/-- What the gate of a tool step leaves behind when it lets the step pass. -/
def Passed (cfg : EngineConfig) (step : Step) (tool : Tool) (name : String) (args : Args) (m : Mem)
    (after : Trail) : Prop :=
  ∃ (earlier : Trail) (m₁ : Mem) (decision : Decision) (approval : Trail),
    after = earlier ++ ⟨⟨m₁, .policyCheck (WorkflowEngine.systemAgent name) tool args
      m.run.context⟩, decision⟩ :: approval ∧
    decision = cfg.policy.check (WorkflowEngine.systemAgent name) tool args m.run.context ∧
    ((decision.effect = .allow ∧ approval = []) ∨
      (decision.effect = .requireApproval ∧ Granted m.run step approval))

theorem passed_gate (step : Step) (tool : Tool) (name : String) (args : Args) (m : Mem)
    (before : Trail) :
    Act.wp (mediationSpec cfg redact) (WorkflowEngine.gate cfg step tool name args)
      (fun _ m' after => m'.run.id = m.run.id ∧ Passed cfg step tool name args m' after)
      (fun _ _ _ => True) m before := by
  refine (wp_getRun_bind _).mpr ((Act.wp_perform_history _ _).mpr ⟨?_, fun decision hcheck => ?_⟩)
  · exact mediatedCall_of_ne fun _ _ _ h => nomatch h
  have hdecision := decision_of_answered hcheck
  refine (wp_emit_bind _ _ _ _ _ _).mpr ?_
  split
  · rename_i hallow
    exact ⟨rfl, before, m, decision, [], rfl, hdecision, Or.inl ⟨hallow, rfl⟩⟩
  · trivial
  · rename_i hrequire
    refine (Act.wp_bind _ _).mpr (Act.wp_mono _ ?_ (fun _ _ _ _ => trivial)
      (awaited_awaitApproval step decision.approvers name args _ _))
    rintro granted m' after ⟨hsame, hgranted⟩
    cases granted with
    | false => trivial
    | true =>
        obtain ⟨approval, rfl, happroval⟩ := hgranted rfl
        refine ⟨hsame.id, before, m, decision, approval, ?_, ?_, Or.inr ⟨hrequire, ?_⟩⟩
        · rw [hsame.context, List.append_assoc]
          rfl
        · rw [hsame.context]
          exact hdecision
        · exact happroval.congr hsame.id hsame.tenantId

theorem mediated_act {step : Step} {tool : Tool} {name : String} {args : Args} {m : Mem}
    {before : Trail} (hname : step.tool = some name) (htool : cfg.tools.get name = .ok tool)
    (hpassed : Passed cfg step tool name args m before) :
    Act.wp (mediationSpec cfg redact)
      (WorkflowEngine.act step tool name args (ledgerKey m.run.id step.id name))
      (fun _ _ _ => True) (fun _ _ _ => True) m before := by
  refine (Act.wp_perform_history _ _).mpr ⟨?_, fun answer _ => ?_⟩
  · rintro caller name' sent heq
    cases heq
    obtain ⟨earlier, m₁, decision, approval, hbefore, hdecision, hlicense⟩ := hpassed
    exact ⟨earlier, m₁, _, tool, args, decision, approval, hbefore, htool, hdecision, step, rfl, hname,
      rfl, rfl, hlicense⟩
  · refine (Act.wp_ofExcept_bind _ _).mpr ?_
    split
    · refine (wp_getRun_bind _).mpr ?_
      split
      · refine (Act.wp_perform_history _ _).mpr ⟨?_, fun _ _ => ?_⟩
        · exact mediatedCall_of_ne fun _ _ _ h => nomatch h
        · exact (wp_modifyRun_bind _ _).mpr ((wp_emit_bind _ _ _ _ _ _).mpr trivial)
      · exact (wp_modifyRun_bind _ _).mpr ((wp_emit_bind _ _ _ _ _ _).mpr trivial)
    · trivial

theorem mediated_runTool (step : Step) :
    Act.Keeps (mediationSpec cfg redact) (fun _ _ => True) (WorkflowEngine.runTool cfg step) := by
  intro m before _
  unfold WorkflowEngine.runTool
  split
  · trivial
  · rename_i name hname
    refine (Act.wp_ofExcept_bind _ _).mpr ?_
    split
    · rename_i tool htool
      refine (wp_getRun_bind _).mpr ((Act.wp_ofExcept_bind _ _).mpr ?_)
      split
      · rename_i args _
        have hcached : Act.wp (mediationSpec cfg redact)
            (WorkflowEngine.cachedEffect tool (ledgerKey m.run.id step.id name))
            (fun _ m' _ => m' = m) (fun _ _ _ => True) m before := by
          unfold WorkflowEngine.cachedEffect
          split
          · refine (wp_getRun_bind _).mpr ((Act.wp_perform_history _ _).mpr ⟨?_, fun answer _ => ?_⟩)
            · exact mediatedCall_of_ne fun _ _ _ h => nomatch h
            · rw [Act.wp_ofExcept]
              split <;> trivial
          · exact rfl
        refine (Act.wp_bind _ _).mpr (Act.wp_mono _ ?_ (fun _ _ _ _ => trivial) hcached)
        rintro cached _ after rfl
        split
        · refine (Act.wp_bind _ _).mpr (Act.wp_mono _ ?_ (fun _ _ _ _ => trivial)
            (passed_gate step tool name args _ after))
          rintro - m' after' ⟨hid, hpassed⟩
          rw [← hid]
          exact mediated_act hname htool hpassed
        · exact (wp_emit_bind _ _ _ _ _ _).mpr trivial
      · trivial
    · trivial

/-! ### Whole requests -/

theorem mediated_engineInv (wf : Workflow) :
    EngineInv cfg wf (mediationSpec cfg redact) fun _ _ => True where
  memory := fun _ _ _ _ _ => trivial
  output := fun _ _ _ _ _ _ _ => trivial
  respond := fun _ _ _ => keeps_perform_of_ne fun _ _ _ h => nomatch h
  execCall := fun _ hagent call => mediated_execCall hagent call
  await := fun step approvers tool args m before _ =>
    Act.wp_mono _ (fun _ _ _ _ => trivial) (fun _ _ _ _ => trivial)
      (awaited_awaitApproval step approvers tool args m before)
  tool := fun step _ _ => mediated_runTool step
  count := fun _ _ _ => trivial
  span := fun _ => keeps_perform_of_ne fun _ _ _ h => nomatch h
  failed := savedIn_of_keeps mediated_checkpoint _
  checkpoint := mediated_checkpoint

end Engine

section System

variable {d : Deployment} {redact : Json → Json}

theorem mediated_program (request : Request) (before : Trail) :
    (request.program d).wp (mediationSpec d.engine redact) (fun _ _ => True) before := by
  have hservice : ∀ op : Op, op.Service →
      Act.Keeps (mediationSpec d.engine redact) (fun _ _ => True) (perform op) := by
    intro op hop
    refine keeps_perform_of_ne fun _ _ _ heq => ?_
    rw [heq] at hop
    exact hop
  have hasync : ∀ wf, EngineInv d.engine.asynchronous wf
      (mediationSpec d.engine.asynchronous redact) fun _ _ => True := mediated_engineInv
  exact respects_program hservice (fun wf => (mediated_engineInv wf).resume)
    (fun wf => (hasync wf).resume) request trivial

/-- In every interleaving, every execution of a tool is licensed by the last question its own driver
put to the policy gate. -/
theorem execution_mediated {db₀ : DB} {labels : List (Pool.Label Request Call Call.Res)} {c : System}
    (hrun : System.Run d redact ⟨[], db₀⟩ labels c) {i : Nat} {before after : Trail} {m : Mem}
    {caller : Caller} {name : String} {sent : Args} {answer : Except Exc Json}
    (htrace : Pool.trace i labels =
      before ++ ⟨⟨m, .execute caller name sent⟩, answer⟩ :: after) :
    Mediated d.engine before m caller name sent :=
  hrun.owed htrace (fun request => mediated_program request []) caller name sent rfl

/-- A driver that pays: it loads the run, enters the step, looks the payment up, asks the gate, and
executes the tool. -/
def paymentTrail : Trail :=
  Pool.trace 0 (System.play payDeployment id (.constant (.str "paid"))
    (.spawn (.runnerResume "acme" "run") :: List.replicate 5 (.call 0))
    ⟨[], DB.withRun "run" "payments"⟩).1

theorem execution_mediated_payment :
    ∃ (m : Mem) (sent : Args),
      paymentTrail[4]? = some ⟨⟨m, .execute (.step "pay") "pay" sent⟩, .ok (.str "paid")⟩ ∧
      Mediated payDeployment.engine (paymentTrail.take 4) m (.step "pay") "pay" sent := by
  have hcall : ∃ m sent,
      paymentTrail[4]? = some ⟨⟨m, .execute (.step "pay") "pay" sent⟩, .ok (.str "paid")⟩ :=
    ⟨_, _, rfl⟩
  obtain ⟨m, sent, hcall⟩ := hcall
  refine ⟨m, sent, hcall, ?_⟩
  obtain ⟨hlt, hget⟩ := List.getElem?_eq_some_iff.mp hcall
  have hsplit : paymentTrail = paymentTrail.take 4 ++ paymentTrail[4] :: paymentTrail.drop 5 := by
    rw [List.getElem_cons_drop, List.take_append_drop]
  rw [hget] at hsplit
  exact execution_mediated (System.play_run _ _ _ _ _) hsplit

end System

end Bass
