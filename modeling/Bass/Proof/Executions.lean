import Mathlib.Data.List.Infix
import Bass.Interaction.Trace
import Bass.Proof.Accounting
import Bass.Proof.RequestInvariant
import Bass.Proof.StoreLemmas

/-!
# Executions of mutating tools

A tool step sends a mutating tool the key of its ledger row, which the run, the step and the tool
determine, and once the tool has returned its next call is to record the result. The agent loop executes
what the model asks for, with the model's arguments and no record.
-/

namespace Bass

open Interaction EngineM

theorem ledgerKey_ne_empty (runId stepId tool : String) : ledgerKey runId stepId tool ≠ "" := by
  intro hempty
  have hkey : ledgerKey runId stepId tool = runId ++ ":" ++ stepId ++ ":" ++ tool := rfl
  rw [hkey, String.append_eq_empty_iff, String.append_eq_empty_iff, String.append_eq_empty_iff,
    String.append_eq_empty_iff] at hempty
  exact absurd hempty.1.1.1.2 (by decide)

/-- What has to be recorded next: the result of a mutating tool that a step has executed. -/
def ToolRegistry.owes (tools : ToolRegistry) : Prog.Event Call Call.Res → Option Op
  | ⟨⟨m, .execute (.step stepId) name _⟩, .ok result⟩ =>
      if tools.mutates name then
        some (.recordEffect m.run.tenantId (ledgerKey m.run.id stepId name) m.run.id stepId name result)
      else none
  | _ => none

/-- Nothing is left to record. -/
def NothingOwed (tools : ToolRegistry) (before : Trail) : Prop :=
  ∀ event ∈ before.getLast?, tools.owes event = none

/-- A step sends its own key to a mutating tool, and what has to be recorded is recorded first. -/
def KeyedCall (tools : ToolRegistry) (before : Trail) (call : Call) : Prop :=
  (∀ stepId name sent, call.op = .execute (.step stepId) name sent → tools.mutates name = true →
    sent.get? "_idempotency_key" = some (.str (ledgerKey call.mem.run.id stepId name))) ∧
  ∀ event ∈ before.getLast?, ∀ op, tools.owes event = some op → call.op = op

theorem nothingOwed_nil (tools : ToolRegistry) : NothingOwed tools [] := fun _ h => nomatch h

theorem nothingOwed_concat {tools : ToolRegistry} {before : Trail} {event : Prog.Event Call Call.Res} :
    NothingOwed tools (before ++ [event]) ↔ tools.owes event = none := by
  simp [NothingOwed]

section Engine

variable {ok : (call : Call) → call.Res → Prop} {tools : ToolRegistry}

/-- The calls of a driver other than the execution of a tool by a step. -/
def Op.Unowed (op : Op) : Prop := ∀ stepId name sent, op ≠ .execute (.step stepId) name sent

theorem owes_of_unowed {call : Call} (h : call.op.Unowed) (answer : call.Res) :
    tools.owes ⟨call, answer⟩ = none := by
  obtain ⟨m, op⟩ := call
  cases op with
  | execute caller name sent =>
      cases caller with
      | agent => rfl
      | step stepId => exact absurd rfl (h stepId name sent)
  | _ => rfl

theorem keyedCall_of_unowed {before : Trail} {call : Call} (h : call.op.Unowed)
    (hnone : NothingOwed tools before) : KeyedCall tools before call := by
  refine ⟨fun stepId name sent heq => absurd heq (h stepId name sent), fun event hmem op howes => ?_⟩
  rw [hnone event hmem] at howes
  cases howes

/-- Nothing is left to record by a driver of the run with this id. -/
def NothingOwedBy (tools : ToolRegistry) (runId : String) (m : Mem) (before : Trail) : Prop :=
  m.run.id = runId ∧ NothingOwed tools before

theorem nothingOwed_perform {op : Op} (h : op.Unowed) (runId : String) :
    Act.Keeps (.history ok (KeyedCall tools)) (NothingOwedBy tools runId) (perform op) := by
  refine Act.keeps_perform fun m before hnone s₁ hsame => ?_
  obtain rfl : before = s₁ := hsame
  refine ⟨keyedCall_of_unowed h hnone.2, fun answer after hafter => ⟨hnone.1, ?_⟩⟩
  rw [hafter.2, nothingOwed_concat]
  exact owes_of_unowed h answer

theorem nothingOwed_checkpoint (runId : String) :
    Act.Keeps (.history ok (KeyedCall tools)) (NothingOwedBy tools runId) EngineM.checkpoint := by
  refine keeps_checkpoint_call fun m before hnone s₁ hsame => ?_
  obtain rfl : before = s₁ := hsame
  have hop : (Op.checkpoint m.run m.buffer).Unowed := fun _ _ _ heq => nomatch heq
  refine ⟨keyedCall_of_unowed hop hnone.2, fun answer after hafter => ?_⟩
  have hdone : NothingOwed tools after := by
    rw [hafter.2, nothingOwed_concat]
    exact owes_of_unowed hop answer
  exact ⟨⟨hnone.1, hdone⟩, ⟨hnone.1, hdone⟩⟩

theorem nothingOwedBy_memory {runId : String} (m m' : Mem) (before : Trail) (h : SameIdent m m')
    (hnone : NothingOwedBy tools runId m before) : NothingOwedBy tools runId m' before :=
  ⟨h.id.trans hnone.1, hnone.2⟩

variable {cfg : EngineConfig}

theorem nothingOwed_awaitApproval (runId : String) (step : Step) (approvers : List String) (tool : String)
    (args : Args) : Act.Keeps (.history ok (KeyedCall cfg.tools)) (NothingOwedBy cfg.tools runId)
      (WorkflowEngine.awaitApproval cfg step approvers tool args) := by
  refine keeps_awaitApproval (fun m m' s h => nothingOwedBy_memory m m' s h.toSameIdent) (fun op hop => ?_)
    (savedIn_of_keeps (nothingOwed_checkpoint runId) _) step approvers tool args
  refine nothingOwed_perform (fun _ _ _ heq => ?_) runId
  rw [heq] at hop
  exact hop

/-- The step sends the key, and records what comes back before it does anything else. -/
theorem nothingOwed_act {step : Step} {tool : Tool} {name : String} {args : Args} {m : Mem} {before : Trail}
    (htool : cfg.tools.get name = .ok tool) (hnone : NothingOwed cfg.tools before) :
    Act.wp (.history ok (KeyedCall cfg.tools))
      (WorkflowEngine.act step tool name args (ledgerKey m.run.id step.id name))
      (fun _ _ => NothingOwed cfg.tools) (fun _ _ => NothingOwed cfg.tools) m before := by
  refine (Act.wp_perform_history _ _).mpr ⟨⟨?_, ?_⟩, fun answer _ => ?_⟩
  · rintro stepId name' sent heq hmutates
    cases heq
    rw [ToolRegistry.mutates_of_get htool] at hmutates
    rw [if_pos hmutates]
    exact Dict.get?_set_self _ _ _
  · intro event hmem op howes
    rw [hnone event hmem] at howes
    cases howes
  refine (Act.wp_ofExcept_bind _ _).mpr ?_
  cases answer with
  | error e => exact nothingOwed_concat.mpr rfl
  | ok result =>
      refine (wp_getRun_bind _).mpr ?_
      by_cases hmutates : tool.sideEffect = true
      · rw [if_pos hmutates]
        refine (Act.wp_perform_history _ _).mpr ⟨⟨(fun _ _ _ heq _ => nomatch heq), ?_⟩, fun _ _ => ?_⟩
        · intro event hmem op howes
          obtain rfl : _ = event := Option.some.inj (List.getLast?_concat.symm.trans hmem)
          rw [ToolRegistry.owes, ToolRegistry.mutates_of_get htool, if_pos hmutates] at howes
          exact Option.some.inj howes
        · refine (wp_modifyRun_bind _ _).mpr ((wp_emit_bind _ _ _ _ _ _).mpr ?_)
          exact nothingOwed_concat.mpr rfl
      · rw [if_neg hmutates]
        refine (wp_modifyRun_bind _ _).mpr ((wp_emit_bind _ _ _ _ _ _).mpr ?_)
        refine nothingOwed_concat.mpr ?_
        rw [ToolRegistry.owes, ToolRegistry.mutates_of_get htool, if_neg hmutates]

theorem nothingOwed_gate (runId : String) (step : Step) (tool : Tool) (name : String) (args : Args) :
    Act.Keeps (.history ok (KeyedCall cfg.tools)) (NothingOwedBy cfg.tools runId)
      (WorkflowEngine.gate cfg step tool name args) := by
  refine leaves_gate (fun _ _ _ h => h) (fun m m' s h _ => nothingOwedBy_memory m m' s h.toSameIdent)
    (fun op _ hplain => ?_) (nothingOwed_awaitApproval runId) step tool name args
  refine nothingOwed_perform (fun _ _ _ heq => ?_) runId
  rw [heq] at hplain
  exact hplain

theorem nothingOwed_cachedEffect (runId : String) (tool : Tool) (key : String) :
    Act.Keeps (.history ok (KeyedCall tools)) (NothingOwedBy tools runId)
      (WorkflowEngine.cachedEffect tool key) := by
  unfold WorkflowEngine.cachedEffect
  split
  · refine Act.keeps_bind keeps_getRun fun run => ?_
    refine Act.keeps_bind (nothingOwed_perform (by rintro _ _ _ ⟨⟩) runId) fun answer => ?_
    exact Act.keeps_ofExcept _
  · exact Act.keeps_pure _

theorem nothingOwed_runTool (step : Step) :
    Act.Keeps (.history ok (KeyedCall cfg.tools)) (fun _ => NothingOwed cfg.tools)
      (WorkflowEngine.runTool cfg step) := by
  intro m before hnone
  unfold WorkflowEngine.runTool
  split
  · exact hnone
  · rename_i name _
    refine (Act.wp_ofExcept_bind _ _).mpr ?_
    cases htool : cfg.tools.get name with
    | error e => exact hnone
    | ok tool =>
        refine (wp_getRun_bind _).mpr ((Act.wp_ofExcept_bind _ _).mpr ?_)
        cases resolve step.args m.run.context with
        | error e => exact hnone
        | ok args =>
            refine (Act.wp_bind _ _).mpr (Act.wp_mono _ ?_ (fun _ _ _ h => h.2)
              (nothingOwed_cachedEffect m.run.id tool _ m before ⟨rfl, hnone⟩))
            intro cached m₁ before₁ hcached
            split
            · refine (Act.wp_bind _ _).mpr (Act.wp_mono _ ?_ (fun _ _ _ h => h.2)
                (nothingOwed_gate m.run.id step tool name args m₁ before₁ hcached))
              rintro - m₂ before₂ ⟨hid, hpassed⟩
              rw [← hid]
              exact nothingOwed_act htool hpassed
            · exact (wp_emit_bind _ _ _ _ _ _).mpr hcached.2

theorem keeps_nothingOwed {α : Type} {x : EngineM α}
    (h : ∀ runId, Act.Keeps (.history ok (KeyedCall tools)) (NothingOwedBy tools runId) x) :
    Act.Keeps (.history ok (KeyedCall tools)) (fun _ => NothingOwed tools) x :=
  fun m before hnone => Act.wp_mono x (fun _ _ _ h' => h'.2) (fun _ _ _ h' => h'.2)
    (h m.run.id m before ⟨rfl, hnone⟩)

theorem keyed_engineInv (wf : Workflow) :
    EngineInv cfg wf (.history ok (KeyedCall cfg.tools)) fun _ => NothingOwed cfg.tools where
  memory := fun _ _ _ _ h => h
  output := fun _ _ _ _ _ _ h => h
  respond := fun _ _ _ => keeps_nothingOwed (nothingOwed_perform fun _ _ _ heq => nomatch heq)
  execCall := fun agent _ call => by
    refine keeps_nothingOwed fun runId => keeps_execCall
      (fun m m' s h _ => nothingOwedBy_memory m m' s h.toSameIdent) (fun op _ hplain => ?_) agent call
    refine nothingOwed_perform (fun _ _ _ heq => ?_) runId
    rw [heq] at hplain
    exact hplain
  await := fun step approvers tool args =>
    keeps_nothingOwed fun runId => nothingOwed_awaitApproval runId step approvers tool args
  tool := fun step _ _ => nothingOwed_runTool step
  count := fun _ _ h => h
  span := fun _ => keeps_nothingOwed (nothingOwed_perform fun _ _ _ heq => nomatch heq)
  failed := savedIn_of_keeps (keeps_nothingOwed nothingOwed_checkpoint) _
  checkpoint := keeps_nothingOwed nothingOwed_checkpoint

theorem keyed_program (d : Deployment) (request : Request) {before : Trail}
    (hnone : NothingOwed d.engine.tools before) :
    (request.program d).wp (.history ok (KeyedCall d.engine.tools)) (fun _ => NothingOwed d.engine.tools)
      before := by
  have hservice : ∀ op : Op, op.Service → Act.Keeps (.history ok (KeyedCall d.engine.tools))
      (fun _ => NothingOwed d.engine.tools) (perform op) := by
    intro op hop
    refine keeps_nothingOwed (nothingOwed_perform fun _ _ _ heq => ?_)
    rw [heq] at hop
    exact hop
  have hasync : ∀ wf, EngineInv d.engine.asynchronous wf (.history ok (KeyedCall d.engine.tools))
      fun _ => NothingOwed d.engine.tools := keyed_engineInv
  exact respects_program hservice (fun wf => (keyed_engineInv wf).resume) (fun wf => (hasync wf).resume)
    request hnone

end Engine

/-! ### Whole runs -/

section Run

variable {d : Deployment} {redact : Json → Json} {c c' : System}
  {labels : List (Pool.Label Request Call Call.Res)}

/-- The ledger has a row under the key. -/
def DB.HasEffect (db : DB) (key : String) : Prop := ∃ row, db.toolEffects.find? key = some row

/-- What was recorded on the way is in the ledger in the end. -/
theorem recorded_of_run (hrun : System.Run d redact c labels c') {i : Nat} {m : Mem}
    {tenantId key runId stepId tool : String} {result : Json}
    (hmem : .call i ⟨m, .recordEffect tenantId key runId stepId tool result⟩ () ∈ labels) :
    c'.shared.HasEffect key := by
  obtain ⟨before, after, rfl⟩ := List.append_of_mem hmem
  obtain ⟨c₁, -, hrest⟩ := hrun.split
  cases hrest with
  | @cons _ c₂ _ _ _ head tail =>
      have hrow : c₂.shared.HasEffect key := by
        cases head with
        | call hthread hstep =>
            obtain ⟨now, rfl⟩ := hstep
            exact ⟨_, Table.find?_insert_self _ _⟩
      exact tail.shared (P := fun db db' => db.HasEffect key → db'.HasEffect key) (fun _ h => h)
        (fun _ _ _ h h' hdb => h' (h hdb)) (fun _ _ _ _ hstep ⟨row, hrow⟩ => ⟨row, effect_of_step hstep hrow⟩)
        (fun _ _ henv => False.elim henv) hrow

/-- Every execution of a mutating tool carries a key, the same one whenever the same caller executes the
tool for the same run, and has a row in the ledger once it has returned. -/
structure ExecutionsKeyed (tools : ToolRegistry) (labels : List (Pool.Label Request Call Call.Res))
    (db : DB) : Prop where
  keyed : ∀ i m caller name sent answer, .call i ⟨m, .execute caller name sent⟩ answer ∈ labels →
    tools.mutates name = true → ∃ key, key ≠ "" ∧ sent.get? "_idempotency_key" = some (.str key)
  repeated : ∀ i m sent answer j m' sent' answer' caller name,
    .call i ⟨m, .execute caller name sent⟩ answer ∈ labels →
    .call j ⟨m', .execute caller name sent'⟩ answer' ∈ labels →
    tools.mutates name = true → m.run.id = m'.run.id →
    sent.get? "_idempotency_key" = sent'.get? "_idempotency_key"
  recorded : ∀ i m caller name sent result, .call i ⟨m, .execute caller name sent⟩ (.ok result) ∈ labels →
    tools.mutates name = true →
    ∃ key, sent.get? "_idempotency_key" = some (.str key) ∧ db.HasEffect key

/-- No agent executes a mutating tool. -/
def AgentsOnlyRead (tools : ToolRegistry) (labels : List (Pool.Label Request Call Call.Res)) : Prop :=
  ∀ i m agent name sent answer, .call i ⟨m, .execute (.agent agent) name sent⟩ answer ∈ labels →
    tools.mutates name = false

/-- No driver is stopped between the return of a mutating tool and its next call. -/
def ReturnsGoOn (tools : ToolRegistry) (labels : List (Pool.Label Request Call Call.Res)) : Prop :=
  ∀ before after i m caller name sent result,
    labels = before ++ .call i ⟨m, .execute caller name sent⟩ (.ok result) :: after →
    tools.mutates name = true → Pool.trace i after ≠ []

/-- As long as agents only read and no driver is stopped on the return of a mutating tool, every
execution is keyed and recorded. -/
theorem executions_keyed {db₀ : DB} (hrun : System.Run d redact ⟨[], db₀⟩ labels c)
    (hagents : AgentsOnlyRead d.engine.tools labels) (hgoOn : ReturnsGoOn d.engine.tools labels) :
    ExecutionsKeyed d.engine.tools labels c.shared := by
  have hprogram : ∀ request : Request, (request.program d).wp
      (.history (Pool.Answers (Call.step d.engine.policy redact)) (KeyedCall d.engine.tools))
      (fun _ => NothingOwed d.engine.tools) [] :=
    fun request => keyed_program d request (nothingOwed_nil _)
  have hkey : ∀ i m caller name sent answer, .call i ⟨m, .execute caller name sent⟩ answer ∈ labels →
      d.engine.tools.mutates name = true → ∃ stepId, caller = .step stepId ∧
        sent.get? "_idempotency_key" = some (.str (ledgerKey m.run.id stepId name)) := by
    intro i m caller name sent answer hmem hmutates
    cases caller with
    | agent agent => exact absurd (hagents i m agent name sent answer hmem) (by simp [hmutates])
    | step stepId =>
        obtain ⟨before, after, rfl⟩ := List.append_of_mem hmem
        have howed := hrun.owed (Pool.trace_call _ _ _ _ _) hprogram
        exact ⟨stepId, rfl, howed.1 stepId name sent rfl hmutates⟩
  refine ⟨?_, ?_, ?_⟩
  · intro i m caller name sent answer hmem hmutates
    obtain ⟨stepId, -, hsent⟩ := hkey i m caller name sent answer hmem hmutates
    exact ⟨_, ledgerKey_ne_empty _ _ _, hsent⟩
  · intro i m sent answer j m' sent' answer' caller name hmem hmem' hmutates hid
    obtain ⟨stepId, rfl, hsent⟩ := hkey i m caller name sent answer hmem hmutates
    obtain ⟨stepId', heq, hsent'⟩ := hkey j m' _ name sent' answer' hmem' hmutates
    cases heq
    rw [hsent, hsent', hid]
  · intro i m caller name sent result hmem hmutates
    obtain ⟨stepId, rfl, hsent⟩ := hkey i m caller name sent _ hmem hmutates
    obtain ⟨before, after, rfl⟩ := List.append_of_mem hmem
    cases hnext : Pool.trace i after with
    | nil => exact absurd hnext (hgoOn before after i m (.step stepId) name sent result rfl hmutates)
    | cons event rest =>
        have htrace := Pool.trace_call i before after ⟨m, .execute (.step stepId) name sent⟩ (.ok result)
        rw [hnext, List.append_cons (Pool.trace i before)] at htrace
        have howed := hrun.owed htrace hprogram
        have hrecord := howed.2 _ List.getLast?_concat _ (if_pos hmutates)
        have hevent : event ∈ Pool.trace i after := hnext ▸ List.mem_cons_self
        obtain ⟨⟨m', op⟩, answer⟩ := event
        obtain rfl : op = _ := hrecord
        have hlabel := List.mem_append_right before (List.mem_cons_of_mem
          (.call i ⟨m, .execute (.step stepId) name sent⟩ (.ok result)) (Pool.mem_trace.mp hevent))
        exact ⟨_, hsent, recorded_of_run hrun hlabel⟩

end Run

/-! ### A payment by a step and one by an agent -/

def paidByStep : List (Pool.Label Request Call Call.Res) × System :=
  System.play payDeployment id (.constant (.str "paid"))
    (.spawn (.runnerResume "acme" "run") :: List.replicate 9 (.call 0))
    ⟨[], DB.withRun "run" "payments"⟩

/-- Who executed which tool, under which key. -/
def executionOf : Pool.Label Request Call Call.Res → Option (Caller × String × Option String)
  | .call _ ⟨_, .execute caller name sent⟩ _ =>
      some (caller, name, (sent.get? "_idempotency_key").bind fun
        | .str key => some key
        | _ => none)
  | _ => none

/-- The driver of an execution goes on after it. -/
def goesOn : List (Pool.Label Request Call Call.Res) → Bool
  | .call i ⟨_, .execute ..⟩ _ :: after => !(Pool.trace i after).isEmpty
  | _ => true

theorem executions_keyed_payment :
    paidByStep.1.filterMap executionOf = [(.step "pay", "pay", some "run:pay:pay")] ∧
      ExecutionsKeyed payDeployment.engine.tools paidByStep.1 paidByStep.2.shared := by
  have hexecutions : paidByStep.1.filterMap executionOf =
      [(.step "pay", "pay", some "run:pay:pay")] := by decide +kernel
  have hgoesOn : ∀ labels ∈ paidByStep.1.tails, goesOn labels = true :=
    List.forall_iff_forall_mem.mp (by decide +kernel)
  refine ⟨hexecutions, executions_keyed (System.play_run _ _ _ _ _) ?_ ?_⟩
  · intro i m agent name sent answer hmem
    have hexecution : (.agent agent, name, _) ∈ paidByStep.1.filterMap executionOf :=
      List.mem_filterMap.mpr ⟨_, hmem, rfl⟩
    rw [hexecutions] at hexecution
    cases List.mem_singleton.mp hexecution
  · intro before after i m caller name sent result heq _ hnil
    have hnext := hgoesOn _ ((List.mem_tails _ _).mpr ⟨before, heq.symm⟩)
    rw [goesOn, hnil] at hnext
    cases hnext

/-- A workflow whose only step is an agent, and the agent, whose model pays and then stops. -/
def payerDeployment : Deployment :=
  { payDeployment with
    engine :=
      { payDeployment.engine with
        agents := Dict.ofList [("payer",
          { name := "payer"
            role := ""
            instructions := ""
            tools := ["pay"] })] }
    workflowsById := Dict.ofList [("payments",
      { payWorkflow with
        steps := Dict.ofList [("pay",
          { id := "pay"
            nodeType := .agent
            agent := some "payer" })] })] }

def paysThenStops : World :=
  { World.constant (.str "paid") with
    respond := fun _ _ scratch =>
      if (scratch.get? "tool_results").isNone then
        .ok ({ type := some "tool_calls", calls := some [{ tool := some "pay" }] }, scratch)
      else .ok ({ type := some "final", output := some (.str "done") }, scratch) }

def paidByAgent : List (Pool.Label Request Call Call.Res) × System :=
  System.play payerDeployment id paysThenStops
    (.spawn (.runnerResume "acme" "run") :: List.replicate 9 (.call 0))
    ⟨[], DB.withRun "run" "payments"⟩

/-- The agent pays without a key, and nothing is recorded of it. -/
theorem execution_unkeyed :
    System.Run payerDeployment id ⟨[], DB.withRun "run" "payments"⟩ paidByAgent.1 paidByAgent.2 ∧
      payerDeployment.engine.tools.mutates "pay" = true ∧
      paidByAgent.1.filterMap executionOf = [(.agent "payer", "pay", none)] ∧
      paidByAgent.2.shared.toolEffects.rows.map EffectRow.tool = [] ∧
      (paidByAgent.2.shared.runs.find? "run").map RunRow.status = some .succeeded :=
  ⟨System.play_run _ _ _ _ _, by decide +kernel, by decide +kernel, by decide +kernel, by decide +kernel⟩

end Bass
