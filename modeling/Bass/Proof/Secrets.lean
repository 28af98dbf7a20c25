import Bass.Interaction.Lockstep
import Bass.Redaction
import Bass.Sessions
import Bass.Proof.StepInvariant

/-!
# Executions that differ in secrets

Two values are alike when they differ only in what is stored under secret keys. An engine that keeps the
same data of its run, while its agents and their tools see values that are alike, makes corresponding calls
with the same data of the run, and emits alike events.
-/

namespace Bass

open Interaction

/-! ### Values that differ in secrets -/

namespace Redaction

mutual

/-- The value without what it holds under secret keys. -/
def mask : Json → Json
  | .obj fields => .obj (maskFields fields)
  | .arr items => .arr (maskItems items)
  | value => value

def maskItems : List Json → List Json
  | [] => []
  | value :: rest => mask value :: maskItems rest

def maskFields : List (String × Json) → List (String × Json)
  | [] => []
  | (key, value) :: rest =>
      (key, if isSecretKey key then .null else mask value) :: maskFields rest

end

variable (classes : CharClasses)

mutual

/-- Redaction does not look under secret keys. -/
theorem redact_mask (v : Json) : redact classes (mask v) = redact classes v := by
  cases v with
  | obj fields => rw [mask, redact, redact, redactFields_maskFields fields]
  | arr items => rw [mask, redact, redact, redactItems_maskItems items]
  | _ => rfl

theorem redactItems_maskItems (items : List Json) :
    redactItems classes (maskItems items) = redactItems classes items := by
  cases items with
  | nil => rfl
  | cons value rest =>
      rw [maskItems, redactItems, redactItems, redact_mask value, redactItems_maskItems rest]

theorem redactFields_maskFields (fields : List (String × Json)) :
    redactFields classes (maskFields fields) = redactFields classes fields := by
  cases fields with
  | nil => rfl
  | cons field rest =>
      obtain ⟨key, value⟩ := field
      rw [maskFields, redactFields, redactFields, redactFields_maskFields rest]
      by_cases hkey : isSecretKey key = true
      · simp [hkey]
      · simp [hkey, redact_mask value]

end

/-- The values differ only in what is stored under secret keys. -/
def Alike (v v' : Json) : Prop := mask v = mask v'

/-- The values may differ if the key is a secret one. -/
def AlikeUnder (key : String) (v v' : Json) : Prop := isSecretKey key = false → Alike v v'

variable {classes} {v v' : Json}

theorem redact_eq_of_alike (h : Alike v v') : redact classes v = redact classes v' := by
  rw [← redact_mask classes v, h, redact_mask]

@[refl] theorem Alike.refl (v : Json) : Alike v v := Eq.refl (mask v)

theorem Alike.under (h : Alike v v') (key : String) : AlikeUnder key v v' := fun _ => h

theorem alike_obj {fields fields' : List (String × Json)}
    (h : List.Forall₂ (fun field field' => field.1 = field'.1 ∧ AlikeUnder field.1 field.2 field'.2)
      fields fields') : Alike (.obj fields) (.obj fields') := by
  have hfields : maskFields fields = maskFields fields' := by
    induction h with
    | nil => rfl
    | @cons field field' rest rest' hfield _ ih =>
        obtain ⟨key, value⟩ := field
        obtain ⟨key', value'⟩ := field'
        obtain ⟨rfl, hvalue⟩ := hfield
        rw [maskFields, maskFields, ih]
        by_cases hkey : isSecretKey key = true
        · simp [hkey]
        · rw [if_neg hkey, if_neg hkey, hvalue (by simpa using hkey)]
  rw [Alike, mask, mask, hfields]

/-- Records that agree up to their last field. -/
theorem alike_record (fields : List (String × Json)) (key : String) (h : Alike v v') :
    Alike (.obj (fields ++ [(key, v)])) (.obj (fields ++ [(key, v')])) := by
  have hfields : List.Forall₂
      (fun field field' => field.1 = field'.1 ∧ AlikeUnder field.1 field.2 field'.2) fields fields :=
    List.forall₂_same.mpr fun _ _ => ⟨rfl, fun _ => .refl _⟩
  exact alike_obj (List.rel_append hfields (List.Forall₂.cons ⟨rfl, h.under key⟩ List.Forall₂.nil))

end Redaction

open Redaction

/-- Dictionaries that differ only in what is stored under secret keys. -/
abbrev AlikeDict : Dict String Json → Dict String Json → Prop := Dict.Rel AlikeUnder

theorem AlikeDict.refl (d : Dict String Json) : AlikeDict d d :=
  List.forall₂_same.mpr fun _ _ => ⟨rfl, fun _ => rfl⟩

/-- Runs that differ in secrets. The key of the trigger may be a digest of them. -/
structure Run.Like (run run' : Run) : Prop where
  id : run'.id = run.id
  tenantId : run'.tenantId = run.tenantId
  workflowId : run'.workflowId = run.workflowId
  status : run'.status = run.status
  cursorStep : run'.cursorStep = run.cursorStep
  costUsd : run'.costUsd = run.costUsd
  stepsUsed : run'.stepsUsed = run.stepsUsed
  triggerEvent : Alike run.triggerEvent run'.triggerEvent
  context : AlikeDict run.context run'.context
  result : Alike run.result run'.result

/-- Events that differ in their payload, and there in secrets only. -/
structure Event.Like (ev ev' : Event) : Prop where
  same : ev' = { ev with payload := ev'.payload }
  payload : Alike ev.payload ev'.payload

/-- Runs with the same data, secrets included, and the same progress. -/
structure Run.Same (run run' : Run) : Prop where
  id : run'.id = run.id
  tenantId : run'.tenantId = run.tenantId
  workflowId : run'.workflowId = run.workflowId
  status : run'.status = run.status
  cursorStep : run'.cursorStep = run.cursorStep
  costUsd : run'.costUsd = run.costUsd
  stepsUsed : run'.stepsUsed = run.stepsUsed
  triggerEvent : run'.triggerEvent = run.triggerEvent
  context : run'.context = run.context
  result : run'.result = run.result

theorem Run.Same.refl (run : Run) : run.Same run := ⟨rfl, rfl, rfl, rfl, rfl, rfl, rfl, rfl, rfl, rfl⟩

/-- The same run, and events that differ in secrets. -/
structure Mem.Like (m m' : Mem) : Prop where
  run : m.run.Same m'.run
  buffer : List.Forall₂ Event.Like m.buffer m'.buffer

structure ToolCall.Like (call call' : ToolCall) : Prop where
  tool : call'.tool = call.tool
  id : call'.id = call.id
  args : AlikeDict call.args call'.args

/-- Responses that differ in secrets. What a model keeps for itself is its own affair. -/
structure Response.Like (resp resp' : Response) : Prop where
  type : resp'.type = resp.type
  costUsd : resp'.costUsd = resp.costUsd
  calls : Option.Rel (List.Forall₂ ToolCall.Like) resp.calls resp'.calls
  output : Option.Rel Alike resp.output resp'.output

/-- The same call, with the same data of the run. What an agent is told, and asks of a tool, may differ in
secrets. -/
inductive Op.Like : Op → Op → Prop where
  | same (op : Op) : Op.Like op op
  | insertRun {run run' : Run} (hrun : run.Same run') : Op.Like (.insertRun run) (.insertRun run')
  | loadRunByKey (tenantId key key' : String) :
      Op.Like (.loadRunByKey tenantId key) (.loadRunByKey tenantId key')
  | checkpoint {run run' : Run} {events events' : List Event} (hrun : run.Same run')
      (hevents : List.Forall₂ Event.Like events events') :
      Op.Like (.checkpoint run events) (.checkpoint run' events')
  | policyCheck (agent : Agent) (tool : Tool) {args args' : Args} (hargs : AlikeDict args args')
      (context : Context) :
      Op.Like (.policyCheck agent tool args context) (.policyCheck agent tool args' context)
  | respond (agent : Agent) (task : Args) (scratch scratch' : Scratch) :
      Op.Like (.respond agent task scratch) (.respond agent task scratch')
  | execute (agent tool : String) {args args' : Args} (hargs : AlikeDict args args') :
      Op.Like (.execute (.agent agent) tool args) (.execute (.agent agent) tool args')
  | approvalFn {run run' : Run} (hrun : run.Same run') (step : Step) (tool : String) (args : Args) :
      Op.Like (.approvalFn run step tool args) (.approvalFn run' step tool args)

/-- The same answer up to secrets: tools, models and the store return data that differ in secrets only,
and whatever else is answered, a decision above all, does not depend on them. -/
def Op.Agree : (op op' : Op) → op.Res → op'.Res → Prop
  | .loadRun .., .loadRun .., answer, answer' => SameOutcome (Option.Rel Run.Like) answer answer'
  | .loadRunByKey .., .loadRunByKey .., answer, answer' =>
      SameOutcome (Option.Rel Run.Like) answer answer'
  | .getEffect .., .getEffect .., answer, answer' => SameOutcome Alike answer answer'
  | .respond .., .respond .., answer, answer' =>
      SameOutcome (fun out out' => out.1.Like out'.1) answer answer'
  | .execute .., .execute .., answer, answer' => SameOutcome Alike answer answer'
  | _, _, answer, answer' => HEq answer answer'

/-- What a call brings into the run is the same: the result of a tool step and the final output of an
agent. -/
def Op.Brings : (op op' : Op) → op.Res → op'.Res → Prop
  | .execute (.step _) _ _, .execute (.step _) _ _, answer, answer' => answer = answer'
  | .respond .., .respond .., .ok (resp, _), .ok (resp', _) =>
      resp.type ≠ some "tool_calls" → resp'.output = resp.output
  | _, _, _, _ => True

/-- The same answer as far as it comes into the run, and the same up to secrets elsewhere. -/
def Op.Match : (op op' : Op) → op.Res → op'.Res → Prop
  | .loadRun .., .loadRun .., answer, answer' => SameOutcome (Option.Rel Run.Same) answer answer'
  | .loadRunByKey .., .loadRunByKey .., answer, answer' =>
      SameOutcome (Option.Rel fun _ _ => True) answer answer'
  | .respond .., .respond .., answer, answer' => SameOutcome (fun out out' =>
      out.1.Like out'.1 ∧ (out.1.type ≠ some "tool_calls" → out'.1.output = out.1.output)) answer answer'
  | .execute (.agent _) _ _, .execute (.agent _) _ _, answer, answer' => SameOutcome Alike answer answer'
  | _, _, answer, answer' => HEq answer answer'

/-- Two executions that differ in secrets inside agents. -/
def secrets : Coupling Call Call.Res where
  calls := fun call call' => call.op.Like call'.op
  answers := fun call call' answer answer' => call.op.Match call'.op answer answer'

/-! ### Control flow that does not look at secrets -/

/-- The functions of a step do not look at secrets: branches are chosen without them, and arguments keep
them under secret keys. -/
structure Step.Discreet (step : Step) : Prop where
  args : ∀ context context', AlikeDict context context' →
    SameOutcome AlikeDict (resolve step.args context) (resolve step.args context')
  branches : ∀ context context', AlikeDict context context' →
    WorkflowEngine.chooseBranch context step.branches = WorkflowEngine.chooseBranch context' step.branches

def Workflow.Discreet (wf : Workflow) : Prop := ∀ step, wf.HasStep step → step.Discreet

/-! ### The engine -/

namespace EngineM

variable {α α' β : Type} {A : α → α' → Prop}

/-- The codes run in lockstep on memories that differ in the events to be written. -/
abbrev Twin (A : α → α' → Prop) : EngineM α → EngineM α' → Prop := Act.Twin secrets Mem.Like A

theorem twin_getRun : Twin Run.Same getRun getRun := fun _ _ hmem => ⟨hmem.run, hmem⟩

theorem twin_modifyRun {f f' : Run → Run} (hf : ∀ run run', run.Same run' → (f run).Same (f' run')) :
    Twin Eq (modifyRun f) (modifyRun f') :=
  Act.twin_modify fun m m' hmem => ⟨hf m.run m'.run hmem.run, hmem.buffer⟩

theorem twin_emit (type : String) {payload payload' : Json} (stepId : Option String) (costUsd : ℚ)
    (actor : String) (hpayload : Alike payload payload') :
    Twin Eq (emit type payload stepId costUsd actor) (emit type payload' stepId costUsd actor) := by
  refine Act.twin_modify fun m m' hmem => ⟨hmem.run, ?_⟩
  refine List.rel_append hmem.buffer (List.Forall₂.cons ⟨?_, hpayload⟩ List.Forall₂.nil)
  rw [hmem.run.id, hmem.run.tenantId]

theorem twin_perform {op op' : Op} {A : op.Res → op'.Res → Prop} (hlike : op.Like op')
    (hanswers : ∀ answer answer', op.Match op' answer answer' → A answer answer') :
    Twin A (perform op) (perform op') :=
  Act.twin_perform (fun _ _ _ => hlike) fun _ _ => hanswers

/-- A call that is answered the same. -/
theorem twin_ask {op : Op} (hanswers : ∀ answer answer', op.Match op answer answer' → answer = answer') :
    Twin Eq (perform op) (perform op) :=
  twin_perform (.same op) hanswers

theorem twin_ofExcept_self (x : Except Exc α) : Twin Eq (Act.ofExcept x) (Act.ofExcept x) := by
  cases x with
  | ok value => exact Act.twin_pure rfl
  | error e => exact Act.twin_throw e

theorem twin_setStatus (status : RunStatus) :
    Twin Eq (WorkflowEngine.setStatus status) (WorkflowEngine.setStatus status) :=
  twin_modifyRun fun _ _ hrun => { hrun with status := rfl }

theorem twin_spend (costUsd : ℚ) :
    Twin Eq (modifyRun fun run => { run with costUsd := run.costUsd + costUsd })
      (modifyRun fun run => { run with costUsd := run.costUsd + costUsd }) :=
  twin_modifyRun fun _ _ hrun => { hrun with costUsd := congrArg (· + costUsd) hrun.costUsd }

theorem twin_store (key : String) (value : Json) :
    Twin Eq (modifyRun fun run => { run with context := Dict.set run.context key value })
      (modifyRun fun run => { run with context := Dict.set run.context key value }) :=
  twin_modifyRun fun _ _ hrun =>
    { hrun with context := congrArg (fun context => Dict.set context key value) hrun.context }

theorem twin_checkpoint : Twin Eq checkpoint checkpoint := by
  unfold checkpoint
  refine Act.twin_bind Act.twin_get fun m m' hmem => ?_
  have hcall : Twin Eq (perform (.checkpoint m.run m.buffer)) (perform (.checkpoint m'.run m'.buffer)) :=
    twin_perform (.checkpoint hmem.run hmem.buffer) fun _ _ h => eq_of_heq h
  refine Act.twin_bind hcall ?_
  rintro answer _ rfl
  refine Act.twin_bind (twin_ofExcept_self answer) fun _ _ _ => ?_
  exact Act.twin_modify fun m m' hmem => ⟨hmem.run, List.Forall₂.nil⟩

end EngineM

open EngineM

/-! ### The agent loop -/

namespace AgentRuntime

variable (cfg : EngineConfig)

theorem twin_execCall (agent : Agent) {call call' : ToolCall} (hcall : call.Like call') :
    Twin Alike (execCall cfg agent call) (execCall cfg agent call') := by
  obtain ⟨htool, hid, hargs⟩ := hcall
  unfold execCall
  rw [htool, hid]
  refine Act.twin_bind (twin_ofExcept_self _) ?_
  rintro name _ rfl
  refine Act.twin_bind (twin_ofExcept_self _) ?_
  rintro tool _ rfl
  refine Act.twin_bind twin_getRun fun run run' hrun => ?_
  rw [hrun.context]
  have hcheck : Twin Eq (perform (.policyCheck agent tool call.args run.context))
      (perform (.policyCheck agent tool call'.args run.context)) :=
    twin_perform (.policyCheck agent tool hargs run.context) fun _ _ h => eq_of_heq h
  refine Act.twin_bind hcheck ?_
  rintro decision _ rfl
  refine Act.twin_bind (twin_emit _ _ _ _ (.refl _)) fun _ _ _ => ?_
  split
  · have hexecute : Twin (SameOutcome Alike) (perform (.execute (.agent agent.name) name call.args))
        (perform (.execute (.agent agent.name) name call'.args)) :=
      twin_perform (.execute _ name hargs) fun _ _ h => h
    refine Act.twin_bind hexecute fun answer answer' hanswer => ?_
    refine Act.twin_bind (Act.twin_ofExcept hanswer) fun result result' hresult => ?_
    refine Act.twin_bind (twin_spend tool.costUsd) fun _ _ _ => ?_
    refine Act.twin_bind (twin_emit _ _ _ _ (alike_record [("tool", .str name)] "result" hresult))
      fun _ _ _ => ?_
    exact Act.twin_pure (alike_record [("id", _), ("tool", _)] "result" hresult)
  · refine Act.twin_bind (twin_emit _ _ _ _ (.refl _)) fun _ _ _ => ?_
    exact Act.twin_pure (.refl _)

theorem twin_execCalls (agent : Agent) {calls calls' : List ToolCall}
    (h : List.Forall₂ ToolCall.Like calls calls') :
    Twin (List.Forall₂ Alike) (execCalls cfg agent calls) (execCalls cfg agent calls') := by
  induction h with
  | nil => exact Act.twin_pure List.Forall₂.nil
  | cons hcall _ ih =>
      unfold execCalls
      refine Act.twin_bind (twin_execCall cfg agent hcall) fun result result' hresult => ?_
      refine Act.twin_bind ih fun results results' hresults => ?_
      exact Act.twin_pure (List.Forall₂.cons hresult hresults)

theorem sameOutcome_item {α α' : Type} {A : α → α' → Prop} (key : String) {x : Option α}
    {x' : Option α'} (h : Option.Rel A x x') : SameOutcome A (item key x) (item key x') := by
  cases h with
  | none => rfl
  | some hvalue => exact hvalue

theorem twin_loop (agent : Agent) (task : Args) (n : Nat) (scratch scratch' : Scratch) :
    Twin Eq (loop cfg agent task n scratch) (loop cfg agent task n scratch') := by
  induction n generalizing scratch scratch' with
  | zero => exact Act.twin_throw _
  | succ n ih =>
      unfold loop
      have hrespond : Twin (SameOutcome fun out out' : Response × Scratch => out.1.Like out'.1 ∧
            (out.1.type ≠ some "tool_calls" → out'.1.output = out.1.output))
          (perform (.respond agent task scratch)) (perform (.respond agent task scratch')) :=
        twin_perform (.respond agent task scratch scratch') fun _ _ h => h
      refine Act.twin_bind hrespond fun answer answer' hanswer => ?_
      refine Act.twin_bind (Act.twin_ofExcept hanswer) ?_
      rintro ⟨⟨_, calls, _, output⟩, scratch⟩ ⟨⟨type, calls', cost, output'⟩, scratch'⟩
        ⟨⟨rfl, rfl, hcalls, -⟩, houtput⟩
      dsimp only at hcalls houtput ⊢
      refine Act.twin_bind (twin_spend _) fun _ _ _ => ?_
      cases type with
      | none => exact Act.twin_throw _
      | some kind =>
          have hkind : SameOutcome (fun name name' => name = kind ∧ name' = kind) (item "type" (some kind))
              (item "type" (some kind)) := ⟨rfl, rfl⟩
          refine Act.twin_bind (Act.twin_ofExcept hkind) ?_
          rintro _ _ ⟨rfl, rfl⟩
          refine Act.twin_bind (twin_emit _ _ _ _ (.refl _)) fun _ _ _ => ?_
          split
          · refine Act.twin_bind (Act.twin_ofExcept (sameOutcome_item "calls" hcalls))
              fun calls calls' hcalls => ?_
            refine Act.twin_bind (twin_execCalls cfg agent hcalls) fun _ _ _ => ?_
            exact ih _ _
          · rename_i hkind
            obtain rfl : output' = output := houtput fun heq => hkind (Option.some.inj heq)
            refine Act.twin_bind (twin_ofExcept_self _) ?_
            rintro output _ rfl
            refine Act.twin_bind (twin_emit _ _ _ _ (.refl _)) fun _ _ _ => ?_
            exact Act.twin_pure rfl

theorem twin_run (agent : Agent) (task : Args) : Twin Eq (run cfg agent task) (run cfg agent task) :=
  twin_loop cfg agent task agent.maxSteps.toNat Table.empty Table.empty

end AgentRuntime

namespace WorkflowEngine

variable (cfg : EngineConfig)

theorem twin_awaitSync (step : Step) (approvers : List String) (toolName : String) (args : Args) :
    Twin Eq (awaitSync step approvers toolName args) (awaitSync step approvers toolName args) := by
  unfold awaitSync
  refine Act.twin_bind twin_getRun fun run run' hrun => ?_
  rw [hrun.id, hrun.tenantId]
  refine Act.twin_bind (twin_ask fun _ _ h => eq_of_heq h) ?_
  rintro created _ rfl
  refine Act.twin_bind (twin_ofExcept_self _) ?_
  rintro approvalId _ rfl
  refine Act.twin_bind (twin_setStatus _) fun _ _ _ => ?_
  refine Act.twin_bind (twin_emit _ _ _ _ (.refl _)) fun _ _ _ => ?_
  refine Act.twin_bind twin_getRun fun current current' hcurrent => ?_
  have hasked : Twin Eq (perform (.approvalFn current step toolName args))
      (perform (.approvalFn current' step toolName args)) :=
    twin_perform (.approvalFn hcurrent step toolName args) fun _ _ h => eq_of_heq h
  refine Act.twin_bind hasked ?_
  rintro answer _ rfl
  refine Act.twin_bind (twin_ofExcept_self _) ?_
  rintro granted _ rfl
  refine Act.twin_bind (twin_ask fun _ _ h => eq_of_heq h) ?_
  rintro resolved _ rfl
  refine Act.twin_bind (twin_ofExcept_self _) fun _ _ _ => ?_
  refine Act.twin_bind (twin_emit _ _ _ _ (.refl _)) fun _ _ _ => ?_
  exact Act.twin_bind (twin_setStatus _) fun _ _ _ => Act.twin_pure rfl

theorem twin_awaitAsync (step : Step) (approvers : List String) (toolName : String) (args : Args) :
    Twin Eq (awaitAsync step approvers toolName args) (awaitAsync step approvers toolName args) := by
  unfold awaitAsync
  refine Act.twin_bind twin_getRun fun run run' hrun => ?_
  rw [hrun.id, hrun.tenantId]
  refine Act.twin_bind (twin_ask fun _ _ h => eq_of_heq h) ?_
  rintro (_ | ⟨approvalId, status⟩) _ rfl
  · refine Act.twin_bind (twin_ask fun _ _ h => eq_of_heq h) ?_
    rintro created _ rfl
    refine Act.twin_bind (twin_ofExcept_self _) ?_
    rintro approvalId _ rfl
    refine Act.twin_bind (twin_setStatus _) fun _ _ _ => ?_
    refine Act.twin_bind (twin_emit _ _ _ _ (.refl _)) fun _ _ _ => ?_
    exact Act.twin_bind twin_checkpoint fun _ _ _ => Act.twin_throw _
  · by_cases hpending : status = .pending
    · simp only [hpending, if_true]
      refine Act.twin_bind (twin_setStatus _) fun _ _ _ => ?_
      exact Act.twin_bind twin_checkpoint fun _ _ _ => Act.twin_throw _
    · simp only [hpending, if_false]
      exact Act.twin_bind (twin_emit _ _ _ _ (.refl _)) fun _ _ _ => Act.twin_pure rfl

theorem twin_awaitApproval (step : Step) (approvers : List String) (toolName : String) (args : Args) :
    Twin Eq (awaitApproval cfg step approvers toolName args)
      (awaitApproval cfg step approvers toolName args) := by
  unfold awaitApproval
  split
  · exact twin_awaitSync step approvers toolName args
  · exact twin_awaitAsync step approvers toolName args

theorem twin_runAgent (step : Step) : Twin Eq (runAgent cfg step) (runAgent cfg step) := by
  unfold runAgent
  split
  · exact Act.twin_throw _
  · rename_i agent _
    refine Act.twin_bind twin_getRun fun run run' hrun => ?_
    rw [hrun.context, hrun.triggerEvent]
    refine Act.twin_bind (twin_ofExcept_self _) ?_
    rintro args _ rfl
    refine Act.twin_bind (AgentRuntime.twin_run cfg _ _) ?_
    rintro output _ rfl
    exact Act.twin_bind (twin_store step.id output) fun _ _ _ => Act.twin_pure rfl

theorem twin_gate (step : Step) (tool : Tool) (name : String) (args : Args) :
    Twin Eq (gate cfg step tool name args) (gate cfg step tool name args) := by
  unfold gate
  refine Act.twin_bind twin_getRun fun run run' hrun => ?_
  rw [hrun.context]
  refine Act.twin_bind (twin_ask fun _ _ h => eq_of_heq h) ?_
  rintro decision _ rfl
  refine Act.twin_bind (twin_emit _ _ _ _ (.refl _)) fun _ _ _ => ?_
  cases decision.effect with
  | allow => exact Act.twin_pure rfl
  | deny => exact Act.twin_throw _
  | requireApproval =>
      refine Act.twin_bind (twin_awaitApproval cfg step _ name args) ?_
      rintro granted _ rfl
      cases granted with
      | true => exact Act.twin_pure rfl
      | false => exact Act.twin_throw _

theorem twin_act (step : Step) (tool : Tool) (name : String) (args : Args) (key : String) :
    Twin Eq (act step tool name args key) (act step tool name args key) := by
  unfold act
  refine Act.twin_bind (twin_ask fun _ _ h => eq_of_heq h) ?_
  rintro answer _ rfl
  refine Act.twin_bind (twin_ofExcept_self _) ?_
  rintro result _ rfl
  refine Act.twin_bind twin_getRun fun run run' hrun => ?_
  have hbook : Twin Eq
      (do modifyRun fun run => { run with costUsd := run.costUsd + tool.costUsd }
          emit "tool_result" (.obj [("tool", .str name), ("result", result)]) (some step.id) tool.costUsd
          modifyRun fun run => { run with context := Dict.set run.context step.id result }
          return step.next)
      (do modifyRun fun run => { run with costUsd := run.costUsd + tool.costUsd }
          emit "tool_result" (.obj [("tool", .str name), ("result", result)]) (some step.id) tool.costUsd
          modifyRun fun run => { run with context := Dict.set run.context step.id result }
          return step.next) := by
    refine Act.twin_bind (twin_spend _) fun _ _ _ => ?_
    refine Act.twin_bind (twin_emit _ _ _ _ (.refl _)) fun _ _ _ => ?_
    exact Act.twin_bind (twin_store step.id result) fun _ _ _ => Act.twin_pure rfl
  rw [hrun.id, hrun.tenantId]
  split
  · exact Act.twin_bind (twin_ask fun _ _ h => eq_of_heq h) fun _ _ _ => hbook
  · exact hbook

theorem twin_cachedEffect (tool : Tool) (key : String) :
    Twin Eq (cachedEffect tool key) (cachedEffect tool key) := by
  unfold cachedEffect
  split
  · refine Act.twin_bind twin_getRun fun run run' hrun => ?_
    rw [hrun.tenantId]
    refine Act.twin_bind (twin_ask fun _ _ h => eq_of_heq h) ?_
    rintro answer _ rfl
    exact twin_ofExcept_self _
  · exact Act.twin_pure rfl

theorem twin_runTool (step : Step) : Twin Eq (runTool cfg step) (runTool cfg step) := by
  unfold runTool
  split
  · exact Act.twin_throw _
  · rename_i name _
    refine Act.twin_bind (twin_ofExcept_self _) ?_
    rintro tool _ rfl
    refine Act.twin_bind twin_getRun fun run run' hrun => ?_
    rw [hrun.context, hrun.id]
    refine Act.twin_bind (twin_ofExcept_self _) ?_
    rintro args _ rfl
    refine Act.twin_bind (twin_cachedEffect tool _) ?_
    rintro cached _ rfl
    split
    · exact Act.twin_bind (twin_gate cfg step tool name args) fun _ _ _ => twin_act step tool name args _
    · refine Act.twin_bind (twin_emit _ _ _ _ (.refl _)) fun _ _ _ => ?_
      exact Act.twin_bind (twin_store step.id cached) fun _ _ _ => Act.twin_pure rfl

theorem twin_runBranch (step : Step) : Twin Eq (runBranch step) (runBranch step) := by
  unfold runBranch
  refine Act.twin_bind twin_getRun fun run run' hrun => ?_
  rw [hrun.context]
  refine Act.twin_bind (twin_ofExcept_self _) ?_
  rintro (_ | goto) _ rfl
  · exact Act.twin_pure rfl
  · exact Act.twin_bind (twin_emit _ _ _ _ (.refl _)) fun _ _ _ => Act.twin_pure rfl

theorem twin_runApproval (step : Step) : Twin Eq (runApproval cfg step) (runApproval cfg step) := by
  unfold runApproval
  refine Act.twin_bind (twin_awaitApproval cfg step _ _ _) ?_
  rintro granted _ rfl
  cases granted with
  | true => exact Act.twin_pure rfl
  | false => exact Act.twin_throw _

theorem twin_runStep (step : Step) : Twin Eq (runStep cfg step) (runStep cfg step) := by
  unfold runStep
  split
  · exact twin_runAgent cfg step
  · exact twin_runTool cfg step
  · exact twin_runBranch step
  · exact twin_runApproval cfg step
  · exact Act.twin_pure rfl
  · exact Act.twin_throw _

theorem twin_attempts (step : Step) (n attempt : Nat) (last : Option Exc) :
    Twin Eq (attempts cfg step n attempt last) (attempts cfg step n attempt last) := by
  induction n generalizing attempt last with
  | zero => cases last <;> exact Act.twin_throw _
  | succ n ih =>
      unfold attempts
      refine Act.twin_tryCatch (twin_runStep cfg step) fun e => ?_
      split
      · exact Act.twin_bind (twin_emit _ _ _ _ (.refl _)) fun _ _ _ => ih _ _
      · exact Act.twin_throw e

theorem twin_compensate (wf : Workflow) (step : Step) :
    Twin Eq (compensate cfg wf step) (compensate cfg wf step) := by
  unfold compensate
  cases compensation wf step with
  | none => exact Act.twin_pure rfl
  | some comp =>
      refine Act.twin_bind (twin_emit _ _ _ _ (.refl _)) fun _ _ _ => ?_
      refine Act.twin_tryCatch ?_ fun e => twin_emit _ _ _ _ (.refl _)
      exact Act.twin_bind (twin_runStep cfg comp) fun _ _ _ => Act.twin_pure rfl

theorem twin_failRun (reason detail : String) : Twin Eq (failRun reason detail) (failRun reason detail) := by
  unfold failRun
  refine Act.twin_bind (twin_setStatus _) fun _ _ _ => ?_
  exact Act.twin_bind (twin_emit _ _ _ _ (.refl _)) fun _ _ _ => twin_checkpoint

theorem twin_stepFailed (wf : Workflow) (step : Step) (e : Exc) :
    Twin Eq (stepFailed cfg wf step e) (stepFailed cfg wf step e) := by
  unfold stepFailed
  split
  · exact Act.twin_bind (twin_failRun _ _) fun _ _ _ => Act.twin_throw e
  · split
    · refine Act.twin_bind (twin_compensate cfg wf step) fun _ _ _ => ?_
      exact Act.twin_bind (twin_failRun _ _) fun _ _ _ => Act.twin_throw e
    · exact Act.twin_throw e

theorem twin_advance (next : Option String) : Twin Eq (advance next) (advance next) := by
  unfold advance
  refine Act.twin_bind (twin_modifyRun fun _ _ hrun => { hrun with cursorStep := rfl }) fun _ _ _ => ?_
  split
  · refine Act.twin_bind (twin_setStatus _) fun _ _ _ => ?_
    refine Act.twin_bind (twin_modifyRun fun _ _ hrun =>
      { hrun with result := congrArg finalResult hrun.context }) fun _ _ _ => ?_
    refine Act.twin_bind twin_getRun fun run run' hrun => ?_
    rw [hrun.result]
    exact Act.twin_bind (twin_emit _ _ _ _ (.refl _)) fun _ _ _ => twin_checkpoint
  · exact twin_checkpoint

theorem twin_enterStep (wf : Workflow) (step : Step) :
    Twin Eq (enterStep cfg wf step) (enterStep cfg wf step) := by
  unfold enterStep
  refine Act.twin_bind (twin_modifyRun fun _ _ hrun =>
    { hrun with stepsUsed := congrArg (· + 1) hrun.stepsUsed }) fun _ _ _ => ?_
  refine Act.twin_bind (twin_emit _ _ _ _ (.refl _)) fun _ _ _ => ?_
  refine Act.twin_bind (twin_ask fun _ _ h => eq_of_heq h) fun _ _ _ => ?_
  have htry := Act.twin_tryCatch (twin_attempts cfg step step.maxAttempts.toNat 1 none)
    (twin_stepFailed cfg wf step)
  refine Act.twin_bind htry ?_
  rintro next _ rfl
  exact Act.twin_bind (twin_advance next) fun _ _ _ => Act.twin_pure rfl

theorem check_eq_of_same (budget : Budget) {run run' : Run} (h : run.Same run') :
    budget.check run' = budget.check run := by
  unfold Budget.check
  rw [h.costUsd, h.stepsUsed]

theorem twin_iterate (wf : Workflow) (budget : Budget) (stepId : String) :
    Twin Eq (iterate cfg wf budget stepId) (iterate cfg wf budget stepId) := by
  unfold iterate
  cases wf.steps.get? stepId with
  | none => exact Act.twin_throw _
  | some step =>
      refine Act.twin_bind twin_getRun fun run run' hrun => ?_
      rw [check_eq_of_same budget hrun]
      split
      · exact Act.twin_bind (twin_failRun _ _) fun _ _ _ => Act.twin_throw _
      · exact twin_enterStep cfg wf step

theorem twin_drive (wf : Workflow) (budget : Budget) (n : Nat) (next : Option String) :
    Twin Eq (drive cfg wf budget n next) (drive cfg wf budget n next) := by
  induction n generalizing next with
  | zero => cases next <;> exact Act.twin_pure rfl
  | succ n ih =>
      cases next with
      | none => exact Act.twin_pure rfl
      | some stepId =>
          refine Act.twin_bind (twin_iterate cfg wf budget stepId) ?_
          rintro next _ rfl
          exact ih next

theorem twin_resume (wf : Workflow) : Twin Eq (resume cfg wf) (resume cfg wf) := by
  unfold resume
  refine Act.twin_bind twin_getRun fun run run' hrun => ?_
  have hiterations : iterations wf run' = iterations wf run := by
    unfold iterations
    rw [hrun.stepsUsed]
  rw [hrun.status, hrun.cursorStep, hiterations]
  split
  · exact Act.twin_pure rfl
  · refine Act.twin_bind (twin_setStatus _) fun _ _ _ => ?_
    refine Act.twin_tryCatch ?_ fun e => ?_
    · exact Act.twin_bind (twin_drive cfg wf _ _ _) fun _ _ _ => Act.twin_pure rfl
    · split
      · exact Act.twin_pure rfl
      · exact Act.twin_throw e

end WorkflowEngine

/-! ### The requests -/

/-- Requests whose triggers differ in secrets. -/
inductive Request.Like : Request → Request → Prop where
  | same (request : Request) : Request.Like request request
  | orchestratorFire (tenantId runId : String) (wf : Workflow) {trigger trigger' : Trigger}
      (htrigger : AlikeDict trigger trigger') (buffer : List Event) :
      Request.Like (.orchestratorFire tenantId runId wf trigger buffer)
        (.orchestratorFire tenantId runId wf trigger' buffer)
  | apiFire (tenantId runId wfName : String) {trigger trigger' : Trigger}
      (htrigger : AlikeDict trigger trigger') :
      Request.Like (.apiFire tenantId runId wfName trigger) (.apiFire tenantId runId wfName trigger')

/-- Whichever workflow the request drives, its functions do not look at secrets. -/
def Request.Discreet (d : Deployment) (request : Request) : Prop :=
  ∀ workflowId wf, request.definition d workflowId = some wf → wf.Discreet

section Requests

variable (d : Deployment)

theorem Event.Like.refl (ev : Event) : ev.Like ev := ⟨rfl, .refl _⟩

theorem Mem.Like.refl (m : Mem) : m.Like m :=
  ⟨.refl m.run, List.forall₂_same.mpr fun ev _ => .refl ev⟩

theorem twin_hydrate (tenantId runId : String) :
    Twin Run.Same (hydrate tenantId runId) (hydrate tenantId runId) := by
  unfold hydrate
  have hload : Twin (SameOutcome (Option.Rel Run.Same)) (perform (.loadRun tenantId runId))
      (perform (.loadRun tenantId runId)) := twin_perform (.same _) fun _ _ h => h
  refine Act.twin_bind hload fun answer answer' hanswer => ?_
  refine Act.twin_bind (Act.twin_ofExcept hanswer) fun run run' hrun => ?_
  cases hrun with
  | none => exact Act.twin_throw _
  | some hrun => exact Act.twin_bind (twin_modifyRun fun _ _ _ => hrun) fun _ _ _ => Act.twin_pure hrun

theorem twin_createOrGetRun {run run' : Run} (hrun : run.Same run') :
    Twin (fun out out' : Run × Bool => out.2 = out'.2) (createOrGetRun run) (createOrGetRun run') := by
  unfold createOrGetRun
  have hinsert : Twin Eq (perform (.insertRun run)) (perform (.insertRun run')) :=
    twin_perform (.insertRun hrun) fun _ _ h => eq_of_heq h
  refine Act.twin_bind hinsert ?_
  rintro inserted _ rfl
  split
  · exact Act.twin_pure rfl
  · have hload : Twin (SameOutcome (Option.Rel fun _ _ => True))
        (perform (.loadRunByKey run.tenantId run.idempotencyKey))
        (perform (.loadRunByKey run'.tenantId run'.idempotencyKey)) := by
      rw [hrun.tenantId]
      exact twin_perform (.loadRunByKey _ _ _) fun _ _ h => h
    refine Act.twin_bind hload fun answer answer' hanswer => ?_
    refine Act.twin_bind (Act.twin_ofExcept hanswer) fun existing existing' hexisting => ?_
    cases hexisting with
    | none => exact Act.twin_throw _
    | some _ => exact Act.twin_pure rfl

/-- The code, executed twice, runs in lockstep, whatever it returns. -/
abbrev EngineM.Repeats {α : Type} (x : EngineM α) : Prop := Twin (fun _ _ => True) x x

theorem repeats_resume (cfg : EngineConfig) (wf : Workflow) :
    EngineM.Repeats (do WorkflowEngine.resume cfg wf; getRun) :=
  Act.twin_bind (WorkflowEngine.twin_resume cfg wf) fun _ _ _ =>
    Act.twin_bind twin_getRun fun _ _ _ => Act.twin_pure trivial

theorem repeats_safeResume (wf : Workflow) : EngineM.Repeats (ApiService.safeResume d wf) := by
  unfold ApiService.safeResume
  refine Act.twin_tryCatch (repeats_resume _ wf) fun e => ?_
  split
  · refine Act.twin_bind twin_getRun fun run run' hrun => ?_
    rw [hrun.tenantId, hrun.id]
    have hload : Twin (SameOutcome (Option.Rel Run.Same)) (perform (.loadRun run.tenantId run.id))
        (perform (.loadRun run.tenantId run.id)) := twin_perform (.same _) fun _ _ h => h
    refine Act.twin_bind hload fun answer answer' hanswer => ?_
    exact Act.twin_bind (Act.twin_ofExcept hanswer) fun _ _ _ => Act.twin_pure trivial
  · exact Act.twin_throw e

theorem repeats_orchestratorFire (tenantId runId : String) (wf : Workflow) (trigger : Trigger) :
    EngineM.Repeats (Orchestrator.fire d tenantId runId wf trigger) := by
  unfold Orchestrator.fire
  refine Act.twin_bind (twin_modifyRun fun _ _ _ => .refl _) fun _ _ _ => ?_
  refine Act.twin_bind twin_getRun fun wanted wanted' hwanted => ?_
  refine Act.twin_bind (twin_createOrGetRun hwanted) ?_
  rintro ⟨run, created⟩ ⟨run', _⟩ rfl
  cases created with
  | true => exact Act.twin_bind (twin_emit _ _ _ _ (.refl _)) fun _ _ _ => repeats_resume _ wf
  | false => exact Act.twin_pure trivial

theorem repeats_orchestratorResume (tenantId runId : String) (wf : Workflow) :
    EngineM.Repeats (Orchestrator.resumeRun d tenantId runId wf) := by
  unfold Orchestrator.resumeRun
  refine Act.twin_bind (twin_hydrate tenantId runId) fun run run' hrun => ?_
  rw [hrun.status]
  split
  · exact Act.twin_pure trivial
  · exact repeats_resume _ wf

theorem repeats_runnerResume (tenantId runId : String) :
    EngineM.Repeats (SystemRunner.resume d tenantId runId) := by
  unfold SystemRunner.resume
  refine Act.twin_bind (twin_hydrate tenantId runId) fun run run' hrun => ?_
  rw [hrun.workflowId]
  refine Act.twin_bind (twin_ofExcept_self _) ?_
  rintro wf _ rfl
  exact repeats_resume _ wf

theorem repeats_apiFire (tenantId runId wfName : String) (trigger : Trigger) :
    EngineM.Repeats (ApiService.fire d tenantId runId wfName trigger) := by
  unfold ApiService.fire
  refine Act.twin_bind (twin_ofExcept_self _) ?_
  rintro wf _ rfl
  refine Act.twin_bind (twin_ask fun _ _ h => eq_of_heq h) ?_
  rintro allowed _ rfl
  split
  · refine Act.twin_bind (twin_ask fun _ _ h => eq_of_heq h) fun _ _ _ => ?_
    refine Act.twin_bind (twin_modifyRun fun _ _ _ => .refl _) fun _ _ _ => ?_
    refine Act.twin_bind twin_getRun fun wanted wanted' hwanted => ?_
    refine Act.twin_bind (twin_createOrGetRun hwanted) ?_
    rintro ⟨run, created⟩ ⟨run', _⟩ rfl
    cases created with
    | true => exact Act.twin_bind (twin_emit _ _ _ _ (.refl _)) fun _ _ _ => repeats_safeResume d wf
    | false => exact Act.twin_pure trivial
  · exact Act.twin_throw _

theorem repeats_hydrate (tenantId runId : String) : EngineM.Repeats (hydrate tenantId runId) :=
  Act.twin_mono (fun _ _ _ => trivial) (twin_hydrate tenantId runId)

theorem repeats_cancel (tenantId runId : String) : EngineM.Repeats (ApiService.cancel tenantId runId) := by
  unfold ApiService.cancel
  refine Act.twin_bind (twin_ask fun _ _ h => eq_of_heq h) ?_
  rintro answer _ rfl
  exact Act.twin_bind (twin_ofExcept_self _) fun _ _ _ => repeats_hydrate tenantId runId

theorem repeats_resolveApproval (tenantId runId approvalId : String) (approved : Bool)
    (decidedBy note : String) :
    EngineM.Repeats (ApiService.resolveApproval d tenantId runId approvalId approved decidedBy note) := by
  unfold ApiService.resolveApproval
  refine Act.twin_bind (twin_hydrate tenantId runId) fun run run' hrun => ?_
  refine Act.twin_bind (twin_ask fun _ _ h => eq_of_heq h) ?_
  rintro answer _ rfl
  refine Act.twin_bind (twin_ofExcept_self _) fun _ _ _ => ?_
  rw [hrun.workflowId]
  refine Act.twin_bind (twin_ofExcept_self _) ?_
  rintro wf _ rfl
  exact repeats_safeResume d wf

theorem repeats_code (request : Request) : EngineM.Repeats (request.code d) := by
  cases request with
  | orchestratorFire tenantId runId wf trigger => exact repeats_orchestratorFire d tenantId runId wf trigger
  | apiFire tenantId runId wfName trigger => exact repeats_apiFire d tenantId runId wfName trigger
  | orchestratorResume tenantId runId wf => exact repeats_orchestratorResume d tenantId runId wf
  | runnerResume tenantId runId => exact repeats_runnerResume d tenantId runId
  | apiResolve tenantId runId approvalId approved decidedBy note =>
      exact repeats_resolveApproval d tenantId runId approvalId approved decidedBy note
  | apiCancel tenantId runId => exact repeats_cancel tenantId runId

/-- A request that is served twice is served in lockstep, as long as what comes into its run is the same. -/
theorem lockstep_program (request : Request) :
    (request.program d).Lockstep secrets (fun _ _ => True) (request.program d) :=
  Prog.lockstep_bind (repeats_code d request _ _ (.refl _)) fun _ _ _ => trivial

end Requests

end Bass
