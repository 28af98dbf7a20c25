import Bass.Interaction.Credits
import Bass.Proof.ConcurrentFires
import Bass.Proof.Noninterference
import Bass.Proof.Outline
import Bass.Sessions

/-!
# What a drive can spend

The budget is looked at before a step only, and a step can go on for a while: an agent asks its model
again and again, a step that fails in a connector is tried again, and one that failed for good may be
compensated. A tariff puts a price on each answer of a model and on each execution of a tool by a
workflow step. What one request can spend is bounded by the definition it drives the run with, whatever
the models, the tools and the store answer, and however many other requests are under way.
-/

namespace Bass

open Interaction EngineM

/-- Prices of the calls a step makes to the outside. -/
structure Tariff where
  model : Agent → Nat
  tool : String → Nat

def Tariff.price (tariff : Tariff) : Op → Nat
  | .respond agent _ _ => tariff.model agent
  | .execute (.step _) name _ => tariff.tool name
  | _ => 0

/-- One try of a step. -/
def Step.fee (cfg : EngineConfig) (tariff : Tariff) (step : Step) : Nat :=
  match step.nodeType with
  | .agent => (step.agentIn cfg).elim 0 fun agent => agent.maxSteps.toNat * tariff.model agent
  | .tool => step.tool.elim 0 tariff.tool
  | _ => 0

/-- A step with all its tries, and its compensation once. -/
def Workflow.stepFee (cfg : EngineConfig) (tariff : Tariff) (wf : Workflow) (step : Step) : Nat :=
  step.maxAttempts.toNat * step.fee cfg tariff +
    (WorkflowEngine.compensation wf step).elim 0 (Step.fee cfg tariff)

/-- The most expensive step. -/
def Workflow.dearest (cfg : EngineConfig) (tariff : Tariff) (wf : Workflow) : Nat :=
  (wf.steps.rows.map fun entry => wf.stepFee cfg tariff entry.2).foldr max 0

/-- The steps that are left to a run that has used `stepsUsed`: one more than `max_steps` in all. -/
def Workflow.allowance (cfg : EngineConfig) (tariff : Tariff) (wf : Workflow) (stepsUsed : Nat) : Nat :=
  (wf.maxSteps + 1 - stepsUsed).toNat * wf.dearest cfg tariff

theorem Workflow.stepFee_le_dearest {cfg : EngineConfig} {tariff : Tariff} {wf : Workflow} {step : Step}
    (h : wf.HasStep step) : wf.stepFee cfg tariff step ≤ wf.dearest cfg tariff := by
  obtain ⟨name, hname⟩ := h
  obtain ⟨entry, hfound, rfl⟩ := Option.map_eq_some_iff.mp hname
  have hmem : entry ∈ wf.steps.rows := Table.mem_of_find? hfound
  unfold Workflow.dearest
  generalize wf.steps.rows = rows at hmem
  induction rows with
  | nil => cases hmem
  | cons first rows ih =>
      rw [List.map_cons, List.foldr_cons]
      rcases List.mem_cons.mp hmem with rfl | hrest
      · exact le_max_left _ _
      · exact (ih hrest).trans (le_max_right _ _)

namespace Tariff

variable {tariff : Tariff} {cfg : EngineConfig} {wf : Workflow}

/-- The code spends at most `n`. -/
abbrev Spends {α : Type} (tariff : Tariff) (n : Nat) (x : EngineM α) : Prop :=
  Act.Costs (fun call : Call => tariff.price call.op) n x

/-- From the memory `m`, it spends at most `n`. -/
abbrev SpendsFrom {α : Type} (tariff : Tariff) (m : Mem) (n : Nat) (x : EngineM α) : Prop :=
  Act.CostsFrom (fun call : Call => tariff.price call.op) m n x

/-! ### Code that costs nothing -/

section Free

theorem spends_run (f : Run → Run) : tariff.Spends 0 (modifyRun f) :=
  Act.costs_of_keeps fun _ => keeps_modifyRun fun _ _ h => h

theorem spends_emit (type : String) (payload : Json) (stepId : Option String) (costUsd : ℚ)
    (actor : String) : tariff.Spends 0 (emit type payload stepId costUsd actor) :=
  Act.costs_of_keeps fun _ => keeps_emit (fun _ _ _ _ h => h) _ _ _ _ _

theorem spends_getRun : tariff.Spends 0 getRun := Act.costs_of_keeps fun _ => keeps_getRun

theorem spends_free {op : Op} (h : tariff.price op = 0) : tariff.Spends 0 (perform op) :=
  Act.costs_of_keeps fun _ => Act.keeps_free fun _ => h

theorem keeps_checkpoint_credits (k : Nat) :
    Act.Keeps (.credits fun call : Call => tariff.price call.op) (fun _ left => left = k) checkpoint :=
  keeps_checkpoint_call fun m left h => by
    rintro _ rfl
    refine ⟨Nat.zero_le left, fun answer left' hstep => ?_⟩
    have hsame : left' = left := hstep
    exact ⟨hsame.trans h, hsame.trans h⟩

theorem spends_checkpoint : tariff.Spends 0 checkpoint := Act.costs_of_keeps keeps_checkpoint_credits

theorem spends_awaitApproval (step : Step) (approvers : List String) (name : String) (args : Args) :
    tariff.Spends 0 (WorkflowEngine.awaitApproval cfg step approvers name args) := by
  refine Act.costs_of_keeps fun k => keeps_awaitApproval (fun _ _ _ _ h => h) (fun op hasking => ?_)
    (savedIn_of_keeps (keeps_checkpoint_credits k) _) step approvers name args
  refine Act.keeps_free fun _ => ?_
  cases op <;> first | rfl | cases hasking

theorem spends_failRun (reason detail : String) :
    tariff.Spends 0 (WorkflowEngine.failRun reason detail) :=
  Act.costs_free_bind (spends_run _) fun _ => Act.costs_free_bind (spends_emit _ _ _ _ _) fun _ =>
    spends_checkpoint

theorem spends_advance (next : Option String) : tariff.Spends 0 (WorkflowEngine.advance next) := by
  refine Act.costs_free_bind (spends_run _) fun _ => ?_
  split
  · refine Act.costs_free_bind (spends_run _) fun _ => ?_
    refine Act.costs_free_bind (spends_run _) fun _ => ?_
    refine Act.costs_free_bind spends_getRun fun run => ?_
    exact Act.costs_free_bind (spends_emit _ _ _ _ _) fun _ => spends_checkpoint
  · exact spends_checkpoint

/-- A tool that an agent asks for is not charged; the answer that asked for it was. -/
theorem spends_execCall (agent : Agent) (call : ToolCall) :
    tariff.Spends 0 (AgentRuntime.execCall cfg agent call) := by
  refine Act.costs_free_bind (Act.costs_ofExcept _) fun name => ?_
  refine Act.costs_free_bind (Act.costs_ofExcept _) fun tool => ?_
  refine Act.costs_free_bind spends_getRun fun run => ?_
  refine Act.costs_free_bind (spends_free rfl) fun decision => ?_
  refine Act.costs_free_bind (spends_emit _ _ _ _ _) fun _ => ?_
  split
  · refine Act.costs_free_bind (spends_free rfl) fun answer => ?_
    refine Act.costs_free_bind (Act.costs_ofExcept _) fun result => ?_
    refine Act.costs_free_bind (spends_run _) fun _ => ?_
    exact Act.costs_free_bind (spends_emit _ _ _ _ _) fun _ => Act.costs_pure _
  · exact Act.costs_free_bind (spends_emit _ _ _ _ _) fun _ => Act.costs_pure _

theorem spends_execCalls (agent : Agent) (calls : List ToolCall) :
    tariff.Spends 0 (AgentRuntime.execCalls cfg agent calls) := by
  induction calls with
  | nil => exact Act.costs_pure []
  | cons call rest ih =>
      exact Act.costs_free_bind (spends_execCall agent call) fun result =>
        Act.costs_free_bind ih fun results => Act.costs_pure (result :: results)

theorem spends_cachedEffect (tool : Tool) (key : String) :
    tariff.Spends 0 (WorkflowEngine.cachedEffect tool key) :=
  Act.costs_of_keeps fun _ => keeps_cachedEffect (fun _ _ => Act.keeps_free fun _ => rfl) tool key

theorem spends_gate (step : Step) (tool : Tool) (name : String) (args : Args) :
    tariff.Spends 0 (WorkflowEngine.gate cfg step tool name args) := by
  refine Act.costs_free_bind spends_getRun fun run => ?_
  refine Act.costs_free_bind (spends_free rfl) fun decision => ?_
  refine Act.costs_free_bind (spends_emit _ _ _ _ _) fun _ => ?_
  split
  · exact Act.costs_pure ()
  · exact Act.costs_throw _
  · refine Act.costs_free_bind (spends_awaitApproval _ _ _ _) fun granted => ?_
    split
    · exact Act.costs_pure ()
    · exact Act.costs_throw _

theorem spends_runBranch (step : Step) : tariff.Spends 0 (WorkflowEngine.runBranch step) := by
  refine Act.costs_free_bind spends_getRun fun run => ?_
  refine Act.costs_free_bind (Act.costs_ofExcept _) fun taken => ?_
  split
  · exact Act.costs_free_bind (spends_emit _ _ _ _ _) fun _ => Act.costs_pure _
  · exact Act.costs_pure _

theorem spends_runApproval (step : Step) : tariff.Spends 0 (WorkflowEngine.runApproval cfg step) := by
  refine Act.costs_free_bind (spends_awaitApproval _ _ _ _) fun granted => ?_
  split
  · exact Act.costs_pure _
  · exact Act.costs_throw _

end Free

/-! ### One step -/

/-- Each turn of the loop costs one answer of the model. -/
theorem spends_loop (agent : Agent) (task : Args) (n : Nat) (scratch : Scratch) :
    tariff.Spends (n * tariff.model agent) (AgentRuntime.loop cfg agent task n scratch) := by
  induction n generalizing scratch with
  | zero => exact (Act.costs_throw _).mono (Nat.zero_le _)
  | succ n ih =>
      rw [Nat.succ_mul, Nat.add_comm]
      refine Act.costs_bind (Act.costs_perform fun _ => le_refl _) fun answer => ?_
      refine Act.costs_free_bind (Act.costs_ofExcept _) fun out => ?_
      obtain ⟨resp, scratch'⟩ := out
      refine Act.costs_free_bind (spends_run _) fun _ => ?_
      refine Act.costs_free_bind (Act.costs_ofExcept _) fun kind => ?_
      refine Act.costs_free_bind (spends_emit _ _ _ _ _) fun _ => ?_
      split
      · refine Act.costs_free_bind (Act.costs_ofExcept _) fun calls => ?_
        exact Act.costs_free_bind (spends_execCalls agent calls) fun results => ih _
      · refine Act.Costs.mono ?_ (Nat.zero_le _)
        refine Act.costs_free_bind (Act.costs_ofExcept _) fun output => ?_
        exact Act.costs_free_bind (spends_emit _ _ _ _ _) fun _ => Act.costs_pure output

theorem spends_runAgent {step : Step} (hnode : step.nodeType = .agent) :
    tariff.Spends (step.fee cfg tariff) (WorkflowEngine.runAgent cfg step) := by
  unfold WorkflowEngine.runAgent
  split
  · exact (Act.costs_throw _).mono (Nat.zero_le _)
  · rename_i agent hagent
    have hfee : step.fee cfg tariff = agent.maxSteps.toNat * tariff.model agent := by
      unfold Step.fee Step.agentIn
      rw [hnode, hagent]
      rfl
    rw [hfee]
    refine Act.costs_free_bind spends_getRun fun run => ?_
    refine Act.costs_free_bind (Act.costs_ofExcept _) fun args => ?_
    refine Act.costs_bind_free (spends_loop agent _ _ _) fun output => ?_
    exact Act.costs_free_bind (spends_run _) fun _ => Act.costs_pure _

/-- The tool itself is charged, the record of its effect is not. -/
theorem spends_act (step : Step) (tool : Tool) (name : String) (args : Args) (key : String) :
    tariff.Spends (tariff.tool name) (WorkflowEngine.act step tool name args key) := by
  refine Act.costs_bind_free (Act.costs_perform fun _ => le_refl _) fun answer => ?_
  refine Act.costs_free_bind (Act.costs_ofExcept _) fun result => ?_
  refine Act.costs_free_bind spends_getRun fun run => ?_
  have hbook : tariff.Spends 0 (do
      modifyRun fun run => { run with costUsd := run.costUsd + tool.costUsd }
      emit "tool_result" (.obj [("tool", .str name), ("result", result)]) (some step.id) tool.costUsd
      modifyRun fun run => { run with context := Dict.set run.context step.id result }
      return step.next) :=
    Act.costs_free_bind (spends_run _) fun _ => Act.costs_free_bind (spends_emit _ _ _ _ _) fun _ =>
      Act.costs_free_bind (spends_run _) fun _ => Act.costs_pure _
  split
  · exact Act.costs_free_bind (spends_free rfl) fun _ => hbook
  · exact hbook

theorem spends_runTool {step : Step} (hnode : step.nodeType = .tool) :
    tariff.Spends (step.fee cfg tariff) (WorkflowEngine.runTool cfg step) := by
  unfold WorkflowEngine.runTool
  split
  · exact (Act.costs_throw _).mono (Nat.zero_le _)
  · rename_i name hname
    have hfee : step.fee cfg tariff = tariff.tool name := by
      unfold Step.fee
      rw [hnode, hname]
      rfl
    rw [hfee]
    refine Act.costs_free_bind (Act.costs_ofExcept _) fun tool => ?_
    refine Act.costs_free_bind spends_getRun fun run => ?_
    refine Act.costs_free_bind (Act.costs_ofExcept _) fun args => ?_
    refine Act.costs_free_bind (spends_cachedEffect _ _) fun cached => ?_
    split
    · exact Act.costs_free_bind (spends_gate _ _ _ _) fun _ => spends_act _ _ _ _ _
    · refine Act.Costs.mono ?_ (Nat.zero_le _)
      refine Act.costs_free_bind (spends_emit _ _ _ _ _) fun _ => ?_
      exact Act.costs_free_bind (spends_run _) fun _ => Act.costs_pure _

theorem spends_runStep (step : Step) :
    tariff.Spends (step.fee cfg tariff) (WorkflowEngine.runStep cfg step) := by
  unfold WorkflowEngine.runStep
  split
  · rename_i hnode
    exact spends_runAgent hnode
  · rename_i hnode
    exact spends_runTool hnode
  · exact (spends_runBranch step).mono (Nat.zero_le _)
  · exact (spends_runApproval step).mono (Nat.zero_le _)
  · exact (Act.costs_pure _).mono (Nat.zero_le _)
  · exact (Act.costs_throw _).mono (Nat.zero_le _)

/-! ### The step loop -/

theorem spends_attempts (step : Step) (n attempt : Nat) (last : Option Exc) :
    tariff.Spends (n * step.fee cfg tariff) (WorkflowEngine.attempts cfg step n attempt last) := by
  induction n generalizing attempt last with
  | zero =>
      rw [Nat.zero_mul]
      cases last with
      | none => exact Act.costs_throw _
      | some e => exact Act.costs_throw e
  | succ n ih =>
      rw [Nat.succ_mul, Nat.add_comm]
      refine Act.costs_tryCatch (spends_runStep step) fun e => ?_
      split
      · exact Act.costs_free_bind (spends_emit _ _ _ _ _) fun _ => ih _ _
      · exact (Act.costs_throw e).mono (Nat.zero_le _)

theorem spends_compensate (step : Step) :
    tariff.Spends ((WorkflowEngine.compensation wf step).elim 0 (Step.fee cfg tariff))
      (WorkflowEngine.compensate cfg wf step) := by
  unfold WorkflowEngine.compensate
  split
  · exact (Act.costs_pure ()).mono (Nat.zero_le _)
  · rename_i comp hcomp
    rw [hcomp]
    refine Act.costs_free_bind (spends_emit _ _ _ _ _) fun _ => ?_
    have htry : tariff.Spends (comp.fee cfg tariff) (do let _ ← WorkflowEngine.runStep cfg comp) :=
      Act.costs_bind_free (spends_runStep comp) fun _ => Act.costs_pure ()
    exact Act.costs_tryCatch htry fun e => spends_emit _ _ _ _ _

theorem spends_stepFailed (step : Step) (e : Exc) :
    tariff.Spends ((WorkflowEngine.compensation wf step).elim 0 (Step.fee cfg tariff))
      (WorkflowEngine.stepFailed cfg wf step e) := by
  unfold WorkflowEngine.stepFailed
  split
  · exact (Act.costs_free_bind (spends_failRun _ _) fun _ => Act.costs_throw e).mono (Nat.zero_le _)
  · split
    · refine Act.costs_bind_free (spends_compensate step) fun _ => ?_
      exact Act.costs_free_bind (spends_failRun _ _) fun _ => Act.costs_throw e
    · exact (Act.costs_throw e).mono (Nat.zero_le _)

theorem spends_enterStep (step : Step) :
    tariff.Spends (wf.stepFee cfg tariff step) (WorkflowEngine.enterStep cfg wf step) := by
  refine Act.costs_free_bind (spends_run _) fun _ => ?_
  refine Act.costs_free_bind (spends_emit _ _ _ _ _) fun _ => ?_
  refine Act.costs_free_bind (spends_free rfl) fun _ => ?_
  refine Act.costs_bind_free (Act.costs_tryCatch (spends_attempts step _ _ _) fun e =>
    spends_stepFailed step e) fun next => ?_
  exact Act.costs_free_bind (spends_advance next) fun _ => Act.costs_pure next

/-- An iteration pays for one step, if the run may still enter one. -/
theorem iterate_spends (budget : Budget) (stepId : String) (m : Mem) :
    tariff.SpendsFrom m
      (if (m.run.stepsUsed : Int) ≤ budget.maxSteps then wf.dearest cfg tariff else 0)
      (WorkflowEngine.iterate cfg wf budget stepId) := by
  unfold WorkflowEngine.iterate
  cases hstep : wf.steps.get? stepId with
  | none => exact (Act.costs_throw _).mono (Nat.zero_le _) m
  | some step =>
      intro left hleft
      refine (wp_getRun_bind _).mpr ?_
      cases hbudget : budget.check m.run with
      | some violation =>
          have hfailed : tariff.Spends 0 (do
              WorkflowEngine.failRun "budget exceeded" violation
              throw (.bass .budgetExceeded violation) : EngineM (Option String)) :=
            Act.costs_free_bind (spends_failRun _ _) fun _ => Act.costs_throw _
          exact (hfailed.mono (Nat.zero_le _)) m left hleft
      | none =>
          rw [if_pos (budget.stepsUsed_le_of_check hbudget)] at hleft ⊢
          have hfee : wf.stepFee cfg tariff step ≤ wf.dearest cfg tariff :=
            Workflow.stepFee_le_dearest ⟨stepId, hstep⟩
          exact (spends_enterStep step).mono hfee m left hleft

theorem allowance_succ {k : Nat} (h : (k : Int) ≤ wf.maxSteps) :
    wf.allowance cfg tariff k = wf.dearest cfg tariff + wf.allowance cfg tariff (k + 1) := by
  have hleft : (wf.maxSteps + 1 - k).toNat = (wf.maxSteps + 1 - (k + 1 : Nat)).toNat + 1 := by omega
  unfold Workflow.allowance
  rw [hleft, Nat.succ_mul, Nat.add_comm]

/-- The loop pays for the steps that the run has left. The induction is on the iterations; what carries
it is that an iteration that does not raise was within budget and has used one more step. -/
theorem drive_spends (n : Nat) (next : Option String) (m : Mem) :
    tariff.SpendsFrom m (wf.allowance cfg tariff m.run.stepsUsed)
      (WorkflowEngine.drive cfg wf ⟨wf.budgetUsd, wf.maxSteps⟩ n next) := by
  induction n generalizing next m with
  | zero =>
      cases next with
      | none => exact (Act.costs_pure _).mono (Nat.zero_le _) m
      | some stepId => exact (Act.costs_pure _).mono (Nat.zero_le _) m
  | succ n ih =>
      cases next with
      | none => exact (Act.costs_pure _).mono (Nat.zero_le _) m
      | some stepId =>
          intro left hleft
          have hiterate : tariff.SpendsFrom m
              (if (m.run.stepsUsed : Int) ≤ wf.maxSteps then wf.dearest cfg tariff else 0)
              (WorkflowEngine.iterate cfg wf ⟨wf.budgetUsd, wf.maxSteps⟩ stepId) :=
            iterate_spends ⟨wf.budgetUsd, wf.maxSteps⟩ stepId m
          by_cases hwithin : (m.run.stepsUsed : Int) ≤ wf.maxSteps
          · rw [if_pos hwithin] at hiterate
            rw [allowance_succ hwithin] at hleft ⊢
            refine (Act.wp_bind _ _).mpr (Act.wp_mono _ ?_ (fun _ _ left' hspent => ?_)
              (Act.wp_and _ (hiterate left (by omega)) (iterate_counts _ stepId m left)))
            · rintro next' m' left' ⟨hspent, -, hcount⟩
              have hrest := ih next' m'
              rw [hcount] at hrest
              refine Act.wp_mono _ (fun _ _ left'' h => ?_) (fun _ _ left'' h => ?_)
                (hrest left' (by omega)) <;> omega
            · have := hspent.1
              omega
          · rw [if_neg hwithin] at hiterate
            refine (Act.wp_bind _ _).mpr (Act.wp_mono _ ?_ (fun _ _ left' hspent => ?_)
              (Act.wp_and _ (hiterate left (Nat.zero_le left)) (iterate_counts _ stepId m left)))
            · rintro next' m' left' ⟨-, hle, -⟩
              exact absurd hle hwithin
            · have := hspent.1
              omega

/-- The approvals of an engine cost nothing either way. -/
theorem allowance_asynchronous (wf : Workflow) (k : Nat) :
    wf.allowance cfg.asynchronous tariff k = wf.allowance cfg tariff k := rfl

theorem resume_spends (m : Mem) :
    tariff.SpendsFrom m (wf.allowance cfg tariff m.run.stepsUsed)
      (WorkflowEngine.resume cfg wf) := by
  intro left hleft
  refine (wp_getRun_bind _).mpr ?_
  split
  · exact (Act.costs_pure ()).mono (Nat.zero_le _) m left hleft
  · refine (wp_modifyRun_bind _ _).mpr ?_
    have hdrive : tariff.SpendsFrom
        { m with run := { m.run with status := .running } } (wf.allowance cfg tariff m.run.stepsUsed) (do
          let _ ← WorkflowEngine.drive cfg wf ⟨wf.budgetUsd, wf.maxSteps⟩
            (WorkflowEngine.iterations wf m.run) (some (m.run.cursorStep.getD wf.start))) :=
      (drive_spends _ _ _).bind fun _ => Act.costs_pure ()
    refine hdrive.tryCatch (k := 0) (fun e => ?_) left hleft
    split
    · exact Act.costs_pure ()
    · exact Act.costs_throw e

/-! ### Requests -/

/-- What the calls of a trail cost together. -/
abbrev spent (tariff : Tariff) (trail : Trail) : Nat :=
  Prog.spent (fun call : Call => tariff.price call.op) trail

end Tariff

/-- The run that the driver of the trail goes on with: the one it loaded first, or the one it created. -/
def Trail.Takes (trail : Trail) (run : Run) : Prop :=
  (∃ m tenantId runId rest, trail = ⟨⟨m, .loadRun tenantId runId⟩, .ok (some run)⟩ :: rest) ∨
    ∃ m, ⟨⟨m, .insertRun run⟩, true⟩ ∈ trail

namespace Tariff

variable {tariff : Tariff} {d : Deployment} {ok : (call : Call) → call.Res → Prop} {m : Mem} {trail : Trail}

theorem spent_of_path {α : Type} {x : EngineM α} {n : Nat}
    (h : tariff.SpendsFrom m n x)
    (hpath : (x.exec m).Path ok trail) : tariff.spent trail ≤ n :=
  hpath.spent_le (h n (le_refl n))

/-- A free call adds nothing to what the rest of the path spends. -/
theorem spent_of_call (tariff : Tariff) {α : Type} {call : Call} {next : call.Res → Driver α}
    (hfree : tariff.price call.op = 0) (hpath : (Prog.call call next).Path ok trail) :
    trail = [] ∨ ∃ answer rest, trail = ⟨call, answer⟩ :: rest ∧ tariff.spent trail = tariff.spent rest ∧
      (next answer).Path ok rest := by
  cases hpath with
  | nil => exact Or.inl rfl
  | @cons _ _ answer rest _ tail =>
      refine Or.inr ⟨answer, rest, rfl, ?_, tail⟩
      calc tariff.spent (⟨call, answer⟩ :: rest)
          = tariff.price call.op + tariff.spent rest := List.sum_cons
        _ = tariff.spent rest := by rw [hfree, Nat.zero_add]

theorem safeResume_spends (wf : Workflow) (m : Mem) :
    tariff.SpendsFrom m (wf.allowance d.engine tariff m.run.stepsUsed)
      (ApiService.safeResume d wf) := by
  have hresume : tariff.SpendsFrom m
      (wf.allowance d.engine.asynchronous tariff m.run.stepsUsed) (do
        WorkflowEngine.resume d.engine.asynchronous wf
        getRun) := (resume_spends m).bind fun _ => spends_getRun
  rw [allowance_asynchronous] at hresume
  refine hresume.tryCatch (k := 0) fun e => ?_
  split
  · refine Act.costs_free_bind spends_getRun fun run => ?_
    refine Act.costs_free_bind (spends_free rfl) fun answer => ?_
    exact Act.costs_free_bind (Act.costs_ofExcept _) fun _ => Act.costs_pure _
  · exact Act.costs_throw e

/-- What a trail may have cost that took the run `run`, or none. -/
def Afforded (tariff : Tariff) (d : Deployment) (request : Request) (trail : Trail) : Prop :=
  tariff.spent trail = 0 ∨ ∃ run wf, trail.Takes run ∧ request.definition d run.workflowId = some wf ∧
    tariff.spent trail ≤ wf.allowance d.engine tariff run.stepsUsed

/-- A request that loads its run drives what it loaded. -/
theorem afforded_hydrate {request : Request} {tenantId runId : String} {f : Run → EngineM Run}
    (hf : ∀ run rest, ((f run).exec { m with run := run }).Path ok rest →
      tariff.spent rest = 0 ∨ ∃ wf, request.definition d run.workflowId = some wf ∧
        tariff.spent rest ≤ wf.allowance d.engine tariff run.stepsUsed)
    (hpath : ((hydrate tenantId runId >>= f).exec m).Path ok trail) : Afforded tariff d request trail := by
  rw [exec_hydrate_bind] at hpath
  rcases spent_of_call tariff rfl hpath with rfl | ⟨answer, rest, rfl, hspent, htail⟩
  · exact Or.inl rfl
  · match answer, htail with
    | .error e, htail =>
        cases htail
        exact Or.inl hspent
    | .ok none, htail =>
        cases htail
        exact Or.inl hspent
    | .ok (some run), htail =>
        rcases hf run rest htail with hnothing | ⟨wf, hwf, hle⟩
        · exact Or.inl (hspent.trans hnothing)
        · exact Or.inr ⟨run, wf, Or.inl ⟨m, tenantId, runId, rest, rfl⟩, hwf, hspent.trans_le hle⟩

/-- A fire drives the run it created, and no run that was there already. -/
theorem spent_of_creating {request : Request} {run : Run} {wf : Workflow}
    (hdriving : tariff.SpendsFrom m
      (wf.allowance d.engine tariff run.stepsUsed) (request.driving d))
    (hpath : (request.creating d run m).Path ok trail) :
    tariff.spent trail = 0 ∨ ⟨⟨m, .insertRun run⟩, true⟩ ∈ trail ∧
      tariff.spent trail ≤ wf.allowance d.engine tariff run.stepsUsed := by
  rcases spent_of_call tariff rfl hpath with rfl | ⟨inserted, rest, rfl, hspent, htail⟩
  · exact Or.inl rfl
  · cases inserted with
    | true =>
        rw [if_pos rfl] at htail
        exact Or.inr ⟨List.mem_cons_self, hspent.trans_le (spent_of_path hdriving htail)⟩
    | false =>
        rw [if_neg (by simp)] at htail
        rcases spent_of_call tariff rfl htail with rfl | ⟨answer, last, rfl, hrest, htail⟩
        · exact Or.inl hspent
        · have hlast : last = [] := by
            rcases answer with e | _ | existing <;> cases htail <;> rfl
          subst hlast
          exact Or.inl (hspent.trans hrest)

theorem orchestratorFire_spends (tenantId runId : String) (wf : Workflow) (trigger : Trigger)
    (buffer : List Event) (m : Mem) :
    tariff.SpendsFrom m (wf.allowance d.engine tariff m.run.stepsUsed)
      ((Request.orchestratorFire tenantId runId wf trigger buffer).driving d) := by
  intro left hleft
  refine (wp_emit_bind _ _ _ _ _ _).mpr ?_
  generalize hbuffer : m.buffer ++ _ = buffer'
  have hresume : tariff.SpendsFrom ⟨m.run, buffer'⟩
      (wf.allowance d.engine tariff m.run.stepsUsed) (do
        WorkflowEngine.resume d.engine wf
        getRun) := (resume_spends ⟨m.run, buffer'⟩).bind fun _ => spends_getRun
  exact hresume left hleft

theorem apiFire_spends (tenantId runId : String) {wfName : String} {wf : Workflow} (trigger : Trigger)
    (hwf : d.workflowsByName.get? wfName = some wf) (m : Mem) :
    tariff.SpendsFrom m (wf.allowance d.engine tariff m.run.stepsUsed)
      ((Request.apiFire tenantId runId wfName trigger).driving d) := by
  intro left hleft
  refine (Act.wp_ofExcept_bind _ _).mpr ?_
  rw [hwf]
  refine (wp_emit_bind _ _ _ _ _ _).mpr ?_
  generalize hbuffer : m.buffer ++ _ = buffer'
  exact safeResume_spends wf ⟨m.run, buffer'⟩ left hleft

theorem afforded_of_path (request : Request)
    (hpath : ((request.code d).exec request.memory).Path ok trail) : Afforded tariff d request trail := by
  cases request with
  | orchestratorFire tenantId runId wf trigger buffer =>
      rw [exec_orchestratorFire] at hpath
      rcases spent_of_creating (orchestratorFire_spends _ _ wf _ _ _) hpath with hnothing | ⟨hmem, hle⟩
      · exact Or.inl hnothing
      · exact Or.inr ⟨_, wf, Or.inr ⟨_, hmem⟩, rfl, hle⟩
  | apiFire tenantId runId wfName trigger =>
      cases hwf : d.workflowsByName.get? wfName with
      | none =>
          change ((ApiService.fire d tenantId runId wfName trigger).exec _).Path ok trail at hpath
          unfold ApiService.fire at hpath
          rw [Act.exec_ofExcept_bind, hwf] at hpath
          cases hpath
          exact Or.inl rfl
      | some wf =>
          rw [exec_apiFire d trigger hwf] at hpath
          rcases spent_of_call tariff rfl hpath with rfl | ⟨allowed, rest, rfl, hspent, htail⟩
          · exact Or.inl rfl
          cases allowed with
          | false =>
              rw [if_neg (by simp)] at htail
              cases htail
              exact Or.inl hspent
          | true =>
              rw [if_pos rfl] at htail
              rcases spent_of_call tariff rfl htail with rfl | ⟨answer, last, rfl, hrest, hlast⟩
              · exact Or.inl hspent
              have htotal := hspent.trans hrest
              rcases spent_of_creating (apiFire_spends _ _ trigger hwf _) hlast with hnothing | ⟨hmem, hle⟩
              · exact Or.inl (htotal.trans hnothing)
              · exact Or.inr ⟨_, wf, Or.inr ⟨_, List.mem_cons_of_mem _ (List.mem_cons_of_mem _ hmem)⟩, hwf,
                  htotal.trans_le hle⟩
  | orchestratorResume tenantId runId wf buffer =>
      refine afforded_hydrate (fun run rest hrest => Or.inr ⟨wf, rfl, ?_⟩) hpath
      have hresume : tariff.SpendsFrom ⟨run, buffer⟩
          (wf.allowance d.engine tariff run.stepsUsed)
          (if run.status.terminal then return run else do WorkflowEngine.resume d.engine wf; getRun) := by
        split
        · exact (Act.costs_pure run).mono (Nat.zero_le _) _
        · exact (resume_spends _).bind fun _ => spends_getRun
      exact spent_of_path hresume hrest
  | runnerResume tenantId runId =>
      refine afforded_hydrate (fun run rest hrest => ?_) hpath
      rw [Act.exec_ofExcept_bind] at hrest
      cases hwf : d.workflowsById.get? run.workflowId with
      | none =>
          rw [hwf] at hrest
          cases hrest
          exact Or.inl rfl
      | some wf =>
          rw [hwf] at hrest
          have hresume : tariff.SpendsFrom ⟨run, []⟩
              (wf.allowance d.engine.asynchronous tariff run.stepsUsed) (do
                WorkflowEngine.resume d.engine.asynchronous wf
                getRun) := (resume_spends ⟨run, []⟩).bind fun _ => spends_getRun
          rw [allowance_asynchronous] at hresume
          exact Or.inr ⟨wf, hwf, spent_of_path hresume hrest⟩
  | apiResolve tenantId runId approvalId approved decidedBy note =>
      refine afforded_hydrate (fun run rest hrest => ?_) hpath
      rw [Act.exec_perform_bind] at hrest
      rcases spent_of_call tariff rfl hrest with rfl | ⟨answer, last, rfl, hspent, hlast⟩
      · exact Or.inl rfl
      rw [Act.exec_ofExcept_bind] at hlast
      cases answer with
      | error e =>
          cases hlast
          exact Or.inl hspent
      | ok =>
          cases hwf : d.workflowsById.get? run.workflowId with
          | none =>
              rw [hwf] at hlast
              cases hlast
              exact Or.inl hspent
          | some wf =>
              rw [hwf] at hlast
              exact Or.inr ⟨wf, hwf, hspent.trans_le (spent_of_path (safeResume_spends wf ⟨run, []⟩) hlast)⟩
  | apiCancel tenantId runId =>
      have hcancel : tariff.Spends 0 (ApiService.cancel tenantId runId) := by
        refine Act.costs_free_bind (spends_free rfl) fun answer => ?_
        refine Act.costs_free_bind (Act.costs_ofExcept _) fun _ => ?_
        refine Act.costs_free_bind (spends_free rfl) fun loaded => ?_
        refine Act.costs_free_bind (Act.costs_ofExcept _) fun found => ?_
        cases found with
        | none => exact Act.costs_throw _
        | some run => exact Act.costs_free_bind (spends_run _) fun _ => Act.costs_pure run
      exact Or.inl (Nat.le_zero.mp (spent_of_path (hcancel _) hpath))

end Tariff

/-- **The backstop.** In every interleaving of requests, crashes included, and whatever the models, the
tools, the policies and the store answer: a request spends nothing before it has loaded or created a run
and found a definition for it, and then at most the price of that definition's dearest step for each step
that the run has left. -/
theorem spending_bounded {d : Deployment} {redact : Json → Json} {c : System}
    {labels : List (Pool.Label Request Call Call.Res)} {db : DB}
    (hrun : System.Run d redact ⟨[], db⟩ labels c) (tariff : Tariff) {i : Nat} {request : Request}
    (hrequest : (c.threads[i]?).map Prod.fst = some request) :
    tariff.Afforded d request (Pool.trace i labels) :=
  Tariff.afforded_of_path request (hrun.path_of_tag (Nat.zero_le i) hrequest).of_map

/-- A read-only tool, asked again and again until the budget is spent. -/
def pollTool : Tool :=
  { name := "poll"
    connector := "bank" }

def pollWorkflow : Workflow :=
  { name := "polling"
    steps := Dict.ofList [("poll",
      { id := "poll", nodeType := .tool, tool := some "poll", next := some "poll", maxAttempts := 1 })]
    start := "poll"
    maxSteps := 2
    id := "polling" }

def pollDeployment : Deployment :=
  { payDeployment with
    engine :=
      { payDeployment.engine with
        tools :=
          { tools := Dict.ofList [("poll", pollTool)]
            connectors := ["bank"]
            named := by decide
            connected := by decide } }
    workflowsById := Dict.ofList [("polling", pollWorkflow)]
    workflowsByName := Dict.ofList [("polling", pollWorkflow)] }

/-- A fire that runs into its step ceiling. -/
def polled : List (Pool.Label Request Call Call.Res) × System :=
  System.play pollDeployment id (.constant .null)
    (.spawn (.apiFire "acme" "run" "polling" Table.empty) :: List.replicate 17 (.call 0)) ⟨[], DB.empty⟩

/-- One credit for each answer of a model and each execution. -/
def Tariff.unit : Tariff := ⟨fun _ => 1, fun _ => 1⟩

theorem polled_request :
    (polled.2.threads[0]?).map Prod.fst = some (.apiFire "acme" "run" "polling" Table.empty) := by
  rw [← List.getElem?_map, polled, System.play, Pool.play_tags]
  rfl

/-- With a ceiling of two steps the tool acts three times, and the bound is three. -/
theorem spending_bounded_polled :
    (polled.2.shared.runs.rows.map fun row => (row.status, row.stepsUsed)) = [(.failed, 3)] ∧
    Tariff.unit.spent (Pool.trace 0 polled.1) = 3 ∧
    pollWorkflow.allowance pollDeployment.engine Tariff.unit 0 = 3 ∧
    Tariff.unit.Afforded pollDeployment (.apiFire "acme" "run" "polling" Table.empty) (Pool.trace 0 polled.1) :=
  ⟨by decide +kernel, by decide +kernel, by decide +kernel,
    spending_bounded (System.play_run _ _ _ _ _) Tariff.unit polled_request⟩

end Bass
