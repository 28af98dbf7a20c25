import Bass.Graph
import Bass.Proof.Lifecycle
import Bass.Proof.Revisits

/-!
# The engine walks the graph

Retries, compensations, approvals, replays from the ledger, crashes and other drivers of the same run come and
go; what is stored of the run is at every moment a place that some walk of the graph comes to. A driver knows
this of the copy it loaded, each of its steps is a step of the graph, and what it commits is a place again.
-/

namespace Bass

open Interaction EngineM WorkflowEngine

/-! ### What is stored -/

/-- The run stands at a place of a walk. A run that failed may carry what the compensation of its last step has
added. -/
structure Run.Walked (g : Setting) (wf : Workflow) (run : Run) : Prop where
  workflowId : run.workflowId = wf.id
  trigger : run.triggerEvent = g.trigger
  cursor : run.status.terminal = false → run.cursorStep ≠ none
  place : ∃ context, wf.Attains g ⟨run.cursorStep, context⟩ ∧ (run.context = context ∨ run.status = .failed ∧
    ∃ name step comp next, run.cursorStep = some name ∧ wf.steps.get? name = some step ∧
      compensation wf step = some comp ∧ comp.Leaves g context next run.context)

structure DB.Walked (g : Setting) (wf : Workflow) (db : DB) : Prop where
  run : ∀ row, db.runs.find? g.runId = some row → row.toRun.Walked g wf
  effects : ∀ effect ∈ db.toolEffects.rows, g.outcomes.tool effect.idempotencyKey effect.resultJson

/-- What a call owes to the walk: it commits a place of it, records an outcome of it, and executes the tool of a
step for the run only on what the step asks. -/
def Call.Walks (d : Deployment) (g : Setting) (wf : Workflow) : Call → Prop
  | ⟨_, .insertRun run⟩ | ⟨_, .checkpoint run _⟩ => run.id = g.runId → run.Walked g wf
  | ⟨_, .recordEffect _ key _ _ _ result⟩ => g.outcomes.tool key result
  | ⟨m, .execute (.step stepId) name sent⟩ => m.run.id = g.runId → ∃ tool args,
      d.engine.tools.get name = .ok tool ∧ wf.Asks g stepId name args ∧
        sent = sentArgs tool args (ledgerKey m.run.id stepId name)
  | _ => True

/-- The answer is among the outcomes. -/
def Outcomes.Admits (outcomes : Outcomes) : (call : Call) → call.Res → Prop
  | ⟨m, .execute (.step stepId) name _⟩, .ok result => outcomes.tool (ledgerKey m.run.id stepId name) result
  | ⟨_, .respond agent task _⟩, .ok (resp, _) =>
      resp.type ≠ some "tool_calls" → ∀ output, resp.output = some output → outcomes.agent agent task output
  | _, _ => True

/-- So is what the ledger gives. -/
def Outcomes.Hears (outcomes : Outcomes) : (call : Call) → call.Res → Prop
  | ⟨_, .getEffect _ key⟩, .ok cached => cached ≠ .null → outcomes.tool key cached
  | call, answer => outcomes.Admits call answer

/-- What the call records is an outcome. -/
def Op.Records (outcomes : Outcomes) : Op → Prop
  | .recordEffect _ key _ _ _ result => outcomes.tool key result
  | _ => True

section Store

variable {d : Deployment} {g : Setting} {wf : Workflow} {policy : PolicyEngine} {redact : Json → Json}
  {db db' : DB}

theorem walked_canceled {row : RunRow} (h : row.toRun.Walked g wf) (hrunning : row.status.terminal = false)
    (now : ℚ) : ({ row with status := .canceled, updatedAt := now } : RunRow).toRun.Walked g wf := by
  obtain ⟨context, hattains, hcontext⟩ := h.place
  refine ⟨h.workflowId, h.trigger, nofun, context, hattains, Or.inl ?_⟩
  rcases hcontext with hsame | ⟨hfailed, -⟩
  · exact hsame
  · have hstatus : row.status = .failed := hfailed
    rw [hstatus] at hrunning
    cases hrunning

theorem walked_writeRow {run : Run} {row : RunRow} (h : run.Walked g wf) (hrow : row.toRun.Walked g wf)
    (now : ℚ) : (run.writeRow now row).toRun.Walked g wf :=
  ⟨hrow.workflowId, hrow.trigger, h.cursor, h.place⟩

/-- A call that does what it owes leaves the stored run at a place of a walk. -/
theorem walked_of_step {m : Mem} {op : Op} {answer : op.Res} (h : op.step policy redact db answer db')
    (howed : Call.Walks d g wf ⟨m, op⟩) (hwalked : db.Walked g wf) : db'.Walked g wf := by
  constructor
  · intro row' hrow'
    cases hfind : db.runs.find? g.runId with
    | none =>
        rcases absent_of_step h hfind with hnone | ⟨run, now, heq, hid, hnew⟩
        · cases hnone.symm.trans hrow'
        · cases heq
          obtain rfl := Option.some.inj (hrow'.symm.trans hnew)
          have hrun := (howed : run.id = g.runId → run.Walked g wf) hid
          exact ⟨hrun.workflowId, hrun.trigger, hrun.cursor, hrun.place⟩
    | some row =>
        have hold := hwalked.run row hfind
        rcases runRow_of_step h hfind with hsame | ⟨run, events, now, rfl, hid, -, hnew⟩ |
          ⟨tenantId, now, rfl, hrunning, hnew⟩
        · obtain rfl := Option.some.inj (hrow'.symm.trans hsame)
          exact hold
        · obtain rfl := Option.some.inj (hrow'.symm.trans hnew)
          exact walked_writeRow (howed hid) hold now
        · obtain rfl := Option.some.inj (hrow'.symm.trans hnew)
          exact walked_canceled hold hrunning now
  · intro effect hmem
    rcases effects_of_step h with hsame | ⟨tenantId, key, runId, stepId, tool, result, now, rfl, hinsert⟩
    · rw [hsame] at hmem
      exact hwalked.effects effect hmem
    · rw [hinsert] at hmem
      rcases Table.mem_insert hmem with hold | rfl
      · exact hwalked.effects effect hold
      · exact howed

end Store

/-! ### A step is a step of the graph -/

/-- What a run in memory says of its walk. -/
structure View where
  id : String
  workflowId : String
  trigger : Json
  cursor : Option String
  context : Context

def Run.view (run : Run) : View :=
  ⟨run.id, run.workflowId, run.triggerEvent, run.cursorStep, run.context⟩

/-- The run is at a step that a walk comes to. -/
structure View.Stands (g : Setting) (wf : Workflow) (v : View) : Prop where
  workflowId : v.workflowId = wf.id
  trigger : v.trigger = g.trigger
  cursor : v.cursor ≠ none
  attains : wf.Attains g ⟨v.cursor, v.context⟩

theorem View.Stands.walked {g : Setting} {wf : Workflow} {run : Run} (h : run.view.Stands g wf) :
    run.Walked g wf :=
  ⟨h.workflowId, h.trigger, fun _ => h.cursor, run.context, h.attains, Or.inl rfl⟩

theorem Run.Walked.stands {g : Setting} {wf : Workflow} {run : Run} (h : run.Walked g wf)
    (hrunning : run.status.terminal = false) : run.view.Stands g wf := by
  obtain ⟨context, hattains, hcontext⟩ := h.place
  refine ⟨h.workflowId, h.trigger, h.cursor hrunning, ?_⟩
  rcases hcontext with hsame | ⟨hfailed, -⟩
  · rwa [← hsame] at hattains
  · rw [hfailed] at hrunning
    cases hrunning

/-- What a request owes while the stored run stands at a place of a walk. -/
def walkSpec (d : Deployment) (redact : Json → Json) (g : Setting) (wf : Workflow) :
    Spec Call Call.Res DB where
  step db call answer db' :=
    (db.Walked g wf ∧ g.outcomes.Admits call answer) ∧ Call.step d.engine.policy redact db call answer db'
  rely _ _ := True
  guar _ call := call.Walks d g wf

/-- A driver in a step with the view `v` of its run. -/
abbrev Sees {σ : Type} (v : View) (K : σ → Prop) (m : Mem) (s : σ) : Prop := m.run.view = v ∧ K s

/-- A step that the run was entered into with the view `v` leads on to `next`. -/
def LeftBy (g : Setting) (step : Step) (v : View) (next : Option String) (m : Mem) : Prop :=
  m.run.view = { v with context := m.run.context } ∧
    (v.id = g.runId → v.trigger = g.trigger → step.Leaves g v.context next m.run.context)

/-- A walk asks for the tool of the step, if it is a tool step, on what its arguments resolve to. -/
def View.AsksFor (g : Setting) (wf : Workflow) (v : View) (step : Step) : Prop :=
  v.id = g.runId → ∀ tool args, step.nodeType = .tool → step.tool = some tool →
    resolve step.args v.context = .ok args → wf.Asks g step.id tool args

/-- A specification that a driver meets in the steps of which `asked` is known: it hears outcomes only, records
them, executes what such a step asks, commits the place where it stands, and keeps `K` of the shared state. -/
structure Traced {σ : Type} (d : Deployment) (g : Setting) (S : Spec Call Call.Res σ) (asked : Step → Prop)
    (v : View) (K : σ → Prop) : Prop where
  rely : ∀ s s₁, K s → S.rely s s₁ → K s₁
  hears : ∀ s m (op : Op) answer s', K s → op.InStep → S.step s ⟨m, op⟩ answer s' →
    K s' ∧ g.outcomes.Hears ⟨m, op⟩ answer
  plain : ∀ s m (op : Op), op.Plain → op.Records g.outcomes → S.guar s ⟨m, op⟩
  execute : ∀ s m step name tool args, m.run.view = v → asked step → step.nodeType = .tool →
    step.tool = some name → d.engine.tools.get name = .ok tool → resolve step.args v.context = .ok args →
      S.guar s ⟨m, .execute (.step step.id) name (sentArgs tool args (ledgerKey v.id step.id name))⟩
  checkpoint : ∀ s m, m.run.view = v → K s → S.guar s ⟨m, .checkpoint m.run m.buffer⟩ ∧
    ∀ answer s', S.step s ⟨m, .checkpoint m.run m.buffer⟩ answer s' → K s'

section Steps

variable {σ : Type} {d : Deployment} {g : Setting} {S : Spec Call Call.Res σ} {asked : Step → Prop}
  {cfg : EngineConfig} {v : View} {K : σ → Prop} {m : Mem} {s : σ}

theorem sees_modifyRun {f : Run → Run} (hf : ∀ run, (f run).view = run.view) :
    Act.Keeps S (Sees v K) (modifyRun f) :=
  keeps_modifyRun fun m _ h => ⟨(hf m.run).trans h.1, h.2⟩

theorem sees_emit (type : String) (payload : Json) (stepId : Option String) (costUsd : ℚ) (actor : String) :
    Act.Keeps S (Sees v K) (emit type payload stepId costUsd actor) :=
  Act.keeps_modify fun _ _ h => h

namespace Traced

variable (ht : Traced d g S asked v K)

include ht

/-- A plain call answers with an outcome. -/
theorem perform_bind {α : Type} (op : Op) (hplain : op.Plain) (hrecords : op.Records g.outcomes)
    {f : op.Res → EngineM α} {Q : α → Mem → σ → Prop} {E : Exc → Mem → σ → Prop} (h : Sees v K m s)
    (hf : ∀ answer s', g.outcomes.Hears ⟨m, op⟩ answer → Sees v K m s' → Act.wp S (f answer) Q E m s') :
    Act.wp S (perform op >>= f) Q E m s := by
  refine (Act.wp_perform_bind _ _).mpr fun s₁ hrely => ⟨ht.plain s₁ m op hplain hrecords, fun answer s' hs => ?_⟩
  obtain ⟨hkept, hheard⟩ := ht.hears s₁ m op answer s' (ht.rely s s₁ h.2 hrely) hplain.inStep hs
  exact hf answer s' hheard ⟨h.1, hkept⟩

theorem keeps_perform {op : Op} (hplain : op.Plain) (hrecords : op.Records g.outcomes) :
    Act.Keeps S (Sees v K) (perform op) := by
  refine Act.keeps_perform fun m s h s₁ hrely => ⟨ht.plain s₁ m op hplain hrecords, fun answer s' hs => ?_⟩
  exact ⟨h.1, (ht.hears s₁ m op answer s' (ht.rely s s₁ h.2 hrely) hplain.inStep hs).1⟩

theorem execCall (agent : Agent) (call : ToolCall) :
    Act.Keeps S (Sees v K) (AgentRuntime.execCall cfg agent call) := by
  refine Act.keeps_bind (Act.keeps_ofExcept _) fun name => ?_
  refine Act.keeps_bind (Act.keeps_ofExcept _) fun tool => ?_
  refine Act.keeps_bind keeps_getRun fun run => ?_
  refine Act.keeps_bind (ht.keeps_perform trivial trivial) fun decision => ?_
  refine Act.keeps_bind (sees_emit _ _ _ _ _) fun _ => ?_
  split
  · refine Act.keeps_bind (ht.keeps_perform trivial trivial) fun answer => ?_
    refine Act.keeps_bind (Act.keeps_ofExcept _) fun result => ?_
    refine Act.keeps_bind (sees_modifyRun fun _ => rfl) fun _ => ?_
    exact Act.keeps_bind (sees_emit _ _ _ _ _) fun _ => Act.keeps_pure _
  · exact Act.keeps_bind (sees_emit _ _ _ _ _) fun _ => Act.keeps_pure _

theorem execCalls (agent : Agent) (calls : List ToolCall) :
    Act.Keeps S (Sees v K) (AgentRuntime.execCalls cfg agent calls) := by
  induction calls with
  | nil => exact Act.keeps_pure []
  | cons call rest ih =>
      exact Act.keeps_bind (ht.execCall agent call) fun result =>
        Act.keeps_bind ih fun results => Act.keeps_pure (result :: results)

/-- What the loop returns is an outcome of its agent for the task. -/
theorem loop (agent : Agent) (task : Args) (n : Nat) (scratch : Scratch) (h : Sees v K m s) :
    Act.wp S (AgentRuntime.loop cfg agent task n scratch)
      (fun output m s => Sees v K m s ∧ g.outcomes.agent agent task output) (fun _ => Sees v K) m s := by
  induction n generalizing scratch m s with
  | zero => exact h
  | succ n ih =>
      refine ht.perform_bind (.respond agent task scratch) trivial trivial h fun answer s' hheard h' => ?_
      refine (Act.wp_ofExcept_bind _ _).mpr ?_
      cases answer with
      | error e => exact h'
      | ok out =>
          obtain ⟨resp, scratch'⟩ := out
          have hadmits : resp.type ≠ some "tool_calls" →
              ∀ output, resp.output = some output → g.outcomes.agent agent task output := hheard
          refine (wp_modifyRun_bind _ _).mpr ((Act.wp_ofExcept_bind _ _).mpr ?_)
          cases htype : resp.type with
          | none => exact h'
          | some kind =>
              refine (wp_emit_bind _ _ _ _ _ _).mpr ?_
              split
              · refine (Act.wp_ofExcept_bind _ _).mpr ?_
                cases resp.calls with
                | none => exact h'
                | some calls =>
                    refine (Act.wp_bind _ _).mpr (Act.wp_mono _ (fun results m'' s'' h'' => ih _ h'')
                      (fun _ _ _ h'' => h'') (ht.execCalls agent calls _ s' ?_))
                    exact h'
              · rename_i hkind
                refine (Act.wp_ofExcept_bind _ _).mpr ?_
                cases houtput : resp.output with
                | none => exact h'
                | some output =>
                    have hfinal : resp.type ≠ some "tool_calls" := fun heq =>
                      hkind (Option.some.inj (htype.symm.trans heq))
                    exact (wp_emit_bind _ _ _ _ _ _).mpr ⟨h', hadmits hfinal output houtput⟩

theorem runAgent (hagents : cfg.agents = g.agents) {step : Step} (hnode : step.nodeType = .agent)
    (h : Sees v K m s) :
    Act.wp S (runAgent cfg step) (fun next m s => LeftBy g step v next m ∧ K s) (fun _ => Sees v K) m s := by
  unfold WorkflowEngine.runAgent
  split
  · exact h
  · rename_i agent hagent
    refine (wp_getRun_bind _).mpr ((Act.wp_ofExcept_bind _ _).mpr ?_)
    cases hargs : resolve step.args m.run.context with
    | error e => exact h
    | ok args =>
        refine (Act.wp_bind _ _).mpr (Act.wp_mono _ (fun output m' s' hout => ?_) (fun _ _ _ h' => h')
          (ht.loop agent _ _ _ h))
        obtain ⟨⟨hview, hkept⟩, houtput⟩ := hout
        refine (wp_modifyRun_bind _ _).mpr ⟨⟨?_, fun _ htrigger => ?_⟩, hkept⟩
        · rw [← hview]
          rfl
        · rw [hagents] at hagent
          have hcontext : m'.run.context = v.context := congrArg View.context hview
          have htask : step.task g.trigger v.context =
              .ok (if args.rows.isEmpty then Dict.ofList [("email", m.run.triggerEvent)] else args) := by
            have hsame : m.run.triggerEvent = g.trigger := (congrArg View.trigger h.1).trans htrigger
            have hentered : m.run.context = v.context := congrArg View.context h.1
            rw [Step.task, ← hentered, hargs, hsame]
            rfl
          have hleaves := Step.Leaves.acts (.agent hnode hagent htask houtput)
          rwa [← hcontext] at hleaves ⊢

/-- A tool that acts gives one of its outcomes, and owes no more than to record it. -/
theorem act {step : Step} {tool : Tool} {name key : String} {args : Args} (hasked : asked step)
    (hfound : d.engine.tools.get name = .ok tool) (hnode : step.nodeType = .tool) (htool : step.tool = some name)
    (hargs : resolve step.args v.context = .ok args) (hkey : key = ledgerKey v.id step.id name)
    (h : Sees v K m s) :
    Act.wp S (act step tool name args key) (fun next m s => LeftBy g step v next m ∧ K s)
      (fun _ => Sees v K) m s := by
  refine (Act.wp_perform_bind _ _).mpr fun s₁ hrely => ⟨?_, fun answer s₂ hs => ?_⟩
  · rw [hkey]
    exact ht.execute s₁ m step name tool args h.1 hasked hnode htool hfound hargs
  obtain ⟨hkept, hheard⟩ := ht.hears s₁ m _ answer s₂ (ht.rely s s₁ h.2 hrely) trivial hs
  refine (Act.wp_ofExcept_bind _ _).mpr ?_
  cases answer with
  | error e => exact ⟨h.1, hkept⟩
  | ok result =>
      have hid : m.run.id = v.id := congrArg View.id h.1
      have hadmits : g.outcomes.tool (ledgerKey m.run.id step.id name) result := hheard
      rw [hid, ← hkey] at hadmits
      have hbooked : ∀ m' s', Sees v K m' s' → Act.wp S (do
          modifyRun fun run => { run with costUsd := run.costUsd + tool.costUsd }
          emit "tool_result" (.obj [("tool", .str name), ("result", result)]) (some step.id) tool.costUsd
          modifyRun fun run => { run with context := Dict.set run.context step.id result }
          return step.next) (fun next m s => LeftBy g step v next m ∧ K s) (fun _ => Sees v K) m' s' := by
        rintro m' s' ⟨hview, hkept'⟩
        refine (wp_modifyRun_bind _ _).mpr ((wp_emit_bind _ _ _ _ _ _).mpr ((wp_modifyRun_bind _ _).mpr ?_))
        refine ⟨⟨by rw [← hview]; rfl, fun hrun _ => ?_⟩, hkept'⟩
        have hcontext : m'.run.context = v.context := congrArg View.context hview
        rw [hkey, hrun] at hadmits
        have hleaves := Step.Leaves.acts (.tool hnode htool hargs hadmits)
        rwa [← hcontext] at hleaves ⊢
      refine (wp_getRun_bind _).mpr ?_
      split
      · exact ht.perform_bind (.recordEffect _ _ _ _ _ _) trivial hadmits ⟨h.1, hkept⟩ fun _ s' _ h' => hbooked m s' h'
      · exact hbooked m s₂ ⟨h.1, hkept⟩

/-- What the ledger holds is an outcome. -/
theorem cachedEffect (tool : Tool) (key : String) (h : Sees v K m s) :
    Act.wp S (cachedEffect tool key)
      (fun cached m s => Sees v K m s ∧ (cached ≠ .null → g.outcomes.tool key cached)) (fun _ => Sees v K) m s := by
  unfold WorkflowEngine.cachedEffect
  split
  · refine (wp_getRun_bind _).mpr (ht.perform_bind (.getEffect _ _) trivial trivial h fun answer s' hheard h' => ?_)
    refine (Act.wp_ofExcept _).mpr ?_
    cases answer with
    | error e => exact h'
    | ok cached => exact ⟨h', hheard⟩
  · exact ⟨h, fun hcached => absurd rfl hcached⟩

theorem keeps_checkpoint : Act.Keeps S (Sees v K) EngineM.checkpoint := by
  refine keeps_checkpoint_call fun m s h s₁ hrely => ?_
  obtain ⟨hguar, hstep⟩ := ht.checkpoint s₁ m h.1 (ht.rely s s₁ h.2 hrely)
  exact ⟨hguar, fun answer s' hs => ⟨⟨h.1, hstep answer s' hs⟩, h.1, hstep answer s' hs⟩⟩

theorem awaitApproval (step : Step) (approvers : List String) (tool : String) (args : Args) :
    Act.Keeps S (Sees v K) (awaitApproval cfg step approvers tool args) := by
  have hawaits : ∀ (m m' : Mem) s, Awaits m m' → Sees v K m s → Sees v K m' s := by
    rintro m m' s h ⟨hview, hkept⟩
    refine ⟨?_, hkept⟩
    rw [← hview, Run.view, Run.view, h.id, h.workflowId, h.triggerEvent, h.cursorStep, h.context]
  have hasking : ∀ op : Op, op.Asking → Act.Keeps S (Sees v K) (perform op) := by
    intro op hop
    refine ht.keeps_perform hop.plain ?_
    cases op <;> trivial
  exact keeps_awaitApproval hawaits hasking (savedIn_of_keeps ht.keeps_checkpoint _) step approvers tool args

theorem gate (step : Step) (tool : Tool) (name : String) (args : Args) :
    Act.Keeps S (Sees v K) (gate cfg step tool name args) := by
  refine Act.keeps_bind keeps_getRun fun run => ?_
  refine Act.keeps_bind (ht.keeps_perform trivial trivial) fun decision => ?_
  refine Act.keeps_bind (sees_emit _ _ _ _ _) fun _ => ?_
  split
  · exact Act.keeps_pure ()
  · exact Act.keeps_throw _
  · refine Act.keeps_bind (ht.awaitApproval _ _ _ _) fun granted => ?_
    split
    · exact Act.keeps_pure ()
    · exact Act.keeps_throw _

theorem runTool (htools : cfg.tools = d.engine.tools) {step : Step} (hasked : asked step)
    (hnode : step.nodeType = .tool) (h : Sees v K m s) :
    Act.wp S (runTool cfg step) (fun next m s => LeftBy g step v next m ∧ K s) (fun _ => Sees v K) m s := by
  unfold WorkflowEngine.runTool
  split
  · exact h
  · rename_i name htool
    refine (Act.wp_ofExcept_bind _ _).mpr ?_
    cases hfound : cfg.tools.get name with
    | error e => exact h
    | ok tool =>
        rw [htools] at hfound
        refine (wp_getRun_bind _).mpr ((Act.wp_ofExcept_bind _ _).mpr ?_)
        have hid : m.run.id = v.id := congrArg View.id h.1
        have hentered : m.run.context = v.context := congrArg View.context h.1
        rw [hid, hentered]
        cases hargs : resolve step.args v.context with
        | error e => exact h
        | ok args =>
            refine (Act.wp_bind _ _).mpr (Act.wp_mono _ (fun cached m' s' hout => ?_) (fun _ _ _ h' => h')
              (ht.cachedEffect tool _ h))
            obtain ⟨hsees, hcached⟩ := hout
            split
            · exact (Act.wp_bind _ _).mpr (Act.wp_mono _
                (fun _ m'' s'' h' => ht.act hasked hfound hnode htool hargs rfl h')
                (fun _ _ _ h' => h') (ht.gate step tool name args m' s' hsees))
            · rename_i hsome
              obtain ⟨hview, hkept⟩ := hsees
              have hrecorded := hcached fun hnull => hsome (Json.isNone_iff.mpr hnull)
              refine (wp_emit_bind _ _ _ _ _ _).mpr ((wp_modifyRun_bind _ _).mpr ⟨⟨?_, fun hrun _ => ?_⟩, hkept⟩)
              · rw [← hview]
                rfl
              · have hcontext : m'.run.context = v.context := congrArg View.context hview
                rw [hrun] at hrecorded
                have hleaves := Step.Leaves.acts (.tool hnode htool hargs hrecorded)
                rwa [← hcontext] at hleaves ⊢

/-- A step that returns is a step of the graph, and one that raises leaves the run where it was. -/
theorem runStep (hagents : cfg.agents = g.agents) (htools : cfg.tools = d.engine.tools) {step : Step}
    (hasked : asked step) (h : Sees v K m s) :
    Act.wp S (runStep cfg step) (fun next m s => LeftBy g step v next m ∧ K s) (fun _ => Sees v K) m s := by
  have hleft : ∀ m' : Mem, m'.run.view = v → ∀ next, step.Leaves g v.context next v.context →
      LeftBy g step v next m' ∧ K s := by
    rintro m' rfl next hleaves
    exact ⟨⟨rfl, fun _ _ => hleaves⟩, h.2⟩
  unfold WorkflowEngine.runStep
  cases hnode : step.nodeType with
  | agent => exact ht.runAgent hagents hnode h
  | tool => exact ht.runTool htools hasked hnode h
  | branch =>
      refine (wp_getRun_bind _).mpr ((Act.wp_ofExcept_bind _ _).mpr ?_)
      have hentered : m.run.context = v.context := congrArg View.context h.1
      rw [hentered]
      cases hchoice : chooseBranch v.context step.branches with
      | error e => exact h
      | ok choice =>
          have hleaves := Step.Leaves.branches (g := g) hnode hchoice
          cases choice with
          | none => exact hleft m h.1 _ hleaves
          | some goto => exact (wp_emit_bind _ _ _ _ _ _).mpr (hleft _ h.1 _ hleaves)
  | approval =>
      refine (Act.wp_bind _ _).mpr (Act.wp_mono _ (fun granted m' s' h' => ?_) (fun _ _ _ h' => h')
        (ht.awaitApproval step step.approvers "" Table.empty m s h))
      split
      · obtain ⟨hview, hkept⟩ := h'
        subst hview
        exact ⟨⟨rfl, fun _ _ => .approves hnode⟩, hkept⟩
      · exact h'
  | terminate => exact hleft m h.1 _ (.terminates hnode)
  | other name => exact h

/-- What a compensation leaves: the run as it was, or with the output of the compensating step. -/
theorem compensate (hagents : cfg.agents = g.agents) (htools : cfg.tools = d.engine.tools) {wf : Workflow}
    {step : Step} (hasked : ∀ comp, compensation wf step = some comp → asked comp) (h : Sees v K m s) :
    Act.wp S (compensate cfg wf step)
      (fun _ m s => (m.run.view = v ∨ ∃ comp next, compensation wf step = some comp ∧ LeftBy g comp v next m) ∧ K s)
      (fun _ _ _ => True) m s := by
  unfold WorkflowEngine.compensate
  split
  · exact ⟨Or.inl h.1, h.2⟩
  · rename_i comp hcomp
    refine (wp_emit_bind _ _ _ _ _ _).mpr ((Act.wp_tryCatch _ _).mpr ((Act.wp_bind _ _).mpr ?_))
    exact Act.wp_mono _ (fun next m' s' hleft => ⟨Or.inr ⟨comp, next, hcomp, hleft.1⟩, hleft.2⟩)
      (fun e m' s' h' => ⟨Or.inl h'.1, h'.2⟩) (ht.runStep hagents htools (hasked comp hcomp) h)

end Traced

/-- A driver that stands at a place of a walk does what it owes to the walk. -/
theorem walk_traced {redact : Json → Json} {wf : Workflow} (hstands : v.id = g.runId → v.Stands g wf) :
    Traced d g (walkSpec d redact g wf) (v.AsksFor g wf) v fun _ => True where
  rely := fun _ _ _ _ => trivial
  hears := by
    rintro db m op answer db' - hop ⟨⟨hwalked, hadmits⟩, hs⟩
    refine ⟨trivial, ?_⟩
    cases op with
    | getEffect tenantId key =>
        cases answer with
        | error e => trivial
        | ok cached =>
            intro hcached
            obtain ⟨row, hrow, rfl⟩ := row_of_getEffect hs.1.symm hcached
            have houtcome := hwalked.effects row (Table.mem_of_find? hrow)
            rwa [Table.key_of_find? hrow] at houtcome
    | _ => exact hadmits
  plain := by
    intro db m op hplain hrecords
    cases op with
    | recordEffect tenantId key runId stepId tool result => exact hrecords
    | execute caller name args =>
        cases caller with
        | agent name => trivial
        | step stepId => exact hplain.elim
    | insertRun run | checkpoint run events => exact hplain.elim
    | _ => trivial
  execute := by
    rintro db m step name tool args rfl hasks hnode htool hfound hargs hid
    exact ⟨tool, args, hfound, hasks hid name args hnode htool hargs, rfl⟩
  checkpoint := by
    rintro db m rfl -
    exact ⟨fun hid => (hstands hid).walked, fun _ _ _ => trivial⟩

end Steps

/-! ### A drive -/

/-- A drive by the definition `wf'` before the step that comes next. -/
def Heads (g : Setting) (wf wf' : Workflow) (next : Option String) (m : Mem) (_ : DB) : Prop :=
  ∀ name, next = some name → m.run.id = g.runId →
    wf' = wf ∧ m.run.cursorStep = some name ∧ m.run.view.Stands g wf

/-- A drive by the definition `wf'` in the step. -/
def View.Enters (g : Setting) (wf wf' : Workflow) (step : Step) (v : View) : Prop :=
  v.id = g.runId → wf' = wf ∧ v.Stands g wf ∧ ∃ name, v.cursor = some name ∧ wf.steps.get? name = some step

section Drive

variable {d : Deployment} {redact : Json → Json} {g : Setting} {wf wf' : Workflow} {cfg : EngineConfig}
  {v : View} {m : Mem} {db : DB} {step : Step}

/-- A step of the graph leads from a place of a walk to a place of the walk. -/
theorem LeftBy.attains {next : Option String} (h : LeftBy g step v next m) (hentered : v.Enters g wf wf' step)
    (hid : m.run.id = g.runId) :
    wf' = wf ∧ m.run.workflowId = wf.id ∧ m.run.triggerEvent = g.trigger ∧ wf.Attains g ⟨next, m.run.context⟩ := by
  obtain ⟨hview, hleaves⟩ := h
  have hrun : v.id = g.runId := (congrArg View.id hview).symm.trans hid
  obtain ⟨hwf, hstands, name, hcursor, hstep⟩ := hentered hrun
  refine ⟨hwf, (congrArg View.workflowId hview).trans hstands.workflowId,
    (congrArg View.trigger hview).trans hstands.trigger, ?_⟩
  have hattains := hstands.attains
  rw [hcursor] at hattains
  exact hattains.step hstep (hleaves hrun hstands.trigger)

theorem walks_failRun {reason detail : String}
    (hwalked : m.run.id = g.runId → ({ m.run with status := .failed } : Run).Walked g wf) :
    Act.wp (walkSpec d redact g wf) (failRun reason detail) (fun _ _ _ => True) (fun _ _ _ => True) m db := by
  refine (wp_modifyRun_bind _ _).mpr ((wp_emit_bind _ _ _ _ _ _).mpr (wp_checkpoint.mpr fun _ _ => ⟨hwalked, ?_⟩))
  intro answer _ _
  cases answer <;> trivial

/-- The last commit of a run that has failed in a step, compensated for or not. -/
theorem walked_of_compensated (hentered : v.Enters g wf wf' step)
    (h : m.run.view = v ∨ ∃ comp next, compensation wf' step = some comp ∧ LeftBy g comp v next m)
    (hid : m.run.id = g.runId) : ({ m.run with status := .failed } : Run).Walked g wf := by
  rcases h with hsees | ⟨comp, next, hcomp, hview, hleaves⟩
  · subst hsees
    obtain ⟨-, hstands, -⟩ := hentered hid
    exact ⟨hstands.workflowId, hstands.trigger, nofun, m.run.context, hstands.attains, Or.inl rfl⟩
  · have hrun : v.id = g.runId := (congrArg View.id hview).symm.trans hid
    obtain ⟨rfl, hstands, name, hcursor, hstep⟩ := hentered hrun
    have hsame : m.run.cursorStep = v.cursor := congrArg View.cursor hview
    refine ⟨(congrArg View.workflowId hview).trans hstands.workflowId,
      (congrArg View.trigger hview).trans hstands.trigger, nofun, v.context, ?_, Or.inr ⟨rfl, ?_⟩⟩
    · have hattains := hstands.attains
      rwa [← hsame] at hattains
    · exact ⟨name, step, comp, next, hsame.trans hcursor, hstep, hcomp, hleaves hrun hstands.trigger⟩

theorem walks_advance {next : Option String} (hentered : v.Enters g wf wf' step)
    (h : LeftBy g step v next m) :
    Act.wp (walkSpec d redact g wf) (advance next) (fun _ => Heads g wf wf' next) (fun _ _ _ => True) m db := by
  refine (wp_modifyRun_bind _ _).mpr ?_
  cases next with
  | none =>
      refine (wp_modifyRun_bind _ _).mpr ((wp_modifyRun_bind _ _).mpr ((wp_getRun_bind _).mpr
        ((wp_emit_bind _ _ _ _ _ _).mpr (wp_checkpoint.mpr fun db₁ _ => ⟨fun hid => ?_, ?_⟩))))
      · obtain ⟨-, hworkflow, htrigger, hattains⟩ := h.attains hentered hid
        exact ⟨hworkflow, htrigger, nofun, m.run.context, hattains, Or.inl rfl⟩
      · intro answer db₂ _
        cases answer with
        | error e => trivial
        | ok value => nofun
  | some name =>
      refine wp_checkpoint.mpr fun db₁ _ => ⟨fun hid => ?_, ?_⟩
      · obtain ⟨-, hworkflow, htrigger, hattains⟩ := h.attains hentered hid
        exact ⟨hworkflow, htrigger, fun _ => nofun, m.run.context, hattains, Or.inl rfl⟩
      · intro answer db₂ _
        cases answer with
        | error e => trivial
        | ok value =>
            intro name' hname hid
            obtain ⟨hwf, hworkflow, htrigger, hattains⟩ := h.attains hentered hid
            exact ⟨hwf, hname, hworkflow, htrigger, nofun, hattains⟩

/-- Each edge of the engine's loop is a step of the graph, or leaves the run where it was. -/
theorem walk_outline (hagents : cfg.agents = g.agents) (htools : cfg.tools = d.engine.tools) :
    Outline cfg wf' (walkSpec d redact g wf) (Heads g wf wf') (fun step m _ => m.run.view.Enters g wf wf' step)
      (fun step next m _ => ∃ v : View, v.Enters g wf wf' step ∧ LeftBy g step v next m)
      (fun step _ m _ => m.run.view.Enters g wf wf' step) (fun _ _ _ => True) where
  unknown := fun _ _ _ _ _ => trivial
  budget := by
    intro name step violation m db hstep hhead hviolation
    refine walks_failRun fun hid => ?_
    obtain ⟨-, -, hstands⟩ := hhead name rfl hid
    exact ⟨hstands.workflowId, hstands.trigger, nofun, m.run.context, hstands.attains, Or.inl rfl⟩
  enter := by
    intro name step m db hstep hhead _
    refine (wp_modifyRun_bind _ _).mpr ((wp_emit_bind _ _ _ _ _ _).mpr ((Act.wp_perform _).mpr fun _ _ => ?_))
    refine ⟨trivial, fun _ _ _ hid => ?_⟩
    obtain ⟨rfl, hcursor, hstands⟩ := hhead name rfl hid
    exact ⟨rfl, ⟨hstands.workflowId, hstands.trigger, hstands.cursor, hstands.attains⟩, name, hcursor, hstep⟩
  run := by
    intro step m db _ _ hentered
    have hasks : m.run.view.AsksFor g wf step := by
      intro hid tool args hnode htool hargs
      obtain ⟨-, hstands, name, hcursor, hstep⟩ := hentered hid
      exact .step (hcursor ▸ hstands.attains) hstep hnode htool hargs
    refine Act.wp_mono _ (fun next m' db' hleft => ⟨m.run.view, hentered, hleft.1⟩) (fun e m' db' hsees => ?_)
      ((walk_traced fun hid => (hentered hid).2.1).runStep hagents htools hasks ⟨rfl, trivial⟩)
    exact (congrArg (View.Enters g wf wf' step) hsees.1).mpr hentered
  retry := fun _ _ _ _ _ _ _ h => ⟨h, h⟩
  exhausted := fun _ _ _ h => h
  denied := by
    intro step e m db _ _ hentered
    exact walks_failRun (walked_of_compensated hentered (Or.inl rfl))
  failed := by
    intro step e m db _ _ hentered
    have hasks : ∀ comp, compensation wf' step = some comp → m.run.view.AsksFor g wf comp := by
      intro comp hcomp hid tool args hnode htool hargs
      obtain ⟨rfl, hstands, name, hcursor, hstep⟩ := hentered hid
      exact .compensation (hcursor ▸ hstands.attains) hstep hcomp hnode htool hargs
    refine (Act.wp_bind _ _).mpr (Act.wp_mono _ (fun _ m' db' hcompensated => ?_) (fun _ _ _ _ => trivial)
      ((walk_traced fun hid => (hentered hid).2.1).compensate hagents htools hasks ⟨rfl, trivial⟩))
    exact walks_failRun (walked_of_compensated hentered hcompensated.1)
  other := fun _ _ _ _ _ _ _ _ => trivial
  finish := by
    rintro step next m db - ⟨v, hentered, hleft⟩
    exact walks_advance hentered hleft

end Drive

/-! ### A request -/

/-- A request for the run goes by the one definition, and starts the run, if it does, for the one trigger. -/
def Request.Serves (d : Deployment) (wf : Workflow) (runId : String) (trigger : Json) (request : Request) : Prop :=
  request.runId = runId → (∀ wf', request.definition d wf.id = some wf' → wf' = wf) ∧
    ∀ run, request.wanted d = some run → run.triggerEvent = trigger

section Requests

variable {d : Deployment} {redact : Json → Json} {g : Setting} {wf : Workflow} {request : Request} {db : DB}

/-- A fire starts the run at the start of its definition. -/
theorem walked_wanted {run : Run} (hserves : request.Serves d wf g.runId g.trigger)
    (hwanted : request.wanted d = some run) (hid : run.id = g.runId) : run.Walked g wf := by
  obtain ⟨hdefinition, htrigger⟩ := hserves ((wanted_ident hwanted).1.symm.trans hid)
  have hstarted : run.workflowId = wf.id ∧ run.cursorStep = some wf.start ∧ run.context = Table.empty := by
    cases request with
    | orchestratorFire tenantId runId wf' trigger buffer =>
        cases hwanted
        obtain rfl := hdefinition wf' rfl
        exact ⟨rfl, rfl, rfl⟩
    | apiFire tenantId runId wfName trigger =>
        obtain ⟨wf', hfound, rfl⟩ := Option.map_eq_some_iff.mp hwanted
        obtain rfl := hdefinition wf' hfound
        exact ⟨rfl, rfl, rfl⟩
    | orchestratorResume | runnerResume | apiResolve | apiCancel => cases hwanted
  obtain ⟨hworkflow, hcursor, hcontext⟩ := hstarted
  refine ⟨hworkflow, htrigger run hwanted, fun _ => ?_, Table.empty, ?_, Or.inl hcontext⟩
  · rw [hcursor]
    nofun
  · rw [hcursor]
    exact wf.attains_start g

/-- A request has its own run in memory, and what it knows of the run of the walk. -/
def Request.Carries (g : Setting) (wf : Workflow) (request : Request) (m : Mem) (_ : DB) : Prop :=
  m.run.id = request.runId ∧ (m.run.id = g.runId → m.run.Walked g wf)

theorem walk_entry (hagents : d.engine.agents = g.agents) (hserves : request.Serves d wf g.runId g.trigger) :
    Entry d (walkSpec d redact g wf) (fun _ => True) (request.Carries g wf) request where
  rely := fun _ _ _ _ => trivial
  early := fun _ _ _ _ _ _ _ _ _ => trivial
  service := by
    intro db m op hop hwanted
    cases op with
    | insertRun run => exact fun hid => walked_wanted hserves (hwanted run rfl) hid
    | checkpoint run events => exact hop.elim
    | recordEffect tenantId key runId stepId tool result => exact hop.elim
    | _ => trivial
  loaded := by
    rintro db m tenantId run db' - - ⟨⟨hwalked, -⟩, hload, -⟩
    obtain ⟨hid, row, hrow, rfl⟩ := id_of_loadRun hload.symm
    refine ⟨hid, fun hrun => hwalked.run row ?_⟩
    rwa [← hid, hrun] at hrow
  created := by
    intro db m run db' _ _ hwanted _
    exact ⟨(wanted_ident hwanted).1, walked_wanted hserves hwanted⟩
  resolve := fun _ _ _ _ _ => Act.keeps_perform fun _ _ h _ _ => ⟨trivial, fun _ _ _ => h⟩
  fired := fun _ _ _ h => h
  resume := by
    rintro cfg wf' m db hcfg hdefinition ⟨hid, hwalked⟩
    have hknown : cfg.agents = g.agents := by
      rcases hcfg with rfl | rfl <;> exact hagents
    have htools : cfg.tools = d.engine.tools := by
      rcases hcfg with rfl | rfl <;> rfl
    refine (walk_outline hknown htools).drives fun hrunning name hname hrun => ?_
    have hstands := (hwalked hrun).stands hrunning
    have hsame : wf' = wf := by
      refine (hserves (hid.symm.trans hrun)).1 wf' ?_
      rwa [← hstands.workflowId]
    refine ⟨hsame, ?_, hstands.workflowId, hstands.trigger, hstands.cursor, hstands.attains⟩
    obtain ⟨cursor, hcursor⟩ := Option.ne_none_iff_exists'.mp hstands.cursor
    have hat : m.run.cursorStep = some cursor := hcursor
    rw [hat, Option.getD_some] at hname
    exact hat.trans hname

open Classical in
/-- A request that does not serve the run does nothing. -/
noncomputable def Request.serving (d : Deployment) (wf : Workflow) (runId : String) (trigger : Json)
    (request : Request) : Driver Unit :=
  if request.Serves d wf runId trigger then request.program d else .pure ()

theorem walk_discipline (hagents : d.engine.agents = g.agents) :
    Pool.Discipline (Call.step d.engine.policy redact) (Request.serving d wf g.runId g.trigger) (fun _ _ => False)
      (fun _ call answer => g.outcomes.Admits call answer) (DB.Walked g wf) fun _ _ => walkSpec d redact g wf where
  allowed := fun _ _ _ _ _ _ hwalked hadmits hs => ⟨⟨hwalked, hadmits⟩, hs⟩
  refl := fun _ _ _ _ => trivial
  trans := fun _ _ _ _ _ _ _ => trivial
  call := fun _ _ _ _ _ _ hwalked howed _ hs => ⟨walked_of_step hs howed hwalked, fun _ _ => trivial⟩
  env := fun _ _ _ h => h.elim
  start := by
    intro _ request db _
    unfold Request.serving
    split
    · rename_i hserves
      exact (walk_entry hagents hserves).serves trivial
    · trivial

end Requests

/-! ### A run of the system -/

section Run

variable {d : Deployment} {redact : Json → Json} {g : Setting} {wf : Workflow} {c : System} {db : DB}
  {labels : List (Pool.Label Request Call Call.Res)}

/-- Requests that go by one definition of the run walk its graph, on any outcomes that the answers are among. -/
theorem walks_of_run (hrun : System.Run d redact ⟨[], db⟩ labels c) (hagents : d.engine.agents = g.agents)
    (hserves : ∀ request ∈ c.threads.map Prod.fst, request.Serves d wf g.runId g.trigger)
    (hadmits : ∀ i call answer, .call i call answer ∈ labels → g.outcomes.Admits call answer)
    (hstart : db.Walked g wf) :
    c.shared.Walked g wf ∧ ∀ i call answer, .call i call answer ∈ labels → call.Walks d g wf := by
  have hserved : ∀ request ∈ c.threads.map Prod.fst, request.serving d wf g.runId g.trigger = request.program d := by
    intro request hmem
    rw [Request.serving, if_pos (hserves request hmem)]
  have hserving := hrun.restart hserved
  refine ⟨(hserving.good (walk_discipline hagents) hadmits (.empty hstart)).inv, fun i call answer hmem => ?_⟩
  obtain ⟨_, _, _, hwalks⟩ := hserving.guaranteed (walk_discipline hagents) hadmits (.empty hstart) hmem
  exact hwalks

end Run

/-- What a run of the system has heard from the outside: the results that its tools and models gave, and what
the ledger held before. -/
def Outcomes.heard (db : DB) (labels : List (Pool.Label Request Call Call.Res)) : Outcomes where
  tool key result :=
    (∃ effect ∈ db.toolEffects.rows, effect.idempotencyKey = key ∧ effect.resultJson = result) ∨
      ∃ i m stepId name args, .call i ⟨m, .execute (.step stepId) name args⟩ (.ok result) ∈ labels ∧
        key = ledgerKey m.run.id stepId name
  agent agent task output := ∃ i m scratch resp scratch',
    .call i ⟨m, .respond agent task scratch⟩ (.ok (resp, scratch')) ∈ labels ∧
      resp.type ≠ some "tool_calls" ∧ resp.output = some output

theorem admits_heard {db : DB} {labels : List (Pool.Label Request Call Call.Res)} {i : Nat} {call : Call}
    {answer : call.Res} (h : .call i call answer ∈ labels) : (Outcomes.heard db labels).Admits call answer := by
  obtain ⟨m, op⟩ := call
  cases op with
  | execute caller name args =>
      cases caller with
      | agent caller => trivial
      | step stepId =>
          cases answer with
          | error e => trivial
          | ok result => exact Or.inr ⟨i, m, stepId, name, args, h, rfl⟩
  | respond agent task scratch =>
      cases answer with
      | error e => trivial
      | ok out => exact fun htype output houtput => ⟨i, m, scratch, out.1, out.2, h, htype, houtput⟩
  | _ => trivial

/-- The walks of the run `runId` that a run of the system has heard the outcomes for. -/
def Setting.heard (d : Deployment) (db : DB) (labels : List (Pool.Label Request Call Call.Res)) (runId : String)
    (trigger : Json) : Setting :=
  ⟨d.engine.agents, .heard db labels, runId, trigger⟩

/-- What is stored of the run is a place that some walk comes to; the result, if it has succeeded, is one that the
graph computes; and its steps have had tools executed only on what walks ask. -/
structure Traversed (d : Deployment) (g : Setting) (wf : Workflow)
    (labels : List (Pool.Label Request Call Call.Res)) (db : DB) : Prop where
  stored : ∀ row, db.runs.find? g.runId = some row → row.toRun.Walked g wf
  computed : ∀ row, db.runs.find? g.runId = some row → row.status = .succeeded →
    ∃ result, wf.Computes g result ∧ row.resultJson = dumpResult result
  asked : ∀ i m stepId name sent answer, .call i ⟨m, .execute (.step stepId) name sent⟩ answer ∈ labels →
    m.run.id = g.runId → ∃ tool args, d.engine.tools.get name = .ok tool ∧ wf.Asks g stepId name args ∧
      sent = sentArgs tool args (ledgerKey m.run.id stepId name)

/-- The row of a run that has succeeded is at the end of a walk. -/
theorem computed_of_walked {redact : Json → Json} {g : Setting} {wf : Workflow} {db : DB} {row : RunRow}
    (hwalked : row.toRun.Walked g wf) (hsound : row.Sound redact db) (hsucceeded : row.status = .succeeded) :
    wf.Attains g ⟨none, row.contextJson⟩ ∧ row.resultJson = dumpResult (finalResult row.contextJson) := by
  have hborne := hsound.borneOut
  rw [hsucceeded] at hborne
  obtain ⟨context, hattains, hsame | ⟨hfailed, -⟩⟩ := hwalked.place
  · have hcursor : row.toRun.cursorStep = none := hsound.cursor.mpr hsucceeded
    rw [hcursor, ← hsame] at hattains
    exact ⟨hattains, hborne.1⟩
  · cases hsucceeded.symm.trans hfailed

/-- **The engine walks the graph.** In every interleaving of requests, crashes included, that go by one definition
of the run: its stored rows, its result and the tools that are executed for it are those of walks of the graph, on
what tools and models have answered. -/
theorem walks_graph {d : Deployment} {redact : Json → Json} {c : System}
    {labels : List (Pool.Label Request Call Call.Res)} {db : DB} (hrun : System.Run d redact ⟨[], db⟩ labels c)
    {wf : Workflow} {runId : String} {trigger : Json}
    (hserves : ∀ request ∈ c.threads.map Prod.fst, request.Serves d wf runId trigger)
    (hsound : db.Sound redact)
    (hstored : ∀ row, db.runs.find? runId = some row → row.toRun.Walked (.heard d db labels runId trigger) wf) :
    Traversed d (.heard d db labels runId trigger) wf labels c.shared := by
  have hstart : db.Walked (.heard d db labels runId trigger) wf :=
    ⟨hstored, fun effect hmem => Or.inl ⟨effect, hmem, rfl, rfl⟩⟩
  obtain ⟨hwalked, hwalks⟩ := walks_of_run hrun (g := .heard d db labels runId trigger) rfl hserves
    (fun _ _ _ hmem => admits_heard hmem) hstart
  refine ⟨hwalked.run, fun row hrow hsucceeded => ?_, fun i m stepId name sent answer hmem => hwalks i _ answer hmem⟩
  have hlife := (hrun.good life_discipline (fun _ _ _ _ => trivial) (.empty hsound)).inv runId row hrow
  obtain ⟨hattains, hresult⟩ := computed_of_walked (hwalked.run row hrow) hlife hsucceeded
  exact ⟨_, ⟨_, hattains, rfl⟩, hresult⟩

/-- The driver is lost after its tool has acted, and another one finds the result in the ledger. -/
def relayed : List (Pool.Label Request Call Call.Res) × System :=
  System.play payDeployment id (.constant (.str "paid"))
    (.spawn (.apiFire "acme" "run" "payments" Table.empty) :: List.replicate 8 (.call 0) ++
      .crash 0 :: .spawn (.runnerResume "acme" "run") :: List.replicate 6 (.call 1)) ⟨[], DB.empty⟩

theorem relayed_requests : relayed.2.threads.map Prod.fst =
    [.apiFire "acme" "run" "payments" Table.empty, .runnerResume "acme" "run"] :=
  Pool.play_tags _ _

theorem walks_graph_relayed :
    ∃ row, relayed.2.shared.runs.find? "run" = some row ∧ row.status = .succeeded ∧
      ∃ result, payWorkflow.Computes (.heard payDeployment DB.empty relayed.1 "run" (.obj [])) result ∧
        row.resultJson = dumpResult result := by
  have hsucceeded : (relayed.2.shared.runs.find? "run").map RunRow.status = some .succeeded := by decide +kernel
  obtain ⟨row, hrow, hstatus⟩ := Option.map_eq_some_iff.mp hsucceeded
  refine ⟨row, hrow, hstatus, (walks_graph (System.play_run _ _ _ _ _) ?_ sound_empty ?_).computed row hrow hstatus⟩
  · intro request hmem _
    have htags := relayed_requests
    rw [relayed] at htags
    rw [htags] at hmem
    rcases List.mem_pair.mp hmem with rfl | rfl
    · exact ⟨fun wf' hwf => (Option.some.inj hwf).symm, fun run hwanted => by cases hwanted; rfl⟩
    · exact ⟨fun wf' hwf => (Option.some.inj hwf).symm, nofun⟩
  · intro row hnone
    cases hnone

end Bass
