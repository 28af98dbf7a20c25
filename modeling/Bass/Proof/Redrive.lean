import Bass.Proof.Sessions

/-!
# Redriving a paused run

A run that waits at a gate is loaded, walks into the gate's step again, finds the approval still
undecided, and is stored as waiting once more. The entry counts as a step, so each redrive of a
waiting run uses one, and the one after the last step that the definition allows fails the run.
-/

namespace Bass

open Interaction EngineM

variable {d : Deployment} {redact : Json → Json}

/-! ### Checkpoints that the store accepts -/

theorem appendEvents_accepts (redact : Json → Json) {tenantId : String} {events : List Event}
    (h : ∀ ev ∈ events, ev.tenantId = tenantId) (now : ℕ → ℚ) (log : EventLog) :
    ∃ log', DB.appendEvents redact tenantId events now log = .ok log' := by
  induction events generalizing now log with
  | nil => exact ⟨log, rfl⟩
  | cons ev rest ih =>
      rw [DB.appendEvents, if_pos (h ev List.mem_cons_self)]
      exact ih (fun ev' hmem => h ev' (List.mem_cons_of_mem _ hmem)) _ _

/-- The tables that decide whether a gate lets a step pass are the same. -/
structure SameGates (db db' : DB) : Prop where
  approvals : db'.approvals = db.approvals
  toolEffects : db'.toolEffects = db.toolEffects

/-- The store accepts the checkpoint of a run that is there, with events of its own tenant. -/
theorem accepts_checkpoint {policy : PolicyEngine} {db db' : DB} {run : Run} {events : List Event}
    {answer : Except Exc Unit} {row : RunRow} (hrow : db.runs.find? run.id = some row)
    (htenant : row.tenantId = run.tenantId) (hevents : ∀ ev ∈ events, ev.tenantId = run.tenantId)
    (h : (Op.checkpoint run events).step policy redact db answer db') :
    answer = .ok () ∧ SameGates db db' ∧
      ∃ now, db'.runs.find? run.id = some (run.writeRow now row) := by
  have haccepted : answer = .ok () := by
    obtain ⟨now, hcommits⟩ := h
    rcases commits_map_cases hcommits with ⟨-, hanswer⟩ | ⟨e, herror, -, -⟩
    · exact hanswer
    · obtain ⟨log, hlog⟩ := appendEvents_accepts redact hevents (fun i => now (i + 1)) db.events
      have howns : db.assertOwns run.tenantId run.id = .ok () := by
        rw [DB.assertOwns, hrow]
        exact if_pos htenant
      simp [DB.checkpoint, howns, hlog, bind, Except.bind, pure, Except.pure] at herror
  subst haccepted
  refine ⟨rfl, ?_, row_of_checkpoint h hrow⟩
  obtain ⟨now, hcommits⟩ := h
  rcases commits_map_cases hcommits with ⟨hcp, -⟩ | ⟨e, -, hanswer, -⟩
  · obtain ⟨-, -, -, happrovals, heffects⟩ := DB.checkpoint_ok hcp
    exact ⟨happrovals, heffects⟩
  · cases hanswer

/-! ### A gate that is not decided -/

/-- The step stops at a gate: an approval node, or a tool step whose effect is not recorded and whose
call the policy requires an approval for. -/
inductive AtGate (cfg : EngineConfig) (tenantId runId : String) (context : Context) (step : Step)
    (db : DB) : Prop where
  | approval (htype : step.nodeType = .approval)
  | tool {name : String} {tool : Tool} {args : Args} (htype : step.nodeType = .tool)
      (hname : step.tool = some name) (htool : cfg.tools.get name = .ok tool)
      (hargs : resolve step.args context = .ok args)
      (hfresh : tool.sideEffect = true →
        db.getEffect tenantId (ledgerKey runId step.id name) = .ok .null)
      (hrequire : (cfg.policy.check (WorkflowEngine.systemAgent name) tool args context).effect =
        .requireApproval)

/-- A driver alone with the store. -/
abbrev aloneSpec (d : Deployment) (redact : Json → Json) : Spec Call Call.Res DB :=
  .sequential (Call.step d.engine.policy redact) fun _ _ => True

/-- The driver holds the stored run `row`, up to its status and the steps it has used. -/
structure Holding (row : RunRow) (m : Mem) (db : DB) : Prop where
  stored : db.runs.find? m.run.id = some row
  tenantId : row.tenantId = m.run.tenantId
  cursorStep : m.run.cursorStep = row.cursorStep
  context : m.run.context = row.contextJson
  costUsd : m.run.costUsd = row.costUsd
  events : ∀ ev ∈ m.buffer, ev.tenantId = m.run.tenantId

theorem Holding.emit {row : RunRow} {m : Mem} {db : DB} (h : Holding row m db) (ev : Event)
    (hev : ev.tenantId = m.run.tenantId) :
    Holding row { m with buffer := m.buffer ++ [ev] } db :=
  { h with
    events := by
      intro ev' hmem
      rcases List.mem_append.mp hmem with hold | hnew
      · exact h.events ev' hold
      · rw [List.mem_singleton.mp hnew]
        exact hev }

/-- The stored run has not moved: it is at the same step with the same context and cost. -/
structure SameCursor (row row' : RunRow) : Prop where
  tenantId : row'.tenantId = row.tenantId
  workflowId : row'.workflowId = row.workflowId
  cursorStep : row'.cursorStep = row.cursorStep
  contextJson : row'.contextJson = row.contextJson
  costUsd : row'.costUsd = row.costUsd

theorem SameCursor.refl (row : RunRow) : SameCursor row row := ⟨rfl, rfl, rfl, rfl, rfl⟩

theorem SameCursor.trans {row row' row'' : RunRow} (h : SameCursor row row')
    (h' : SameCursor row' row'') : SameCursor row row'' where
  tenantId := h'.tenantId.trans h.tenantId
  workflowId := h'.workflowId.trans h.workflowId
  cursorStep := h'.cursorStep.trans h.cursorStep
  contextJson := h'.contextJson.trans h.contextJson
  costUsd := h'.costUsd.trans h.costUsd

/-- The driver has committed what it holds, in this status and with these steps used. -/
def Saved (row : RunRow) (status : RunStatus) (steps : Nat) (runId : String) (db db' : DB) : Prop :=
  SameGates db db' ∧ ∃ row', db'.runs.find? runId = some row' ∧ SameCursor row row' ∧
    row'.status = status ∧ row'.stepsUsed = steps

theorem Holding.checkpoint {row : RunRow} {m : Mem} {db : DB} (h : Holding row m db) :
    Act.wp (aloneSpec d redact) EngineM.checkpoint
      (fun _ _ => Saved row m.run.status m.run.stepsUsed m.run.id db) (fun _ _ _ => False) m db := by
  refine wp_checkpoint.mpr ?_
  rintro _ rfl
  refine ⟨trivial, fun answer db' hs => ?_⟩
  have hcommit : (Op.checkpoint m.run m.buffer).step d.engine.policy redact db answer db' := hs
  obtain ⟨rfl, hgates, now, hrow'⟩ := accepts_checkpoint h.stored h.tenantId h.events hcommit
  exact ⟨hgates, _, hrow', ⟨rfl, rfl, h.cursorStep, h.context, h.costUsd⟩, rfl, rfl⟩

theorem Holding.failRun {row : RunRow} {m : Mem} {db : DB} (h : Holding row m db)
    {reason detail : String} :
    Act.wp (aloneSpec d redact) (WorkflowEngine.failRun reason detail)
      (fun _ _ => Saved row .failed m.run.stepsUsed m.run.id db) (fun _ _ _ => False) m db := by
  have hfailed : Holding row { m with run := { m.run with status := .failed } } db :=
    ⟨h.stored, h.tenantId, h.cursorStep, h.context, h.costUsd, h.events⟩
  exact (wp_modifyRun_bind _ _).mpr ((wp_emit_bind _ _ _ _ _ _).mpr (hfailed.emit _ rfl).checkpoint)

section Gate

variable {cfg : EngineConfig} {step : Step} {row : RunRow} {m : Mem} {db : DB} {approvalId : String}

/-- A pending approval pauses the driver. -/
theorem pauses_awaitApproval (hasync : cfg.approvalFn = false) (h : Holding row m db)
    (hpending : db.latestApproval m.run.tenantId m.run.id step.id = some (approvalId, .pending))
    (approvers : List String) (tool : String) (args : Args) :
    Act.wp (aloneSpec d redact) (WorkflowEngine.awaitApproval cfg step approvers tool args)
      (fun _ _ _ => False) (fun e _ db' => e = .paused approvalId ∧
        Saved row .waitingApproval m.run.stepsUsed m.run.id db db') m db := by
  rw [WorkflowEngine.awaitApproval, if_neg (by simp [hasync])]
  refine (wp_getRun_bind _).mpr ((Act.wp_perform_bind _ _).mpr ?_)
  rintro _ rfl
  refine ⟨trivial, ?_⟩
  rintro answer db' ⟨rfl, hdb⟩
  obtain rfl := hdb.symm
  rw [hpending]
  dsimp only
  rw [if_pos rfl]
  refine (wp_modifyRun_bind _ _).mpr ((Act.wp_bind _ _).mpr ?_)
  have hwaiting : Holding row { m with run := { m.run with status := .waitingApproval } } db :=
    ⟨h.stored, h.tenantId, h.cursorStep, h.context, h.costUsd, h.events⟩
  exact Act.wp_mono _ (fun _ _ _ hsaved => ⟨rfl, hsaved⟩) (fun _ _ _ => False.elim)
    hwaiting.checkpoint

/-- The ledger has nothing under the key. -/
theorem nothing_cachedEffect {tool : Tool} {key : String}
    (h : tool.sideEffect = true → db.getEffect m.run.tenantId key = .ok .null) :
    Act.wp (aloneSpec d redact) (WorkflowEngine.cachedEffect tool key)
      (fun cached m' db' => cached = .null ∧ m' = m ∧ db' = db) (fun _ _ _ => False) m db := by
  unfold WorkflowEngine.cachedEffect
  split
  · rename_i hmutating
    refine (wp_getRun_bind _).mpr ((Act.wp_perform_bind _ _).mpr ?_)
    rintro _ rfl
    refine ⟨trivial, ?_⟩
    rintro answer db' ⟨rfl, rfl⟩
    rw [h hmutating]
    exact ⟨rfl, rfl, rfl⟩
  · exact ⟨rfl, rfl, rfl⟩

theorem pauses_runStep (hasync : cfg.approvalFn = false) (hcfg : cfg.policy = d.engine.policy)
    (h : Holding row m db)
    (hgate : AtGate cfg m.run.tenantId m.run.id m.run.context step db)
    (hpending : db.latestApproval m.run.tenantId m.run.id step.id = some (approvalId, .pending)) :
    Act.wp (aloneSpec d redact) (WorkflowEngine.runStep cfg step)
      (fun _ _ _ => False) (fun e _ db' => e = .paused approvalId ∧
        Saved row .waitingApproval m.run.stepsUsed m.run.id db db') m db := by
  unfold WorkflowEngine.runStep
  cases hgate with
  | approval htype =>
      rw [htype]
      refine (Act.wp_bind _ _).mpr ?_
      exact Act.wp_mono _ (fun _ _ _ => False.elim) (fun _ _ _ he => he)
        (pauses_awaitApproval hasync h hpending _ _ _)
  | @tool name tool args htype hname htool hargs hfresh hrequire =>
      rw [htype]
      dsimp only
      rw [WorkflowEngine.runTool, hname]
      dsimp only
      refine (Act.wp_ofExcept_bind _ _).mpr ?_
      rw [htool]
      refine (wp_getRun_bind _).mpr ((Act.wp_ofExcept_bind _ _).mpr ?_)
      rw [hargs]
      refine (Act.wp_bind _ _).mpr (Act.wp_mono _ ?_ (fun _ _ _ => False.elim)
        (nothing_cachedEffect hfresh))
      rintro cached m' db' ⟨rfl, rfl, rfl⟩
      refine (Act.wp_bind _ _).mpr (Act.wp_mono _ (fun _ _ _ => False.elim)
        (fun _ _ _ he => he) ?_)
      refine (wp_getRun_bind _).mpr ((Act.wp_perform_bind _ _).mpr ?_)
      rintro _ rfl
      refine ⟨trivial, ?_⟩
      rintro decision db'' ⟨hdecision, rfl⟩
      have heffect : decision.effect = .requireApproval := by
        rw [hdecision, ← hcfg]
        exact hrequire
      refine (wp_emit_bind _ _ _ _ _ _).mpr ?_
      rw [heffect]
      refine (Act.wp_bind _ _).mpr (Act.wp_mono _ (fun _ _ _ => False.elim)
        (fun _ _ _ he => he) ?_)
      exact pauses_awaitApproval hasync (h.emit _ rfl) hpending _ _ _

end Gate

/-! ### One redrive -/

/-- The run is stored as waiting, at a gate whose latest approval is pending. -/
structure PausedAt (cfg : EngineConfig) (wf : Workflow) (runId : String) (row : RunRow) (db : DB) :
    Prop where
  stored : db.runs.find? runId = some row
  status : row.status = .waitingApproval
  gate : ∃ step approvalId, wf.steps.get? (row.cursorStep.getD wf.start) = some step ∧
    0 < step.maxAttempts ∧ AtGate cfg row.tenantId runId row.contextJson step db ∧
    db.latestApproval row.tenantId runId step.id = some (approvalId, .pending)

/-- The run is within the budget of its definition. -/
def RunRow.Within (row : RunRow) (wf : Workflow) : Prop :=
  row.costUsd ≤ wf.budgetUsd ∧ (row.stepsUsed : Int) ≤ wf.maxSteps

/-- What a redrive leaves: a step used, or within budget no longer the run failed. -/
def Redriven (wf : Workflow) (row : RunRow) (runId : String) (db db' : DB) : Prop :=
  (row.Within wf ∧ Saved row .waitingApproval (row.stepsUsed + 1) runId db db') ∨
    (¬row.Within wf ∧ Saved row .failed row.stepsUsed runId db db')

theorem Budget.check_eq_none {budget : Budget} {run : Run} :
    budget.check run = none ↔ run.costUsd ≤ budget.maxUsd ∧ (run.stepsUsed : Int) ≤ budget.maxSteps := by
  unfold check
  split
  · rename_i hcost
    simp [not_le.mpr hcost]
  · rename_i hcost
    split
    · rename_i hsteps
      simp [not_le.mpr hsteps]
    · rename_i hsteps
      simp [not_lt.mp hcost, not_lt.mp hsteps]

/-- The step at the gate pauses in its first attempt, and the pause goes through the handlers. -/
theorem pauses_enterStep {cfg : EngineConfig} {wf : Workflow} {step : Step} {row : RunRow} {m : Mem}
    {db : DB} {approvalId : String} (hasync : cfg.approvalFn = false)
    (hcfg : cfg.policy = d.engine.policy) (hattempts : 0 < step.maxAttempts) (h : Holding row m db)
    (hgate : AtGate cfg m.run.tenantId m.run.id m.run.context step db)
    (hpending : db.latestApproval m.run.tenantId m.run.id step.id = some (approvalId, .pending)) :
    Act.wp (aloneSpec d redact) (WorkflowEngine.enterStep cfg wf step)
      (fun _ _ _ => False) (fun e _ db' => e = .paused approvalId ∧
        Saved row .waitingApproval (m.run.stepsUsed + 1) m.run.id db db') m db := by
  obtain ⟨n, hn⟩ : ∃ n, step.maxAttempts.toNat = n + 1 := ⟨step.maxAttempts.toNat - 1, by omega⟩
  have hcounted : Holding row { m with run := { m.run with stepsUsed := m.run.stepsUsed + 1 } } db :=
    ⟨h.stored, h.tenantId, h.cursorStep, h.context, h.costUsd, h.events⟩
  refine (wp_modifyRun_bind _ _).mpr ((wp_emit_bind _ _ _ _ _ _).mpr ((Act.wp_perform_bind _ _).mpr ?_))
  rintro _ rfl
  refine ⟨trivial, ?_⟩
  rintro answer db' hsame
  obtain rfl : db = db' := Eq.symm hsame
  refine (Act.wp_bind _ _).mpr ((Act.wp_tryCatch _ _).mpr ?_)
  rw [WorkflowEngine.runStepWithRetry, hn]
  refine (Act.wp_tryCatch _ _).mpr ?_
  refine Act.wp_mono _ (fun _ _ _ => False.elim) (fun e m' db' hpaused => ?_)
    (pauses_runStep hasync hcfg (hcounted.emit ⟨_, _, _, _, _, _, _⟩ rfl) hgate hpending)
  obtain ⟨rfl, hsaved⟩ := hpaused
  exact ⟨rfl, hsaved⟩

theorem redriven_resume {cfg : EngineConfig} {wf : Workflow} {runId : String} {row : RunRow}
    {m : Mem} {db : DB} (hasync : cfg.approvalFn = false) (hcfg : cfg.policy = d.engine.policy)
    (hpaused : PausedAt cfg wf runId row db) (hrun : m.run = row.toRun) (hbuffer : m.buffer = []) :
    Act.wp (aloneSpec d redact) (WorkflowEngine.resume cfg wf)
      (fun _ _ => Redriven wf row runId db) (fun _ _ => Redriven wf row runId db) m db := by
  obtain ⟨hstored, hstatus, step, approvalId, hstep, hattempts, hgate, hpending⟩ := hpaused
  obtain rfl : row.id = runId := Table.key_of_find? hstored
  obtain ⟨run, buffer⟩ := m
  obtain rfl : run = row.toRun := hrun
  obtain rfl : buffer = [] := hbuffer
  have hholding : Holding row ⟨{ row.toRun with status := .running }, []⟩ db :=
    ⟨hstored, rfl, rfl, rfl, rfl, fun _ hmem => absurd hmem List.not_mem_nil⟩
  have hwaiting : row.toRun.status = .waitingApproval := hstatus
  refine (wp_getRun_bind _).mpr ?_
  rw [if_neg (by rw [hwaiting]; decide)]
  refine (wp_modifyRun_bind _ _).mpr ((Act.wp_tryCatch _ _).mpr ((Act.wp_bind _ _).mpr ?_))
  refine (Act.wp_bind _ _).mpr ?_
  unfold WorkflowEngine.iterate
  rw [show row.toRun.cursorStep = row.cursorStep from rfl, hstep]
  refine (wp_getRun_bind _).mpr ?_
  split
  · rename_i violation hviolation
    have hover : ¬row.Within wf := fun hwithin =>
      nomatch hviolation.symm.trans (Budget.check_eq_none.mpr hwithin)
    refine (Act.wp_bind _ _).mpr (Act.wp_mono _ (fun _ m' db' hsaved => ?_) (fun _ _ _ => False.elim)
      hholding.failRun)
    exact Or.inr ⟨hover, hsaved⟩
  · rename_i hnone
    refine Act.wp_mono _ (fun _ _ _ => False.elim) (fun e m' db' hpausing => ?_)
      (pauses_enterStep hasync hcfg hattempts hholding hgate hpending)
    obtain ⟨rfl, hsaved⟩ := hpausing
    exact Or.inl ⟨Budget.check_eq_none.mp hnone, hsaved⟩

/-! ### Requests that redrive -/

/-- A worker takes the run up again, on a fresh engine and without deciding anything. -/
inductive Redrive (wf : Workflow) (tenantId runId : String) : Request → Prop where
  | runner : Redrive wf tenantId runId (.runnerResume tenantId runId)
  | orchestrator : Redrive wf tenantId runId (.orchestratorResume tenantId runId wf [])

theorem AtGate.congr {cfg cfg' : EngineConfig} {tenantId runId : String} {context : Context}
    {step : Step} {db db' : DB} (h : AtGate cfg tenantId runId context step db)
    (htools : cfg'.tools = cfg.tools) (hpolicy : cfg'.policy = cfg.policy) (hgates : SameGates db db') :
    AtGate cfg' tenantId runId context step db' := by
  cases h with
  | approval htype => exact .approval htype
  | tool htype hname htool hargs hfresh hrequire =>
      refine .tool htype hname (htools ▸ htool) hargs (fun hmutating => ?_) (hpolicy ▸ hrequire)
      rw [DB.getEffect, hgates.toolEffects]
      exact hfresh hmutating

theorem SameGates.refl (db : DB) : SameGates db db := ⟨rfl, rfl⟩

theorem PausedAt.asynchronous {cfg : EngineConfig} {wf : Workflow} {runId : String} {row : RunRow}
    {db : DB} (h : PausedAt cfg wf runId row db) : PausedAt cfg.asynchronous wf runId row db := by
  obtain ⟨hstored, hstatus, step, approvalId, hstep, hattempts, hgate, hpending⟩ := h
  exact ⟨hstored, hstatus, step, approvalId, hstep, hattempts,
    hgate.congr rfl rfl (SameGates.refl db), hpending⟩

/-- A run that is saved as waiting, without having moved, is paused where it was. -/
theorem PausedAt.saved {cfg : EngineConfig} {wf : Workflow} {runId : String} {row : RunRow}
    {steps : Nat} {db db' : DB} (h : PausedAt cfg wf runId row db)
    (hsaved : Saved row .waitingApproval steps runId db db') :
    ∃ row', PausedAt cfg wf runId row' db' ∧ SameCursor row row' ∧ row'.stepsUsed = steps := by
  obtain ⟨-, -, step, approvalId, hstep, hattempts, hgate, hpending⟩ := h
  obtain ⟨hgates, row', hrow', hsame, hstatus', hsteps⟩ := hsaved
  refine ⟨row', ⟨hrow', hstatus', step, approvalId, ?_, hattempts, ?_, ?_⟩, hsame, hsteps⟩
  · rw [hsame.cursorStep]
    exact hstep
  · rw [hsame.tenantId, hsame.contextJson]
    exact hgate.congr rfl rfl hgates
  · rw [DB.latestApproval, hgates.approvals, hsame.tenantId]
    exact hpending

section Requests

variable {wf : Workflow} {tenantId runId : String} {row : RunRow} {db : DB} {request : Request}

/-- Loading a stored run by itself. -/
theorem loads_hydrate (hrow : db.runs.find? runId = some row) (htenant : row.tenantId = tenantId)
    (m : Mem) :
    Act.wp (aloneSpec d redact) (hydrate tenantId runId)
      (fun run m' db' => run = row.toRun ∧ m' = { m with run := row.toRun } ∧ db' = db)
      (fun _ _ _ => False) m db := by
  have hload : db.loadRun tenantId runId = .ok (some row.toRun) := by
    rw [DB.loadRun, hrow]
    dsimp only
    rw [DB.rowToRun, if_pos htenant]
    rfl
  refine (Act.wp_perform_bind _ _).mpr ?_
  rintro _ rfl
  refine ⟨trivial, ?_⟩
  rintro answer db' ⟨rfl, rfl⟩
  refine (Act.wp_ofExcept_bind _ _).mpr ?_
  rw [hload]
  exact ⟨rfl, rfl, rfl⟩

/-- What the engine makes of the run that a redrive loads, the redrive makes of it. -/
theorem redrive_code {P : DB → Prop} (hrequest : Redrive wf tenantId runId request) (hrow : db.runs.find? runId = some row)
    (htenant : row.tenantId = tenantId) (hwf : d.workflowsById.get? row.workflowId = some wf)
    (hover : row.status.terminal = true → P db)
    (hresume : ∀ cfg : EngineConfig, cfg = d.engine ∨ cfg = d.engine.asynchronous →
      ∀ m : Mem, m.run = row.toRun → m.buffer = [] →
      Act.wp (aloneSpec d redact) (WorkflowEngine.resume cfg wf) (fun _ _ => P) (fun _ _ => P) m db) :
    Act.wp (aloneSpec d redact) (request.code d) (fun _ _ => P) (fun _ _ => P) request.memory db := by
  cases hrequest with
  | runner =>
      refine (Act.wp_bind _ _).mpr (Act.wp_mono _ ?_ (fun _ _ _ => False.elim)
        (loads_hydrate hrow htenant _))
      rintro run m db' ⟨rfl, rfl, rfl⟩
      refine (Act.wp_ofExcept_bind _ _).mpr ?_
      rw [show row.toRun.workflowId = row.workflowId from rfl, hwf]
      exact (Act.wp_bind _ _).mpr (hresume _ (Or.inr rfl) _ rfl rfl)
  | orchestrator =>
      refine (Act.wp_bind _ _).mpr (Act.wp_mono _ ?_ (fun _ _ _ => False.elim)
        (loads_hydrate hrow htenant _))
      rintro run m db' ⟨rfl, rfl, rfl⟩
      split
      · rename_i hterminal
        exact hover hterminal
      · exact (Act.wp_bind _ _).mpr (hresume _ (Or.inl rfl) _ rfl rfl)

/-- A redrive of a run that is over changes nothing. -/
theorem redrive_over (hrequest : Redrive wf tenantId runId request) (hrow : db.runs.find? runId = some row)
    (htenant : row.tenantId = tenantId) (hwf : d.workflowsById.get? row.workflowId = some wf)
    (hterminal : row.status.terminal = true) :
    Act.wp (aloneSpec d redact) (request.code d) (fun _ _ db' => db' = db) (fun _ _ db' => db' = db)
      request.memory db := by
  refine redrive_code hrequest hrow htenant hwf (fun _ => rfl) ?_
  intro cfg _ m hrun _
  refine resume_of_terminal ?_ rfl
  rw [hrun]
  exact hterminal

theorem redrive_paused (hasync : d.engine.approvalFn = false)
    (hrequest : Redrive wf tenantId runId request) (hpaused : PausedAt d.engine wf runId row db)
    (htenant : row.tenantId = tenantId) (hwf : d.workflowsById.get? row.workflowId = some wf) :
    Act.wp (aloneSpec d redact) (request.code d) (fun _ _ => Redriven wf row runId db)
      (fun _ _ => Redriven wf row runId db) request.memory db := by
  refine redrive_code hrequest hpaused.stored htenant hwf (fun hterminal => ?_) ?_
  · rw [hpaused.status] at hterminal
    cases hterminal
  · rintro cfg (rfl | rfl) m hrun hbuffer
    · exact redriven_resume hasync rfl hpaused hrun hbuffer
    · exact redriven_resume rfl rfl hpaused.asynchronous hrun hbuffer

end Requests

/-! ### Any number of redrives -/

/-- Complete redrives, one after the other. -/
inductive Redrives (d : Deployment) (redact : Json → Json) (wf : Workflow) (tenantId runId : String) :
    Nat → DB → DB → Prop where
  | zero (db : DB) : Redrives d redact wf tenantId runId 0 db db
  | succ {n : Nat} {db db₁ db' : DB} {request : Request} {out : Except Exc Run × Mem} {trace : Trail}
      (earlier : Redrives d redact wf tenantId runId n db db₁)
      (hrequest : Redrive wf tenantId runId request)
      (last : Prog.Exec (Call.step d.engine.policy redact) ((request.code d).exec request.memory) db₁
        trace (.pure out) db') :
      Redrives d redact wf tenantId runId (n + 1) db db'

/-- There is budget for `n` more entries into a step. -/
def RunRow.Lasts (row : RunRow) (wf : Workflow) (n : Nat) : Prop :=
  ∀ k < n, row.costUsd ≤ wf.budgetUsd ∧ (row.stepsUsed : Int) + k ≤ wf.maxSteps

theorem RunRow.lasts_succ {row row' : RunRow} {wf : Workflow} {n : Nat} (hsame : SameCursor row row')
    (hsteps : row'.stepsUsed = row.stepsUsed + n) :
    row.Lasts wf (n + 1) ↔ row.Lasts wf n ∧ row'.Within wf := by
  have hcast : ((row'.stepsUsed : Nat) : Int) = (row.stepsUsed : Int) + n := by
    rw [hsteps, Nat.cast_add]
  rw [RunRow.Within, hsame.costUsd, hcast]
  constructor
  · intro h
    exact ⟨fun k hk => h k (Nat.lt_succ_of_lt hk), h n (Nat.lt_succ_self n)⟩
  · rintro ⟨hlasts, hwithin⟩ k hk
    rcases Nat.lt_succ_iff_lt_or_eq.mp hk with hlt | rfl
    · exact hlasts k hlt
    · exact hwithin

/-- A paused run that is redriven `n` times has used `n` more steps if there is budget for them, and
otherwise it has failed. -/
theorem redrives_paused {wf : Workflow} {tenantId runId : String} {row : RunRow} {n : Nat}
    {db db' : DB} (hasync : d.engine.approvalFn = false) (hpaused : PausedAt d.engine wf runId row db)
    (htenant : row.tenantId = tenantId) (hwf : d.workflowsById.get? row.workflowId = some wf)
    (h : Redrives d redact wf tenantId runId n db db') :
    (row.Lasts wf n ∧ ∃ row', PausedAt d.engine wf runId row' db' ∧ SameCursor row row' ∧
      row'.stepsUsed = row.stepsUsed + n) ∨
    (¬row.Lasts wf n ∧ ∃ row', db'.runs.find? runId = some row' ∧ SameCursor row row' ∧
      row'.status = .failed) := by
  induction h with
  | zero db => exact Or.inl ⟨fun k hk => absurd hk (Nat.not_lt_zero k), row, hpaused, SameCursor.refl row, rfl⟩
  | @succ n db db₁ db' request out trace earlier hrequest last ih =>
      rcases ih hpaused with ⟨hlasts, row₁, hpaused₁, hsame, hsteps⟩ | ⟨hlasts, row₁, hrow₁, hsame, hfailed⟩
      · have hredriven : Redriven wf row₁ runId db₁ db' := by
          obtain ⟨result, m'⟩ := out
          have hlast := Act.wp_of_exec last (redrive_paused hasync hrequest hpaused₁
            (hsame.tenantId.trans htenant) (hsame.workflowId.symm ▸ hwf))
          cases result <;> exact hlast
        rcases hredriven with ⟨hwithin, hsaved⟩ | ⟨hover, -, row', hrow', hsame', hstatus', -⟩
        · obtain ⟨row', hpaused', hsame', hsteps'⟩ := hpaused₁.saved hsaved
          refine Or.inl ⟨(RunRow.lasts_succ hsame hsteps).mpr ⟨hlasts, hwithin⟩, row', hpaused',
            hsame.trans hsame', ?_⟩
          rw [hsteps', hsteps, Nat.add_assoc]
        · refine Or.inr ⟨fun h => hover ((RunRow.lasts_succ hsame hsteps).mp h).2, row', hrow',
            hsame.trans hsame', hstatus'⟩
      · have hidle : db' = db₁ := by
          obtain ⟨result, m'⟩ := out
          have hlast := Act.wp_of_exec last (redrive_over hrequest hrow₁
            (hsame.tenantId.trans htenant) (hsame.workflowId.symm ▸ hwf) (by rw [hfailed]; rfl))
          cases result <;> exact hlast
        refine Or.inr ⟨fun h => hlasts fun k hk => h k (Nat.lt_succ_of_lt hk), row₁, ?_, hsame, hfailed⟩
        rw [hidle]
        exact hrow₁

/-- The stored status, cursor, context, cost and steps of the run are what they were. -/
def Untouched (runId : String) (db db' : DB) : Prop :=
  ∀ row, db.runs.find? runId = some row → ∃ row', db'.runs.find? runId = some row' ∧
    row'.status = row.status ∧ row'.cursorStep = row.cursorStep ∧
    row'.contextJson = row.contextJson ∧ row'.costUsd = row.costUsd ∧ row'.stepsUsed = row.stepsUsed

/-- Redriving a paused run leaves it untouched only if it is not redriven at all. -/
theorem redrives_untouched_iff {wf : Workflow} {tenantId runId : String} {row : RunRow} {n : Nat}
    {db db' : DB} (hasync : d.engine.approvalFn = false) (hpaused : PausedAt d.engine wf runId row db)
    (htenant : row.tenantId = tenantId) (hwf : d.workflowsById.get? row.workflowId = some wf)
    (h : Redrives d redact wf tenantId runId n db db') : Untouched runId db db' ↔ n = 0 := by
  constructor
  · intro huntouched
    obtain ⟨row', hrow', hstatus', -, -, -, hsteps'⟩ := huntouched row hpaused.stored
    rcases redrives_paused hasync hpaused htenant hwf h with
      ⟨-, row'', hpaused'', -, hsteps''⟩ | ⟨-, row'', hrow'', -, hfailed⟩
    · obtain rfl := Option.some.inj (hrow'.symm.trans hpaused''.stored)
      omega
    · obtain rfl := Option.some.inj (hrow'.symm.trans hrow'')
      rw [hpaused.status, hfailed] at hstatus'
      cases hstatus'
  · rintro rfl
    cases h
    exact fun row hrow => ⟨row, hrow, rfl, rfl, rfl, rfl, rfl⟩

/-! ### A run that waits -/

def waitingDeployment : Deployment :=
  { payDeployment with workflowsById := Dict.ofList [("payments", gatedWorkflow 1 payStep)] }

def waitingRow : RunRow :=
  { newRow "run" "payments" with
    status := .waitingApproval
    cursorStep := some "gate"
    stepsUsed := 1 }

/-- A run that has been paused at its gate once. -/
def DB.waiting : DB :=
  { DB.empty with
    runs := ⟨[waitingRow], List.nodup_singleton _⟩
    runsUnique := List.nodup_singleton _
    approvals := ⟨[{ id := "approval"
                     runId := "run"
                     tenantId := "acme"
                     stepId := "gate"
                     status := .pending
                     approvers := []
                     decidedBy := none
                     note := none
                     requestedAt := 0
                     decidedAt := none }], List.nodup_singleton _⟩ }

theorem waiting_paused :
    PausedAt waitingDeployment.engine (gatedWorkflow 1 payStep) "run" waitingRow DB.waiting where
  stored := rfl
  status := rfl
  gate := ⟨_, "approval", rfl, by decide, .approval rfl, rfl⟩

/-- The worker resumes the waiting run. -/
def redrivenOnce : Trail × (Except Exc Run × Mem) × DB :=
  (((Request.runnerResume "acme" "run").code waitingDeployment).exec
    (Request.runnerResume "acme" "run").memory).complete
      (fun db call => call.op.serve waitingDeployment.engine.policy id (.constant .null) db) DB.waiting

theorem redrivenOnce_redrives :
    Redrives waitingDeployment id (gatedWorkflow 1 payStep) "acme" "run" 1 DB.waiting
      redrivenOnce.2.2 :=
  .succ (.zero _) .runner (Prog.complete_exec
    (fun db call => call.op.serve_step waitingDeployment.engine.policy id (.constant .null) db) _ _)

theorem redrives_untouched_iff_once :
    Untouched "run" DB.waiting redrivenOnce.2.2 ↔ 1 = 0 :=
  redrives_untouched_iff rfl waiting_paused rfl rfl redrivenOnce_redrives

theorem redrive_touches :
    PausedAt waitingDeployment.engine (gatedWorkflow 1 payStep) "run" waitingRow DB.waiting ∧
      Redrives waitingDeployment id (gatedWorkflow 1 payStep) "acme" "run" 1 DB.waiting
        redrivenOnce.2.2 ∧ ¬Untouched "run" DB.waiting redrivenOnce.2.2 := by
  refine ⟨waiting_paused, redrivenOnce_redrives, fun huntouched => ?_⟩
  have hcounted : (redrivenOnce.2.2.runs.find? "run").map RunRow.stepsUsed = some 2 := by
    decide +kernel
  obtain ⟨row', hrow', -, -, -, -, hsteps⟩ := huntouched waitingRow rfl
  rw [hrow', Option.map_some, hsteps] at hcounted
  cases hcounted

end Bass
