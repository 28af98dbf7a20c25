import Bass.Proof.ConcurrentFires
import Bass.Proof.Noninterference

/-!
# What a drive works on

A driver that has the database to itself makes every call for the run it holds: it checkpoints that run,
it resolves approvals of that run only, and the events it writes are the run's as long as it started
with no others in the buffer. What an orchestrator is asked to do with a run adds the lookups and the
insertion before the drive.
-/

namespace Bass

open Interaction EngineM

/-- The event belongs to the run. -/
def Event.Of (tenantId runId : String) (ev : Event) : Prop := ev.runId = runId ∧ ev.tenantId = tenantId

/-- The call is made for the run, on rows and with events of the run. -/
def Op.Own (cfg : EngineConfig) (tenantId runId : String) (db : DB) : Op → Prop
  | .checkpoint run events =>
      run.tenantId = tenantId ∧ run.id = runId ∧ ∀ ev ∈ events, ev.Of tenantId runId
  | .resolveApproval tenant approvalId .. => tenant = tenantId ∧
      ∃ row, db.approvals.find? approvalId = some row ∧ row.tenantId = tenantId ∧ row.runId = runId
  | op => op.By cfg tenantId runId

/-- The store raises instead of doing what it was asked. -/
def Op.Raises : (op : Op) → op.Res → Prop
  | .loadRun .., .error _ | .loadRunByKey .., .error _ | .checkpoint .., .error _ | .cancelRun .., .error _
  | .getEffect .., .error _ | .createApproval .., .error _ | .resolveApproval .., .error _ => True
  | _, _ => False

/-- `Op.step` with a store that may raise at any time, as it does for a value that cannot be serialised or
for a disk that is full. What it had done of the transaction is rolled back. -/
def Call.faultyStep (policy : PolicyEngine) (redact : Json → Json) (db : DB) (call : Call) (answer : call.Res)
    (db' : DB) : Prop :=
  call.op.step policy redact db answer db' ∨ (call.op.Raises answer ∧ db' = db)

/-- The driver holds the run, and no events of another run. -/
def Mem.Owns (tenantId runId : String) (m : Mem) : Prop :=
  m.Of tenantId runId ∧ ∀ ev ∈ m.buffer, ev.Of tenantId runId

theorem Mem.Owns.append {tenantId runId : String} {m : Mem} (h : m.Owns tenantId runId) {run : Run}
    (htenant : run.tenantId = tenantId) (hid : run.id = runId) {ev : Event} (hev : ev.Of tenantId runId) :
    Mem.Owns tenantId runId ⟨run, m.buffer ++ [ev]⟩ :=
  ⟨⟨htenant, hid⟩, fun ev' hmem =>
    (List.mem_append.mp hmem).elim (h.2 ev') fun hnew => List.mem_singleton.mp hnew ▸ hev⟩

section Engine

variable {policy : PolicyEngine} {redact : Json → Json} {cfg : EngineConfig} {tenantId runId : String}

/-- A driver by itself makes calls of its own. -/
abbrev ownsSpec (policy : PolicyEngine) (redact : Json → Json) (cfg : EngineConfig)
    (tenantId runId : String) : Spec Call Call.Res DB :=
  .sequential (Call.faultyStep policy redact) fun db call => call.op.Own cfg tenantId runId db

abbrev KeepsOwn {α : Type} (policy : PolicyEngine) (redact : Json → Json) (cfg : EngineConfig)
    (tenantId runId : String) (x : EngineM α) : Prop :=
  Act.Keeps (ownsSpec policy redact cfg tenantId runId) (fun m _ => m.Owns tenantId runId) x

theorem owns_perform {op : Op} (h : ∀ db, op.Own cfg tenantId runId db) :
    KeepsOwn policy redact cfg tenantId runId (perform op) :=
  Act.keeps_perform fun _ _ hm db _ => ⟨h db, fun _ _ _ => hm⟩

theorem owns_of_acting {op : Op} (hacting : op.Acting) (hby : op.By cfg tenantId runId) (db : DB) :
    op.Own cfg tenantId runId db := by
  cases op with
  | checkpoint | resolveApproval => exact False.elim hacting
  | _ => exact hby

theorem owns_checkpoint : KeepsOwn policy redact cfg tenantId runId EngineM.checkpoint := by
  refine keeps_checkpoint_call fun m db hm _ _ => ⟨⟨hm.1.1, hm.1.2, hm.2⟩, fun _ _ _ => ⟨hm, hm.1, ?_⟩⟩
  exact fun ev hmem => absurd hmem List.not_mem_nil

theorem owns_driver (P : Op → Prop) :
    DriverInv cfg (ownsSpec policy redact cfg tenantId runId) (fun m _ => m.Owns tenantId runId) P tenantId
      runId where
  held := fun _ _ hm => hm.1
  run := fun _ hf => keeps_modifyRun fun m _ hm =>
    ⟨⟨(hf m.run).1.trans hm.1.1, (hf m.run).2.trans hm.1.2⟩, hm.2⟩
  emit := fun _ _ _ _ _ => Act.keeps_modify fun _ _ hm =>
    hm.append hm.1.1 hm.1.2 ⟨hm.1.2, hm.1.1⟩
  call := fun _ hacting _ hby => owns_perform (owns_of_acting hacting hby)

/-- The approval that the callback decides is the one that was created for it. -/
theorem owns_awaitSync (hsync : cfg.approvalFn = true) (step : Step) (approvers : List String)
    (tool : String) (args : Args) :
    KeepsOwn policy redact cfg tenantId runId (WorkflowEngine.awaitSync step approvers tool args) := by
  intro m db hm
  obtain ⟨htenant, hid⟩ := hm.1
  refine (wp_getRun_bind _).mpr ((Act.wp_perform_bind _ _).mpr ?_)
  rintro _ rfl
  refine ⟨⟨htenant, hid⟩, fun created db₁ hcreate => (Act.wp_ofExcept_bind _ _).mpr ?_⟩
  cases created with
  | error e => exact hm
  | ok approvalId =>
      have hcreated : (Op.createApproval m.run.tenantId m.run.id step.id approvers).step policy redact db
        (.ok approvalId) db₁ := hcreate.resolve_right fun hraised => hraised.1
      obtain ⟨row, hrow, hown, howner, -⟩ := find?_createApproval hcreated
      have hasked : Mem.Owns tenantId runId ⟨{ m.run with status := .waitingApproval },
          m.buffer ++ [⟨m.run.id, m.run.tenantId, "approval_requested",
            WorkflowEngine.approvalRequested approvalId approvers tool args, some step.id, "system", 0⟩]⟩ :=
        hm.append htenant hid ⟨hid, htenant⟩
      refine (wp_modifyRun_bind _ _).mpr ((wp_emit_bind _ _ _ _ _ _).mpr ((wp_getRun_bind _).mpr ?_))
      refine (Act.wp_perform_bind _ _).mpr ?_
      rintro _ rfl
      refine ⟨⟨hsync, htenant, hid⟩, fun answer db₂ hanswer => (Act.wp_ofExcept_bind _ _).mpr ?_⟩
      obtain rfl : db₂ = db₁ := hanswer.elim id fun hraised => hraised.2
      cases answer with
      | error e => exact hasked
      | ok granted =>
          refine (Act.wp_perform_bind _ _).mpr ?_
          rintro _ rfl
          refine ⟨⟨htenant, row, hrow, hown.trans htenant, howner.trans hid⟩, fun resolved db₃ _ => ?_⟩
          refine (Act.wp_ofExcept_bind _ _).mpr ?_
          cases resolved with
          | error e => exact hasked
          | ok value =>
              refine (wp_emit_bind _ _ _ _ _ _).mpr ((wp_modifyRun_bind _ _).mpr ?_)
              exact hasked.append htenant hid ⟨hid, htenant⟩

theorem owns_awaitAsync (step : Step) (approvers : List String) (tool : String) (args : Args) :
    KeepsOwn policy redact cfg tenantId runId (WorkflowEngine.awaitAsync step approvers tool args) := by
  have h : DriverInv cfg (ownsSpec policy redact cfg tenantId runId) (fun m _ => m.Owns tenantId runId)
    (fun _ => True) tenantId runId := owns_driver _
  refine h.getRun_bind fun run htenant hid => ?_
  refine Act.keeps_bind (owns_perform fun _ => ⟨htenant, hid⟩) fun existing => ?_
  split
  · refine Act.keeps_bind (owns_perform fun _ => ⟨htenant, hid⟩) fun created => ?_
    refine Act.keeps_bind (Act.keeps_ofExcept _) fun approvalId => ?_
    refine Act.keeps_bind (h.run _ fun _ => ⟨rfl, rfl⟩) fun _ => ?_
    refine Act.keeps_bind (h.emit _ _ _ _ _) fun _ => ?_
    exact Act.keeps_bind owns_checkpoint fun _ => Act.keeps_throw _
  · split
    · refine Act.keeps_bind (h.run _ fun _ => ⟨rfl, rfl⟩) fun _ => ?_
      exact Act.keeps_bind owns_checkpoint fun _ => Act.keeps_throw _
    · exact Act.keeps_bind (h.emit _ _ _ _ _) fun _ => Act.keeps_pure _

theorem owns_awaitApproval (step : Step) (approvers : List String) (tool : String) (args : Args) :
    KeepsOwn policy redact cfg tenantId runId (WorkflowEngine.awaitApproval cfg step approvers tool args) := by
  unfold WorkflowEngine.awaitApproval
  split
  · rename_i hsync
    exact owns_awaitSync hsync step approvers tool args
  · exact owns_awaitAsync step approvers tool args

/-- A driver that has the database to itself works on its own run. -/
theorem owns_resume (wf : Workflow) :
    KeepsOwn policy redact cfg tenantId runId (WorkflowEngine.resume cfg wf) := by
  have h : DriverInv cfg (ownsSpec policy redact cfg tenantId runId) (fun m _ => m.Owns tenantId runId)
    (fun _ => True) tenantId runId := owns_driver _
  refine h.resume (fun step _ => ?_) (fun step _ => owns_perform fun _ => trivial) owns_checkpoint
  exact (owns_driver (Op.Of cfg step)).runStep (owns_awaitApproval step)

end Engine

/-! ### Jobs -/

/-- What an orchestrator is asked to do with a run. -/
inductive Job where
  | fire (wf : Workflow) (trigger : Trigger)
  | resume (wf : Workflow)

namespace Job

def request (tenantId runId : String) (buffer : List Event) : Job → Request
  | fire wf trigger => .orchestratorFire tenantId runId wf trigger buffer
  | resume wf => .orchestratorResume tenantId runId wf buffer

/-- The program of a job on an engine whose buffer holds `buffer`. -/
def program (d : Deployment) (tenantId runId : String) (buffer : List Event) (job : Job) :
    Driver (Except Exc Run × Mem) :=
  ((job.request tenantId runId buffer).code d).exec (job.request tenantId runId buffer).memory

/-- The key under which the job's run is stored, if the job creates it. -/
def key? (d : Deployment) (tenantId runId : String) (job : Job) : Option (String × String) :=
  ((job.request tenantId runId []).wanted d).map fun run => (run.tenantId, run.idempotencyKey)

/-- Driving a run with the workflow, to the value that the orchestrator returns. -/
def drive (d : Deployment) (wf : Workflow) : EngineM Run := do
  WorkflowEngine.resume d.engine wf
  getRun

end Job

/-- The calls of a job: those of its driver, and the lookups and the insertion before it. -/
def Op.OfJob (d : Deployment) (tenantId runId : String) (job : Job) (db : DB) : Op → Prop
  | .insertRun run => (job.request tenantId runId []).wanted d = some run
  | .loadRun tenant id => tenant = tenantId ∧ id = runId
  | .loadRunByKey tenant key => job.key? d tenantId runId = some (tenant, key)
  | op => op.Own d.engine tenantId runId db

section Jobs

variable {d : Deployment} {redact : Json → Json} {tenantId runId : String}

theorem program_fire (d : Deployment) (tenantId runId : String) (buffer : List Event) (wf : Workflow)
    (trigger : Trigger) :
    (Job.fire wf trigger).program d tenantId runId buffer =
      (Request.orchestratorFire tenantId runId wf trigger buffer).creating d
        (Run.ofTrigger d.builtins tenantId runId wf trigger)
        ⟨Run.ofTrigger d.builtins tenantId runId wf trigger, buffer⟩ :=
  exec_orchestratorFire d tenantId runId wf trigger buffer

theorem program_resume (d : Deployment) (tenantId runId : String) (buffer : List Event) (wf : Workflow) :
    (Job.resume wf).program d tenantId runId buffer =
      .call ⟨Mem.request tenantId runId buffer, .loadRun tenantId runId⟩ fun answer => match answer with
        | .ok (some run) =>
            if run.status.terminal then .pure (.ok run, ⟨run, buffer⟩)
            else (Job.drive d wf).exec ⟨run, buffer⟩
        | .ok none => .pure (.error (.keyError runId), Mem.request tenantId runId buffer)
        | .error e => .pure (.error e, Mem.request tenantId runId buffer) := by
  change (hydrate tenantId runId >>= _).exec (Mem.request tenantId runId buffer) = _
  rw [exec_hydrate_bind]
  congr 1
  funext answer
  rcases answer with e | _ | run
  · rfl
  · rfl
  · cases hterminal : run.status.terminal <;> simp only [hterminal] <;> rfl

abbrev jobSpec (d : Deployment) (redact : Json → Json) (tenantId runId : String) (job : Job) :
    Spec Call Call.Res DB :=
  .sequential (Call.faultyStep d.engine.policy redact) fun db call => call.op.OfJob d tenantId runId job db

/-- The events that a job leaves in the buffer are its run's. -/
def LeavesOwn (tenantId runId : String) (out : Except Exc Run × Mem) : Prop :=
  ∀ ev ∈ out.2.buffer, ev.Of tenantId runId

theorem leavesOwn_nil (result : Except Exc Run) (run : Run) : LeavesOwn tenantId runId (result, ⟨run, []⟩) :=
  fun _ hmem => absurd hmem List.not_mem_nil

theorem job_drive {job : Job} {x : EngineM Run}
    (hx : KeepsOwn d.engine.policy redact d.engine tenantId runId x) {m : Mem} {db : DB}
    (hm : m.Owns tenantId runId) :
    (x.exec m).wp (jobSpec d redact tenantId runId job) (fun out _ => LeavesOwn tenantId runId out) db := by
  have hown : ∀ (db : DB) (call : Call), call.op.Own d.engine tenantId runId db →
      call.op.OfJob d tenantId runId job db := by
    rintro db ⟨m, op⟩ h
    cases op with
    | insertRun | loadRun | loadRunByKey => exact False.elim h
    | _ => exact h
  have hwp : (x.exec m).wp (ownsSpec d.engine.policy redact d.engine tenantId runId)
      (fun out _ => LeavesOwn tenantId runId out) db := by
    refine Prog.wp_mono (fun out _ hout => ?_) _ (hx m db hm)
    obtain ⟨r, m'⟩ := out
    cases r <;> exact hout.2
  refine Prog.wp_weaken ?_ hown ?_ _ hwp
  · exact fun _ _ heq => heq
  · exact fun _ _ _ _ hstep => hstep

theorem owns_drive (wf : Workflow) :
    KeepsOwn d.engine.policy redact d.engine tenantId runId (Job.drive d wf) :=
  Act.keeps_bind (owns_resume wf) fun _ => keeps_getRun

theorem job_program (job : Job) (db : DB) :
    (job.program d tenantId runId []).wp (jobSpec d redact tenantId runId job)
      (fun out _ => LeavesOwn tenantId runId out) db := by
  cases job with
  | fire wf trigger =>
      rw [program_fire]
      rintro _ rfl
      refine ⟨rfl, fun inserted db₁ _ => ?_⟩
      have hown : Mem.Owns tenantId runId ⟨Run.ofTrigger d.builtins tenantId runId wf trigger, []⟩ :=
        ⟨⟨rfl, rfl⟩, fun _ hmem => absurd hmem List.not_mem_nil⟩
      cases inserted with
      | true =>
          refine job_drive ?_ hown
          exact Act.keeps_bind ((owns_driver fun _ => True).emit _ _ _ _ _) fun _ => owns_drive wf
      | false =>
          rintro _ rfl
          refine ⟨rfl, fun answer db₂ _ => ?_⟩
          rcases answer with e | _ | existing
          · exact leavesOwn_nil _ _
          · exact leavesOwn_nil _ _
          · exact leavesOwn_nil _ _
  | resume wf =>
      rw [program_resume]
      rintro _ rfl
      refine ⟨⟨rfl, rfl⟩, fun answer db₁ hload => ?_⟩
      rcases answer with e | _ | run
      · exact leavesOwn_nil _ _
      · exact leavesOwn_nil _ _
      · have hloaded : (Op.loadRun tenantId runId).step d.engine.policy redact db (.ok (some run)) db₁ :=
          hload.resolve_right fun hraised => hraised.1
        obtain ⟨hid, row, hrow, rfl⟩ := id_of_loadRun hloaded.1.symm
        have htenant : row.tenantId = tenantId := by
          by_contra hforeign
          have hother : ∀ row', db.runs.find? runId = some row' → row'.tenantId ≠ tenantId := by
            rintro row' hrow'
            obtain rfl := Option.some.inj (hrow.symm.trans hrow')
            exact hforeign
          rcases loadRun_of_not_own hother with hnone | ⟨message, herror⟩
          · cases hloaded.1.trans hnone
          · cases hloaded.1.trans herror
        dsimp only
        split
        · exact leavesOwn_nil _ _
        · exact job_drive (owns_drive wf)
            ⟨⟨htenant, hid⟩, fun _ hmem => absurd hmem List.not_mem_nil⟩

end Jobs

end Bass
