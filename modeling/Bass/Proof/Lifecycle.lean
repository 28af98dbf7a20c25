import Bass.Proof.AuditTrail
import Bass.Proof.Sessions

/-!
# The life of a run

Whatever any number of requests do to a run at the same time, its row is at every moment one that a single drive
could have left, and the rest of the store bears its status out: a run that has ended has the event that ended it
in the log, and a run that waits has an approval on record.
-/

namespace Bass

open Interaction EngineM WorkflowEngine

/-! ### Rows that are borne out -/

def succeededEvent (tenantId runId : String) (result : Json) : Event :=
  ⟨runId, tenantId, "run_succeeded", .obj [("result", result)], none, "system", 0⟩

def errorEvent (tenantId runId reason detail : String) : Event :=
  ⟨runId, tenantId, "error", .obj [("reason", .str reason), ("detail", .str detail)], none, "system", 0⟩

/-- What a run may fail for. -/
def failureReasons : List String := ["budget exceeded", "policy denied", "step failed"]

/-- An approval has been requested for the run. -/
def DB.Asked (db : DB) (tenantId runId : String) : Prop :=
  ∃ approval ∈ db.approvals.rows, approval.tenantId = tenantId ∧ approval.runId = runId

/-- What the row and the rest of the store say for the status. -/
def RunRow.BorneOut (redact : Json → Json) (db : DB) (row : RunRow) : RunStatus → Prop
  | .pending => row.stepsUsed = 0 ∧ row.costUsd = 0
  | .running => True
  | .waitingApproval => db.Asked row.tenantId row.id
  | .succeeded => row.resultJson = dumpResult (finalResult row.contextJson) ∧
      Stored redact db (succeededEvent row.tenantId row.id (finalResult row.contextJson))
  | .failed => ∃ reason ∈ failureReasons, ∃ detail, Stored redact db (errorEvent row.tenantId row.id reason detail)
  | .canceled => ∃ now seq, canceledRow row.tenantId row.id now seq ∈ db.events.rows

structure RunRow.Sound (redact : Json → Json) (db : DB) (row : RunRow) : Prop where
  cursor : row.cursorStep = none ↔ row.status = .succeeded
  borneOut : row.BorneOut redact db row.status

def DB.Sound (redact : Json → Json) (db : DB) : Prop :=
  ∀ runId row, db.runs.find? runId = some row → row.Sound redact db

/-- What others do to the store: events and approvals stay. -/
structure DB.Grown (db db' : DB) : Prop where
  events : db.events.rows <+: db'.events.rows
  asked : ∀ tenantId runId, db.Asked tenantId runId → db'.Asked tenantId runId

variable {policy : PolicyEngine} {redact : Json → Json} {db db₁ db' : DB}

theorem DB.Grown.refl (db : DB) : db.Grown db := ⟨List.prefix_rfl, fun _ _ h => h⟩

theorem DB.Grown.trans (h : db.Grown db₁) (h' : db₁.Grown db') : db.Grown db' :=
  ⟨h.events.trans h'.events, fun tenantId runId hasked => h'.asked tenantId runId (h.asked tenantId runId hasked)⟩

theorem grown_of_step {op : Op} {answer : op.Res} (h : op.step policy redact db answer db') : db.Grown db' := by
  refine ⟨events_of_step h, ?_⟩
  rintro tenantId runId ⟨approval, hmem, htenant, hrun⟩
  obtain ⟨approval', hmem', hsubject⟩ := approval_kept_of_step h hmem
  obtain ⟨-, hrun', htenant', -⟩ : approval'.id = approval.id ∧ approval'.runId = approval.runId ∧
      approval'.tenantId = approval.tenantId ∧ approval'.stepId = approval.stepId := by
    simpa [ApprovalRow.subject] using hsubject
  exact ⟨approval', hmem', htenant'.trans htenant, hrun'.trans hrun⟩

theorem RunRow.BorneOut.mono {row : RunRow} {status : RunStatus} (h : row.BorneOut redact db status)
    (hgrown : db.Grown db') : row.BorneOut redact db' status := by
  cases status with
  | pending => exact h
  | running => trivial
  | waitingApproval => exact hgrown.asked _ _ h
  | succeeded => exact ⟨h.1, h.2.mono hgrown.events⟩
  | failed =>
      obtain ⟨reason, hreason, detail, hstored⟩ := h
      exact ⟨reason, hreason, detail, hstored.mono hgrown.events⟩
  | canceled =>
      obtain ⟨now, seq, hmem⟩ := h
      exact ⟨now, seq, hgrown.events.subset hmem⟩

theorem RunRow.Sound.mono {row : RunRow} (h : row.Sound redact db) (hgrown : db.Grown db') :
    row.Sound redact db' :=
  ⟨h.cursor, h.borneOut.mono hgrown⟩

/-! ### What a call owes -/

/-- What the run and the events that are committed with it say for the status. -/
def Run.Backed (db : DB) (run : Run) (events : List Event) : RunStatus → Prop
  | .pending | .canceled => False
  | .running => True
  | .waitingApproval => db.Asked run.tenantId run.id
  | .succeeded => run.result = finalResult run.context ∧ succeededEvent run.tenantId run.id run.result ∈ events
  | .failed => ∃ reason ∈ failureReasons, ∃ detail, errorEvent run.tenantId run.id reason detail ∈ events

structure Run.Committable (db : DB) (run : Run) (events : List Event) : Prop where
  cursor : run.cursorStep = none ↔ run.status = .succeeded
  backed : run.Backed db events run.status

def Op.Owed (db : DB) : Op → Prop
  | .insertRun run => run.status = .pending ∧ run.cursorStep ≠ none ∧ run.stepsUsed = 0 ∧ run.costUsd = 0
  | .checkpoint run events => run.Committable db events
  | _ => True

theorem sound_newRow {run : Run} (h : (Op.insertRun run).Owed db) (now : ℕ → ℚ) :
    (run.newRow now).Sound redact db' := by
  obtain ⟨hstatus, hcursor, hsteps, hcost⟩ := h
  have hpending : (run.newRow now).status = .pending := hstatus
  refine ⟨⟨fun hnone => absurd hnone hcursor, fun hsucceeded => ?_⟩, ?_⟩
  · cases hpending.symm.trans hsucceeded
  · rw [hpending]
    exact ⟨hsteps, hcost⟩

theorem sound_writeRow {run : Run} {events : List Event} {row : RunRow} (h : run.Committable db events)
    (hgrown : db.Grown db') (hstored : ∀ ev ∈ events, Stored redact db' ev) (hid : row.id = run.id)
    (htenant : row.tenantId = run.tenantId) (now : ℚ) : (run.writeRow now row).Sound redact db' := by
  have hwritten : ∀ status, run.Backed db events status → (run.writeRow now row).BorneOut redact db' status := by
    intro status hbacked
    unfold RunRow.BorneOut
    rw [Run.writeRow_id, Run.writeRow_tenantId, hid, htenant]
    cases status with
    | pending | canceled => exact hbacked.elim
    | running => trivial
    | waitingApproval => exact hgrown.asked _ _ hbacked
    | succeeded =>
        obtain ⟨hresult, hmem⟩ := hbacked
        rw [hresult] at hmem
        exact ⟨congrArg dumpResult hresult, hstored _ hmem⟩
    | failed =>
        obtain ⟨reason, hreason, detail, hmem⟩ := hbacked
        exact ⟨reason, hreason, detail, hstored _ hmem⟩
  exact ⟨h.cursor, hwritten _ h.backed⟩

/-- A cancellation that takes place is in the log. -/
theorem canceledRow_of_step {tenantId runId : String}
    (h : (Op.cancelRun tenantId runId).step policy redact db (.ok true) db') :
    ∃ now seq, canceledRow tenantId runId now seq ∈ db'.events.rows := by
  obtain ⟨written, hrows, hrecords⟩ := (extended_of_step h).rows
  cases hrecords with
  | cons entry now tail =>
      refine ⟨now, db.events.last + 1, ?_⟩
      rw [hrows]
      exact List.mem_append_right _ List.mem_cons_self

/-- A call that does what it owes keeps every row borne out. -/
theorem sound_of_step {op : Op} {answer : op.Res} (h : op.step policy redact db answer db')
    (howed : op.Owed db) (hsound : db.Sound redact) : db'.Sound redact := by
  have hgrown := grown_of_step h
  intro runId row' hrow'
  cases hfind : db.runs.find? runId with
  | none =>
      rcases absent_of_step h hfind with hnone | ⟨run, now, heq, -, hnew⟩
      · cases hnone.symm.trans hrow'
      · cases heq
        obtain rfl := Option.some.inj (hrow'.symm.trans hnew)
        exact sound_newRow howed now
  | some row =>
      have hold := hsound runId row hfind
      rcases runRow_of_step h hfind with hsame | ⟨run, events, now, rfl, hid, htenant, hnew⟩ |
        ⟨tenantId, now, rfl, hterminal, hnew⟩
      · obtain rfl := Option.some.inj (hrow'.symm.trans hsame)
        exact hold.mono hgrown
      · cases answer with
        | ok value =>
            obtain rfl := Option.some.inj (hrow'.symm.trans hnew)
            exact sound_writeRow howed hgrown (fun ev hmem => stored_of_checkpoint h hmem)
              ((Table.key_of_find? hfind).trans hid.symm) htenant now
        | error e =>
            obtain ⟨now', hcommits⟩ := h
            rcases commits_map_cases hcommits with ⟨-, hanswer⟩ | ⟨-, -, -, rfl⟩
            · cases hanswer
            · exact hsound runId row' hrow'
      · have hstep := h
        obtain ⟨now', hcommits⟩ := h
        rcases hcommits.cases with ⟨canceled, htx, rfl⟩ | ⟨e, -, -, rfl⟩
        · rcases DB.cancelRun_ok htx with ⟨-, rfl⟩ | ⟨rfl, ⟨target, htarget, htenant, -⟩, -⟩
          · exact hsound runId row' hrow'
          · obtain rfl := Option.some.inj (htarget.symm.trans hfind)
            obtain rfl := Option.some.inj (hrow'.symm.trans hnew)
            refine ⟨⟨fun hnone => ?_, nofun⟩, ?_⟩
            · rw [hold.cursor.mp hnone] at hterminal
              cases hterminal
            · obtain ⟨now', seq, hmem⟩ := canceledRow_of_step hstep
              rw [← htenant, ← Table.key_of_find? hfind] at hmem
              exact ⟨now', seq, hmem⟩
        · exact hsound runId row' hrow'

/-! ### A drive -/

/-- The driver of a run that has not ended. -/
structure UnderWay (m : Mem) (db : DB) : Prop where
  cursor : m.run.cursorStep ≠ none
  status : m.run.status = .running ∨ m.run.status = .waitingApproval ∧ db.Asked m.run.tenantId m.run.id

theorem UnderWay.grown {m : Mem} (h : UnderWay m db) (hgrown : db.Grown db') : UnderWay m db' :=
  ⟨h.cursor, h.status.imp_right fun ⟨hstatus, hasked⟩ => ⟨hstatus, hgrown.asked _ _ hasked⟩⟩

theorem UnderWay.inPlace {m m' : Mem} (h : UnderWay m db) (hplace : InPlace m m') : UnderWay m' db := by
  refine ⟨?_, ?_⟩
  · rw [hplace.cursorStep]
    exact h.cursor
  · rw [hplace.status, hplace.tenantId, hplace.id]
    exact h.status

theorem UnderWay.committable {m : Mem} (h : UnderWay m db) (events : List Event) : m.run.Committable db events := by
  rcases h.status with hstatus | ⟨hstatus, hasked⟩
  · refine ⟨⟨fun hnone => absurd hnone h.cursor, fun hsucceeded => ?_⟩, ?_⟩
    · cases hstatus.symm.trans hsucceeded
    · rw [hstatus]
      trivial
  · refine ⟨⟨fun hnone => absurd hnone h.cursor, fun hsucceeded => ?_⟩, ?_⟩
    · cases hstatus.symm.trans hsucceeded
    · rw [hstatus]
      exact hasked

/-- What a request owes while the rows stay borne out and the store grows. -/
def lifeSpec (d : Deployment) (redact : Json → Json) : Spec Call Call.Res DB where
  step db call answer db' := db.Sound redact ∧ Call.step d.engine.policy redact db call answer db'
  rely := DB.Grown
  guar db call := call.op.Owed db

section Engine

variable {d : Deployment} {cfg : EngineConfig} {wf : Workflow} {m : Mem}

theorem underWay_perform {op : Op} (hop : ∀ db : DB, op.Owed db) :
    Act.Keeps (lifeSpec d redact) UnderWay (perform op) :=
  Act.keeps_perform fun _ _ h _ hrely =>
    ⟨hop _, fun _ _ hs => (h.grown hrely).grown (grown_of_step hs.2)⟩

theorem underWay_inner {op : Op} (hop : op.Inner) : Act.Keeps (lifeSpec d redact) UnderWay (perform op) := by
  refine underWay_perform fun db => ?_
  cases op <;> trivial

theorem underWay_emit (type : String) (payload : Json) (stepId : Option String) (costUsd : ℚ) (actor : String) :
    Act.Keeps (lifeSpec d redact) UnderWay (emit type payload stepId costUsd actor) :=
  keeps_emit_inPlace (fun _ _ _ hplace _ h => h.inPlace hplace) type payload stepId costUsd actor

theorem underWay_checkpoint : Act.Keeps (lifeSpec d redact) UnderWay EngineM.checkpoint := by
  refine keeps_checkpoint_call fun m db h db₁ hrely => ⟨(h.grown hrely).committable _, fun answer db' hs => ?_⟩
  have hkept := (h.grown hrely).grown (grown_of_step hs.2)
  exact ⟨hkept, hkept.cursor, hkept.status⟩

/-- A run that a drive ends is committed with the event that ends it. -/
theorem ended_checkpoint (hcursor : m.run.cursorStep = none ↔ m.run.status = .succeeded)
    (hbacked : ∀ db, m.run.Backed db m.buffer m.run.status) :
    Act.wp (lifeSpec d redact) EngineM.checkpoint (fun _ _ _ => True) (fun _ _ _ => True) m db := by
  refine wp_checkpoint.mpr fun db₁ _ => ⟨⟨hcursor, hbacked db₁⟩, fun answer db' _ => ?_⟩
  cases answer <;> trivial

theorem ended_failRun {reason : String} (hreason : reason ∈ failureReasons) (detail : String)
    (h : m.run.cursorStep ≠ none) :
    Act.wp (lifeSpec d redact) (failRun reason detail) (fun _ _ _ => True) (fun _ _ _ => True) m db := by
  refine (wp_modifyRun_bind _ _).mpr ((wp_emit_bind _ _ _ _ _ _).mpr (ended_checkpoint ?_ fun db => ?_))
  · exact ⟨fun hnone => absurd hnone h, nofun⟩
  · exact ⟨reason, hreason, detail, List.mem_append_right _ List.mem_cons_self⟩

/-- A request for an approval that is answered is on record from then on. -/
theorem underWay_request (stepId : String) (approvers : List String) {α : Type} (rest : String → EngineM α)
    (hrest : ∀ approvalId, Act.Keeps (lifeSpec d redact) UnderWay (rest approvalId)) (h : UnderWay m db) :
    Act.wp (lifeSpec d redact) (do
      let created ← perform (.createApproval m.run.tenantId m.run.id stepId approvers)
      let approvalId ← Act.ofExcept created
      setStatus .waitingApproval
      rest approvalId) (fun _ => UnderWay) (fun _ => UnderWay) m db := by
  refine (Act.wp_perform_bind _ _).mpr fun db₁ hrely => ⟨trivial, fun created db₂ hs => ?_⟩
  have hkept := (h.grown hrely).grown (grown_of_step hs.2)
  refine (Act.wp_ofExcept_bind _ _).mpr ?_
  cases created with
  | error e => exact hkept
  | ok approvalId =>
      obtain ⟨approval, hfind, htenant, hrun, -⟩ := find?_createApproval hs.2
      refine (wp_modifyRun_bind _ _).mpr (hrest approvalId _ db₂ ⟨hkept.cursor, .inr ⟨rfl, ?_⟩⟩)
      exact ⟨approval, Table.mem_of_find? hfind, htenant, hrun⟩

theorem underWay_awaitApproval (step : Step) (approvers : List String) (tool : String) (args : Args) :
    Act.Keeps (lifeSpec d redact) UnderWay (awaitApproval cfg step approvers tool args) := by
  unfold awaitApproval
  split
  · intro m db h
    refine (wp_getRun_bind _).mpr (underWay_request step.id approvers _ (fun approvalId => ?_) h)
    refine Act.keeps_bind (underWay_emit _ _ _ _ _) fun _ => Act.keeps_bind keeps_getRun fun run => ?_
    refine Act.keeps_bind (underWay_inner trivial) fun answer => ?_
    refine Act.keeps_bind (Act.keeps_ofExcept _) fun granted => ?_
    refine Act.keeps_bind (underWay_inner trivial) fun resolved => ?_
    refine Act.keeps_bind (Act.keeps_ofExcept _) fun _ => Act.keeps_bind (underWay_emit _ _ _ _ _) fun _ => ?_
    exact Act.keeps_bind (keeps_modifyRun fun m db h => ⟨h.cursor, .inl rfl⟩) fun _ => Act.keeps_pure _
  · intro m db h
    refine (wp_getRun_bind _).mpr ((Act.wp_perform_bind _ _).mpr fun db₁ hrely => ⟨trivial, ?_⟩)
    intro found db₂ hs
    have hkept := (h.grown hrely).grown (grown_of_step hs.2)
    cases found with
    | none =>
        refine underWay_request step.id approvers _ (fun approvalId => ?_) hkept
        refine Act.keeps_bind (underWay_emit _ _ _ _ _) fun _ => ?_
        exact Act.keeps_bind underWay_checkpoint fun _ => Act.keeps_throw _
    | some found =>
        obtain ⟨approvalId, status⟩ := found
        dsimp only
        split
        · obtain ⟨row, hrow, -, -, htenant, hrun, -⟩ := row_of_latestApproval hs.2.1.symm
          refine (wp_modifyRun_bind _ _).mpr ((Act.wp_bind _ _).mpr ?_)
          refine underWay_checkpoint _ db₂ ⟨hkept.cursor, .inr ⟨rfl, row, ?_, htenant, hrun⟩⟩
          exact hs.2.2 ▸ hrow
        · exact Act.keeps_bind (underWay_emit _ _ _ _ _) (fun _ => Act.keeps_pure _) m db₂ hkept

theorem underWay_handlers : Handlers cfg wf (lifeSpec d redact) UnderWay fun _ => UnderWay :=
  handlers_inPlace (fun _ _ _ h => h) (fun _ _ _ hplace h => h.inPlace hplace)
    (fun _ hop => underWay_inner hop.inStep.inner) wf underWay_awaitApproval

theorem underWay_compensate (step : Step) :
    Act.Keeps (lifeSpec d redact) UnderWay (compensate cfg wf step) := by
  unfold compensate
  split
  · exact Act.keeps_pure _
  · rename_i comp hcomp
    refine Act.keeps_bind (underWay_emit _ _ _ _ _) fun _ => ?_
    refine Act.keeps_tryCatch ?_ fun e => underWay_emit _ _ _ _ _
    exact Act.keeps_bind (underWay_handlers.runStep (hasStep_of_compensation hcomp)) fun _ => Act.keeps_pure _

theorem underWay_enter (step : Step) (h : UnderWay m db) :
    Act.wp (lifeSpec d redact) (do
      modifyRun fun run => { run with stepsUsed := run.stepsUsed + 1 }
      emit "state_transition"
        (.obj [("entering_step", .str step.id), ("type", .str step.nodeType.value)]) (some step.id)
      perform (.stepSpan step)) (fun _ => UnderWay) (fun _ _ _ => True) m db := by
  have hcounted : UnderWay { m with run := { m.run with stepsUsed := m.run.stepsUsed + 1 } } db :=
    ⟨h.cursor, h.status⟩
  have hspan : Act.Keeps (lifeSpec d redact) UnderWay (perform (.stepSpan step)) := underWay_inner trivial
  exact (wp_modifyRun_bind _ _).mpr (Act.wp_mono _ (fun _ _ _ h' => h') (fun _ _ _ _ => trivial)
    (Act.keeps_bind (underWay_emit _ _ _ _ _) (fun _ => hspan) _ db hcounted))

/-- The end of the graph is the success of the run. -/
theorem underWay_advance (next : Option String) (h : UnderWay m db) :
    Act.wp (lifeSpec d redact) (advance next) (fun _ m' db' => next ≠ none → UnderWay m' db') (fun _ _ _ => True)
      m db := by
  refine (wp_modifyRun_bind _ _).mpr ?_
  cases next with
  | none =>
      refine (wp_modifyRun_bind _ _).mpr ((wp_modifyRun_bind _ _).mpr ((wp_getRun_bind _).mpr
        ((wp_emit_bind _ _ _ _ _ _).mpr ?_)))
      refine Act.wp_mono _ (fun _ _ _ _ hne => absurd rfl hne) (fun _ _ _ _ => trivial)
        (ended_checkpoint ⟨fun _ => rfl, fun _ => rfl⟩ fun db => ?_)
      exact ⟨rfl, List.mem_append_right _ List.mem_cons_self⟩
  | some stepId =>
      have hmoved : UnderWay { m with run := { m.run with cursorStep := some stepId } } db := ⟨nofun, h.status⟩
      exact Act.wp_mono _ (fun _ _ _ h' _ => h') (fun _ _ _ _ => trivial) (underWay_checkpoint _ db hmoved)

theorem life_outline : Outline cfg wf (lifeSpec d redact) (fun next m db => next ≠ none → UnderWay m db)
    (fun _ => UnderWay) (fun _ _ => UnderWay) (fun _ _ => UnderWay) (fun _ _ _ => True) where
  unknown := fun _ _ _ _ _ => trivial
  budget := fun _ _ _ _ _ _ h _ => ended_failRun (by decide) _ (h nofun).cursor
  enter := fun _ step _ _ _ h _ => underWay_enter step (h nofun)
  run := fun _ m db hstep _ h => underWay_handlers.runStep hstep m db h
  retry := fun _ _ _ m db _ _ h =>
    Act.wp_mono _ (fun _ _ _ h' => ⟨h', h'⟩) (fun _ _ _ h' => h') (underWay_emit _ _ _ _ _ m db h)
  exhausted := fun _ _ _ h => h
  denied := fun _ _ _ _ _ _ h => ended_failRun (by decide) _ h.cursor
  failed := by
    intro step e m db _ _ h
    refine (Act.wp_bind _ _).mpr (Act.wp_mono _ (fun _ m' db' h' => ?_) (fun _ _ _ _ => trivial)
      (underWay_compensate step m db h))
    exact ended_failRun (by decide) _ h'.cursor
  other := fun _ _ _ _ _ _ _ _ => trivial
  finish := fun _ next _ _ _ h => underWay_advance next h

end Engine

/-! ### A request -/

/-- The run in memory is over, or has a cursor. -/
def Loaded (m : Mem) (_ : DB) : Prop := m.run.status.terminal = false → m.run.cursorStep ≠ none

variable {d : Deployment}

theorem owed_wanted {request : Request} {run : Run} (h : request.wanted d = some run) :
    (Op.insertRun run).Owed db := by
  obtain ⟨-, hcost, hsteps, hstatus⟩ := wanted_ident h
  refine ⟨hstatus, ?_, hsteps, hcost⟩
  cases request with
  | orchestratorFire tenantId runId wf trigger buffer =>
      cases h
      nofun
  | apiFire tenantId runId wfName trigger =>
      obtain ⟨wf, -, rfl⟩ := Option.map_eq_some_iff.mp h
      nofun
  | orchestratorResume | runnerResume | apiResolve | apiCancel => cases h

theorem life_entry (request : Request) : Entry d (lifeSpec d redact) (fun _ => True) Loaded request where
  rely := fun _ _ _ _ => trivial
  early := fun _ _ _ _ _ _ _ _ _ => trivial
  service := by
    intro db m op hop hwanted
    cases op with
    | insertRun run => exact (owed_wanted (hwanted run rfl) : (Op.insertRun run).Owed db)
    | checkpoint run events => exact hop.elim
    | _ => trivial
  loaded := by
    rintro db m tenantId run db' - - ⟨hsound, hload, -⟩ hrunning hnone
    obtain ⟨-, row, hrow, rfl⟩ := id_of_loadRun hload.symm
    have hsucceeded : row.status = .succeeded := (hsound _ row hrow).cursor.mp hnone
    have hstatus : row.status.terminal = false := hrunning
    rw [hsucceeded] at hstatus
    cases hstatus
  created := by
    intro db m run db' _ _ hwanted _ _
    have howed : (Op.insertRun run).Owed db := owed_wanted hwanted
    exact howed.2.1
  resolve := fun _ _ _ _ _ => Act.keeps_perform fun _ _ h _ _ => ⟨trivial, fun _ _ _ => h⟩
  fired := fun _ _ _ h => h
  resume := fun _ _ _ _ _ _ h => life_outline.drives fun hrunning _ => ⟨h hrunning, .inl rfl⟩

theorem life_discipline : Pool.Discipline (Call.step d.engine.policy redact) (Request.program d) (fun _ _ => False)
    (fun _ _ _ => True) (DB.Sound redact) fun _ _ => lifeSpec d redact where
  allowed := fun _ _ _ _ _ _ hsound _ hs => ⟨hsound, hs⟩
  refl := fun _ _ db _ => .refl db
  trans := fun _ _ _ _ _ h h' => h.trans h'
  call := fun _ _ _ _ _ _ hsound howed _ hs => ⟨sound_of_step hs howed hsound, fun _ _ => grown_of_step hs⟩
  env := fun _ _ _ h => h.elim
  start := fun _ request _ _ => (life_entry request).serves trivial

/-- **The life of a run.** In every interleaving of requests, any number of them for the same run, crashes included:
only a run that has succeeded has no cursor, and the store bears every status out. -/
theorem runs_sound {c : System} {labels : List (Pool.Label Request Call Call.Res)} {db₀ : DB}
    (hsound : db₀.Sound redact) (hrun : System.Run d redact ⟨[], db₀⟩ labels c) : c.shared.Sound redact :=
  (hrun.good life_discipline (fun _ _ _ _ => trivial) (.empty hsound)).inv

/-- A run is canceled while its driver is about to act, and succeeds nevertheless. -/
def overtaken : List (Pool.Label Request Call Call.Res) × System :=
  System.play payDeployment id (.constant .null)
    (.spawn (.apiFire "acme" "run" "payments" Table.empty) :: List.replicate 6 (.call 0) ++
      .spawn (.apiCancel "acme" "run") :: .call 1 :: List.replicate 6 (.call 0)) ⟨[], DB.empty⟩

theorem sound_empty : DB.empty.Sound redact := by
  intro runId row hrow
  cases hrow

theorem runs_sound_overtaken :
    (overtaken.2.shared.runs.rows.map fun row => (row.status, row.cursorStep)) = [(.succeeded, none)] ∧
    (overtaken.2.shared.events.rows.map fun row => row.type) =
      ["run_canceled", "trigger_fired", "state_transition", "policy_decision", "tool_result", "run_succeeded"] ∧
    overtaken.2.shared.Sound id :=
  ⟨by decide +kernel, by decide +kernel, runs_sound sound_empty (System.play_run _ _ _ _ _)⟩

end Bass
