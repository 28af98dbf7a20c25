import Bass.Proof.RequestInvariant
import Bass.Proof.Cancellation
import Bass.Sessions

/-!
# From the engine to an attempt

An attempt loads or creates its run and hands it to the engine. What a specification has to say about
the calls around the engine is listed once, in `Entry`; what the rest of the world may do to the run
meanwhile is `Kept`.
-/

namespace Bass

open Interaction EngineM

variable {σ : Type} {d : Deployment}

section Rows

variable {redact : Json → Json} {runId : String} {run : Run} {db db' : DB}

/-- The run that an attempt loads is the row. -/
theorem Attempt.loaded (attempt : Attempt runId) {tenantId : String}
    (h : .ok (some run) = db.loadRun tenantId attempt.request.runId ∧ db' = db) :
    run.id = runId ∧ ∃ row, db.runs.find? runId = some row ∧ db'.runs.find? runId = some row ∧ run = row.toRun := by
  obtain ⟨hload, rfl⟩ := h
  rw [attempt.run] at hload
  obtain ⟨hid, row, hrow, hrun⟩ := id_of_loadRun hload.symm
  exact ⟨hid, row, hrow, hrow, hrun⟩

/-- The run that an attempt creates had no row before. -/
theorem Attempt.inserted (attempt : Attempt runId) (hwanted : attempt.request.wanted d = some run)
    (h : (Op.insertRun run).step d.engine.policy redact db true db') :
    run.id = runId ∧ db.runs.find? runId = none ∧ ∃ now, db'.runs.find? runId = some (run.newRow now) := by
  have hid : run.id = runId := (wanted_ident hwanted).1.trans attempt.run
  rw [← hid]
  exact ⟨rfl, row_of_insertRun h⟩

end Rows

structure Entry (d : Deployment) (S : Spec Call Call.Res σ) (fresh : σ → Prop)
    (J : Mem → σ → Prop) (request : Request) : Prop where
  rely : ∀ s s₁, fresh s → S.rely s s₁ → fresh s₁
  early : ∀ s m (op : Op) answer s', fresh s → S.step s ⟨m, op⟩ answer s' → op.Service →
    (∀ run, op ≠ .insertRun run) → fresh s'
  service : ∀ s m (op : Op), op.Service →
    (∀ run, op = .insertRun run → request.wanted d = some run) → S.guar s ⟨m, op⟩
  loaded : ∀ s m tenantId run s', fresh s → m.buffer = request.memory.buffer →
    S.step s ⟨m, .loadRun tenantId request.runId⟩ (.ok (some run)) s' → J { m with run := run } s'
  created : ∀ s m run s', fresh s → m.buffer = request.memory.buffer → request.wanted d = some run →
    S.step s ⟨m, .insertRun run⟩ true s' → J { m with run := run } s'
  resolve : ∀ tenantId approvalId approved decidedBy note, Act.Keeps S J
    (perform (.resolveApproval tenantId approvalId approved decidedBy note))
  fired : ∀ m s payload, J m s → J { m with buffer := m.buffer ++ [⟨m.run.id, m.run.tenantId,
    "trigger_fired", payload, none, "system", 0⟩] } s
  resume : ∀ cfg wf m s, cfg = d.engine ∨ cfg = d.engine.asynchronous →
    request.definition d m.run.workflowId = some wf → J m s →
    Act.wp S (WorkflowEngine.resume cfg wf) (fun _ _ _ => True) (fun _ _ _ => True) m s

namespace Entry

variable {S : Spec Call Call.Res σ} {fresh : σ → Prop} {J : Mem → σ → Prop} {request : Request}

theorem hydrate (h : Entry d S fresh J request) (tenantId : String) {m : Mem} {s : σ}
    (hfresh : fresh s) (hbuffer : m.buffer = request.memory.buffer) :
    Act.wp S (hydrate tenantId request.runId)
      (fun run m s => m.run = run ∧ J m s) (fun _ _ _ => True) m s := by
  refine (Act.wp_perform_bind _ _).mpr fun s₁ hrely =>
    ⟨h.service _ _ _ trivial nofun, fun answer s' hs => ?_⟩
  refine (Act.wp_ofExcept_bind _ _).mpr ?_
  cases answer with
  | error e => trivial
  | ok found =>
      cases found with
      | none => trivial
      | some run =>
          have hJ := h.loaded s₁ m tenantId run s' (h.rely s s₁ hfresh hrely) hbuffer hs
          exact (wp_modifyRun_bind _ _).mpr ⟨rfl, hJ⟩

theorem createOrGetRun (h : Entry d S fresh J request) {run : Run}
    (hwanted : request.wanted d = some run) {m : Mem} {s : σ} (hfresh : fresh s)
    (hrun : m.run = run) (hbuffer : m.buffer = request.memory.buffer) :
    Act.wp S (createOrGetRun run) (fun out m s => out.2 = true → J m s) (fun _ _ _ => True) m s := by
  refine (Act.wp_perform_bind _ _).mpr fun s₁ hrely =>
    ⟨h.service _ _ _ trivial fun _ heq => Op.insertRun.inj heq ▸ hwanted, fun inserted s₂ hs => ?_⟩
  cases inserted with
  | true =>
      intro _
      have hJ := h.created s₁ m run s₂ (h.rely s s₁ hfresh hrely) hbuffer hwanted hs
      rwa [← hrun] at hJ
  | false =>
      refine (Act.wp_perform_bind _ _).mpr fun s₃ _ => ⟨h.service _ _ _ trivial nofun, fun answer s₄ _ => ?_⟩
      refine (Act.wp_ofExcept_bind _ _).mpr ?_
      cases answer with
      | error e => trivial
      | ok found =>
          cases found with
          | none => trivial
          | some existing => exact fun hfalse => nomatch hfalse

theorem resume_getRun (h : Entry d S fresh J request) {cfg : EngineConfig} {wf : Workflow}
    (hcfg : cfg = d.engine ∨ cfg = d.engine.asynchronous)
    {m : Mem} {s : σ} (hwf : request.definition d m.run.workflowId = some wf) (hJ : J m s) :
    Act.wp S (do WorkflowEngine.resume cfg wf; getRun) (fun _ _ _ => True) (fun _ _ _ => True) m s :=
  (Act.wp_bind _ _).mpr (Act.wp_mono _ (fun _ _ _ _ => trivial) (fun _ _ _ _ => trivial)
    (h.resume cfg wf m s hcfg hwf hJ))

theorem safeResume (h : Entry d S fresh J request) {wf : Workflow}
    {m : Mem} {s : σ} (hwf : request.definition d m.run.workflowId = some wf) (hJ : J m s) :
    Act.wp S (ApiService.safeResume d wf) (fun _ _ _ => True) (fun _ _ _ => True) m s := by
  refine (Act.wp_tryCatch _ _).mpr (Act.wp_mono _ (fun _ _ _ _ => trivial) (fun e m' s' _ => ?_)
    (h.resume_getRun (Or.inr rfl) hwf hJ))
  split
  · refine (wp_getRun_bind _).mpr ((Act.wp_perform_bind _ _).mpr fun s₁ _ => ?_)
    refine ⟨h.service _ _ _ trivial nofun, fun answer s₂ _ => (Act.wp_ofExcept_bind _ _).mpr ?_⟩
    cases answer <;> trivial
  · trivial

/-- A request that drives its run satisfies the specification that its engine does. -/
theorem program (h : Entry d S fresh J request) (hdriver : request.isDriver = true) {s : σ}
    (hfresh : fresh s) :
    (request.program d).wp S (fun _ _ => True) s := by
  unfold Request.program
  rw [Prog.wp_bind]
  refine Prog.wp_mono (fun _ _ _ => trivial) _ (?_ : Act.wp S (request.code d)
    (fun _ _ _ => True) (fun _ _ _ => True) request.memory s)
  cases request with
  | orchestratorFire tenantId runId wf trigger buffer =>
      refine (wp_modifyRun_bind _ _).mpr ((wp_getRun_bind _).mpr ((Act.wp_bind _ _).mpr ?_))
      refine Act.wp_mono _ (fun out m s hout => ?_) (fun _ _ _ _ => trivial)
        (h.createOrGetRun rfl hfresh rfl rfl)
      obtain ⟨run, created⟩ := out
      cases created with
      | false => trivial
      | true =>
          exact (wp_emit_bind _ _ _ _ _ _).mpr
            (h.resume_getRun (Or.inl rfl) rfl (h.fired m s _ (hout rfl)))
  | apiFire tenantId runId wfName trigger =>
      refine (Act.wp_ofExcept_bind _ _).mpr ?_
      cases hfound : d.workflowsByName.get? wfName with
      | none => trivial
      | some wf =>
          refine (Act.wp_perform_bind _ _).mpr fun s₁ hrely =>
            ⟨h.service _ _ _ trivial nofun, fun allowed s₂ hs => ?_⟩
          have hfresh₂ := h.early s₁ _ _ _ s₂ (h.rely s s₁ hfresh hrely) hs trivial nofun
          cases allowed with
          | false => trivial
          | true =>
              refine (Act.wp_perform_bind _ _).mpr fun s₃ hrely' =>
                ⟨h.service _ _ _ trivial nofun, fun _ s₄ hs' => ?_⟩
              have hfresh₄ := h.early s₃ _ _ _ s₄ (h.rely s₂ s₃ hfresh₂ hrely') hs' trivial nofun
              refine (wp_modifyRun_bind _ _).mpr ((wp_getRun_bind _).mpr ((Act.wp_bind _ _).mpr ?_))
              have hwanted : (Request.apiFire tenantId runId wfName trigger).wanted d =
                  some (Run.ofTrigger d.builtins tenantId runId wf trigger) := by
                simp [Request.wanted, hfound]
              refine Act.wp_mono _ (fun out m s hout => ?_) (fun _ _ _ _ => trivial)
                (h.createOrGetRun hwanted hfresh₄ rfl rfl)
              obtain ⟨run, created⟩ := out
              cases created with
              | false => trivial
              | true =>
                  exact (wp_emit_bind _ _ _ _ _ _).mpr
                    (h.safeResume hfound (h.fired m s _ (hout rfl)))
  | orchestratorResume tenantId runId wf buffer =>
      refine (Act.wp_bind _ _).mpr (Act.wp_mono _ (fun run m s hout => ?_) (fun _ _ _ _ => trivial)
        (h.hydrate tenantId hfresh rfl))
      split
      · trivial
      · exact h.resume_getRun (Or.inl rfl) rfl hout.2
  | runnerResume tenantId runId =>
      refine (Act.wp_bind _ _).mpr (Act.wp_mono _ (fun run m s hout => ?_) (fun _ _ _ _ => trivial)
        (h.hydrate tenantId hfresh rfl))
      obtain ⟨hrun, hJ⟩ := hout
      refine (Act.wp_ofExcept_bind _ _).mpr ?_
      cases hfound : d.workflowsById.get? run.workflowId with
      | none => trivial
      | some wf => exact h.resume_getRun (Or.inr rfl) (hrun ▸ hfound) hJ
  | apiResolve tenantId runId approvalId approved decidedBy note =>
      refine (Act.wp_bind _ _).mpr (Act.wp_mono _ (fun run m s hout => ?_) (fun _ _ _ _ => trivial)
        (h.hydrate tenantId hfresh rfl))
      obtain ⟨hrun, hJ⟩ := hout
      refine (Act.wp_perform_bind _ _).mpr fun s₁ hrely => ?_
      obtain ⟨hguar, hresolved⟩ := h.resolve tenantId approvalId approved decidedBy note m s hJ s₁ hrely
      refine ⟨hguar, fun answer s' hs => (Act.wp_ofExcept_bind _ _).mpr ?_⟩
      cases answer with
      | error e => trivial
      | ok value =>
          refine (Act.wp_ofExcept_bind _ _).mpr ?_
          cases hfound : d.workflowsById.get? run.workflowId with
          | none => trivial
          | some wf => exact h.safeResume (hrun ▸ hfound) (hresolved _ s' hs)
  | apiCancel tenantId runId => cases hdriver

/-- So does a cancellation, which loads the run afterwards. -/
theorem serves (h : Entry d S fresh J request) {s : σ} (hfresh : fresh s) :
    (request.program d).wp S (fun _ _ => True) s := by
  cases request with
  | apiCancel tenantId runId =>
      unfold Request.program
      rw [Prog.wp_bind]
      refine Prog.wp_mono (fun _ _ _ => trivial) _ (?_ : Act.wp S (ApiService.cancel tenantId runId)
        (fun _ _ _ => True) (fun _ _ _ => True) _ s)
      refine (Act.wp_perform_bind _ _).mpr fun s₁ hrely =>
        ⟨h.service _ _ _ trivial nofun, fun answer s₂ hs => (Act.wp_ofExcept_bind _ _).mpr ?_⟩
      cases answer with
      | error e => trivial
      | ok canceled =>
          exact Act.wp_mono _ (fun _ _ _ _ => trivial) (fun _ _ _ _ => trivial)
            (h.hydrate tenantId (h.early s₁ _ _ _ s₂ (h.rely s s₁ hfresh hrely) hs trivial nofun) rfl)
  | orchestratorFire | apiFire | orchestratorResume | runnerResume | apiResolve => exact h.program rfl hfresh

end Entry

/-! ### The rest of the world -/

/-- The columns of a run that nobody but its driver writes are the same. -/
structure SameProgress (row row' : RunRow) : Prop where
  id : row'.id = row.id
  tenantId : row'.tenantId = row.tenantId
  workflowId : row'.workflowId = row.workflowId
  workflowVersion : row'.workflowVersion = row.workflowVersion
  triggerJson : row'.triggerJson = row.triggerJson
  cursorStep : row'.cursorStep = row.cursorStep
  contextJson : row'.contextJson = row.contextJson
  costUsd : row'.costUsd = row.costUsd
  stepsUsed : row'.stepsUsed = row.stepsUsed
  resultJson : row'.resultJson = row.resultJson

theorem SameProgress.refl (row : RunRow) : SameProgress row row :=
  ⟨rfl, rfl, rfl, rfl, rfl, rfl, rfl, rfl, rfl, rfl⟩

theorem SameProgress.trans {row row' row'' : RunRow} (h : SameProgress row row')
    (h' : SameProgress row' row'') : SameProgress row row'' where
  id := h'.id.trans h.id
  tenantId := h'.tenantId.trans h.tenantId
  workflowId := h'.workflowId.trans h.workflowId
  workflowVersion := h'.workflowVersion.trans h.workflowVersion
  triggerJson := h'.triggerJson.trans h.triggerJson
  cursorStep := h'.cursorStep.trans h.cursorStep
  contextJson := h'.contextJson.trans h.contextJson
  costUsd := h'.costUsd.trans h.costUsd
  stepsUsed := h'.stepsUsed.trans h.stepsUsed
  resultJson := h'.resultJson.trans h.resultJson

/-- What others leave of a run between two calls of its driver: they may cancel it, and decide its
approvals. -/
structure Kept (runId : String) (db db' : DB) : Prop where
  row : ∀ row, db.runs.find? runId = some row → ∃ row', db'.runs.find? runId = some row' ∧
    SameProgress row row' ∧ (row'.status = row.status ∨ row'.status = .canceled)
  absent : db.runs.find? runId = none → db'.runs.find? runId = none
  billed : db'.billed runId = db.billed runId
  effects : ∀ row ∈ db'.toolEffects.rows, row.runId = runId → row ∈ db.toolEffects.rows
  approvals : (db'.approvals.rows.filter fun row => row.runId = runId).map ApprovalRow.subject =
    (db.approvals.rows.filter fun row => row.runId = runId).map ApprovalRow.subject

theorem Kept.refl (runId : String) (db : DB) : Kept runId db db :=
  ⟨fun row hrow => ⟨row, hrow, SameProgress.refl row, Or.inl rfl⟩, fun h => h, rfl, fun _ h _ => h, rfl⟩

theorem Kept.trans {runId : String} {db db₁ db' : DB} (h : Kept runId db db₁)
    (h' : Kept runId db₁ db') : Kept runId db db' where
  row := by
    intro row hrow
    obtain ⟨row₁, hrow₁, hsame, hstatus⟩ := h.row row hrow
    obtain ⟨row', hrow', hsame', hstatus'⟩ := h'.row row₁ hrow₁
    refine ⟨row', hrow', hsame.trans hsame', ?_⟩
    rcases hstatus' with hstatus' | hstatus'
    · rcases hstatus with hstatus | hstatus
      · exact Or.inl (hstatus'.trans hstatus)
      · exact Or.inr (hstatus'.trans hstatus)
    · exact Or.inr hstatus'
  absent := fun hnone => h'.absent (h.absent hnone)
  billed := h'.billed.trans h.billed
  effects := fun row hrow hid => h.effects row (h'.effects row hrow hid) hid
  approvals := h'.approvals.trans h.approvals

/-- A call that is left to others keeps the run. -/
theorem kept_of_step {policy : PolicyEngine} {redact : Json → Json} {runId : String} {db db' : DB}
    {op : Op} {answer : op.Res} (hop : op.Foreign runId)
    (h : op.step policy redact db answer db') : Kept runId db db' where
  row := by
    intro row hrow
    rcases runRow_of_step h hrow with hsame | ⟨run, events, now, rfl, hid, -, -⟩ |
      ⟨tenantId, now, rfl, -, hnew⟩
    · exact ⟨row, hsame, SameProgress.refl row, Or.inl rfl⟩
    · exact absurd hid hop.1
    · exact ⟨_, hnew, ⟨rfl, rfl, rfl, rfl, rfl, rfl, rfl, rfl, rfl, rfl⟩, Or.inr rfl⟩
  absent := by
    intro hnone
    rcases absent_of_step h hnone with hsame | ⟨run, now, heq, hid, -⟩
    · exact hsame
    · cases heq
      exact absurd hid hop
  billed := by
    rcases billed_of_step h runId with hsame | ⟨run, events, heq, hbilled⟩
    · exact hsame
    · cases heq
      have hnone : events.filter (fun ev => ev.runId = runId) = [] := by
        rw [List.filter_eq_nil_iff]
        intro ev hev
        simpa using hop.2 ev hev
      rw [hbilled, billedEvents, hnone]
      simp
  effects := by
    intro row hrow hid
    rcases effects_of_step h with hsame | ⟨_, _, _, _, _, _, _, rfl, hinsert⟩
    · rwa [hsame] at hrow
    · rw [hinsert] at hrow
      rcases Table.mem_insert hrow with hold | rfl
      · exact hold
      · exact absurd hid hop
  approvals := by
    refine approvals_of_step h ?_
    rintro tenantId stepId approvers rfl
    exact absurd rfl hop

theorem kept_of_outside {policy : PolicyEngine} {redact : Json → Json} {runId : String}
    {db db' : DB} {event : Outside} (h : event.step policy redact runId db db') :
    Kept runId db db' := by
  cases event with
  | call op answer => exact kept_of_step h.1 h.2
  | purge tenantId before =>
      obtain rfl : db' = _ := h
      exact { Kept.refl runId db with billed := billed_purgeEventPayloads db tenantId before runId }

/-! ### Columns of a run -/

section Column

variable {A : Type} {f : RunRow → A} {init : A} {runId : String} {db db' : DB}

/-- A column of the stored run, `init` while there is no such run. -/
def DB.column (db : DB) (runId : String) (f : RunRow → A) (init : A) : A :=
  match db.runs.find? runId with
  | some row => f row
  | none => init

theorem DB.column_of_find {row : RunRow} (h : db.runs.find? runId = some row) :
    db.column runId f init = f row := by
  rw [column, h]

theorem DB.column_of_absent (h : db.runs.find? runId = none) : db.column runId f init = init := by
  rw [column, h]

theorem Kept.column (h : Kept runId db db')
    (hf : ∀ {row row' : RunRow}, SameProgress row row' → f row' = f row) :
    db'.column runId f init = db.column runId f init := by
  cases hfind : db.runs.find? runId with
  | none => rw [DB.column_of_absent hfind, DB.column_of_absent (h.absent hfind)]
  | some row =>
      obtain ⟨row', hrow', hsame, -⟩ := h.row row hfind
      rw [DB.column_of_find hfind, DB.column_of_find hrow', hf hsame]

/-- A checkpoint that raised changed nothing. -/
theorem same_of_checkpoint_error {policy : PolicyEngine} {redact : Json → Json} {run : Run}
    {events : List Event} {e : Exc}
    (h : (Op.checkpoint run events).step policy redact db (.error e) db') : db' = db := by
  obtain ⟨now, hcommits⟩ := h
  rcases commits_map_cases hcommits with ⟨-, hanswer⟩ | ⟨_, -, -, rfl⟩
  · cases hanswer
  · rfl

/-- A column that is not touched by a cancellation changes by an accepted checkpoint of the run only,
provided that runs are created with its initial value. -/
theorem column_of_step {policy : PolicyEngine} {redact : Json → Json} {g : Run → A} {op : Op}
    {answer : op.Res} (hs : op.step policy redact db answer db')
    (hwrite : ∀ (run : Run) now row, f (run.writeRow now row) = g run)
    (hcancel : ∀ (row : RunRow) status now, f { row with status := status, updatedAt := now } = f row)
    (hnew : ∀ run now, op = .insertRun run → f (run.newRow now) = init) :
    db'.column runId f init = db.column runId f init ∨
      ∃ run events, (⟨op, answer⟩ : (op : Op) × op.Res) = ⟨.checkpoint run events, .ok ()⟩ ∧
        run.id = runId ∧ db'.column runId f init = g run := by
  cases hfind : db.runs.find? runId with
  | none =>
      left
      rw [DB.column_of_absent hfind]
      rcases absent_of_step hs hfind with hnone | ⟨run, now, heq, -, hrow'⟩
      · exact DB.column_of_absent hnone
      · cases heq
        exact (DB.column_of_find hrow').trans (hnew run now rfl)
  | some row =>
      rw [DB.column_of_find hfind]
      rcases runRow_of_step hs hfind with hrow' | ⟨run, events, now, rfl, hid, -, hrow'⟩ |
        ⟨tenantId, now, rfl, -, hrow'⟩
      · exact Or.inl (DB.column_of_find hrow')
      · cases answer with
        | error e => exact Or.inl (by rw [same_of_checkpoint_error hs, DB.column_of_find hfind])
        | ok value =>
            exact Or.inr ⟨run, events, rfl, hid, (DB.column_of_find hrow').trans (hwrite run now row)⟩
      · exact Or.inl ((DB.column_of_find hrow').trans (hcancel row .canceled now))

end Column

/-! ### The workflow of a run -/

/-- The run, if it is stored, is one of the workflow `wf`. -/
def OfWorkflow (wf : Workflow) (runId : String) (db : DB) : Prop :=
  ∀ row, db.runs.find? runId = some row → row.workflowId = wf.id

theorem ofWorkflow_of_kept {wf : Workflow} {runId : String} {db db' : DB}
    (h : OfWorkflow wf runId db) (hkept : Kept runId db db') : OfWorkflow wf runId db' := by
  intro row' hrow'
  cases hfind : db.runs.find? runId with
  | none =>
      rw [hkept.absent hfind] at hrow'
      cases hrow'
  | some row =>
      obtain ⟨row'', hrow'', hsame, -⟩ := hkept.row row hfind
      obtain rfl : row'' = row' := Option.some.inj (hrow''.symm.trans hrow')
      exact hsame.workflowId.trans (h row hfind)

theorem ofWorkflow_of_step {policy : PolicyEngine} {redact : Json → Json} {wf : Workflow}
    {runId : String} {db db' : DB} {op : Op} {answer : op.Res} (h : OfWorkflow wf runId db)
    (hnew : ∀ run, op = .insertRun run → run.workflowId = wf.id)
    (hs : op.step policy redact db answer db') : OfWorkflow wf runId db' := by
  intro row' hrow'
  cases hfind : db.runs.find? runId with
  | none =>
      rcases absent_of_step hs hfind with hnone | ⟨run, now, heq, -, hinserted⟩
      · rw [hnone] at hrow'
        cases hrow'
      · cases heq
        obtain rfl := Option.some.inj (hinserted.symm.trans hrow')
        exact hnew run rfl
  | some row =>
      have hsame : ∀ {row'' : RunRow}, db'.runs.find? runId = some row'' →
          row''.workflowId = row.workflowId → row'.workflowId = wf.id := by
        intro row'' hrow'' hworkflow
        obtain rfl : row'' = row' := Option.some.inj (hrow''.symm.trans hrow')
        exact hworkflow.trans (h row hfind)
      rcases runRow_of_step hs hfind with hsome | ⟨_, _, _, -, -, -, hsome⟩ | ⟨_, _, -, -, hsome⟩
      · exact hsame hsome rfl
      · exact hsame hsome rfl
      · exact hsame hsome rfl

theorem wanted_definition {d : Deployment} {request : Request} {run : Run}
    (h : request.wanted d = some run) (workflowId : String) :
    ∃ wf, request.definition d workflowId = some wf ∧ run.workflowId = wf.id ∧
      run.cursorStep = some wf.start := by
  cases request with
  | orchestratorFire tenantId runId wf trigger buffer =>
      cases h
      exact ⟨wf, rfl, rfl, rfl⟩
  | apiFire tenantId runId wfName trigger =>
      obtain ⟨wf, hwf, rfl⟩ := Option.map_eq_some_iff.mp h
      exact ⟨wf, hwf, rfl, rfl⟩
  | _ => cases h

end Bass
