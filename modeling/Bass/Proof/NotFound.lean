import Bass.Proof.Course
import Bass.Proof.Decisions

/-!
# What a request that was not found has changed

The endpoint that decides an approval answers 404 when the request raises `KeyError` or
`TenantIsolationError`. The run and the approval are looked up before the decision is written, the workflow
is looked up after it, and what the resumed run raises comes later still.
-/

namespace Bass

open Interaction EngineM

variable {policy : PolicyEngine} {redact : Json → Json} {db db' : DB}

/-! ### Calls that look at no approval -/

def DB.withApprovals (db : DB) (approvals : Table ApprovalRow.id) : DB := { db with approvals := approvals }

section Aside

variable (approvals : Table ApprovalRow.id)

theorem insertRun_withApprovals (db : DB) (run : Run) (now : ℕ → ℚ) :
    (db.withApprovals approvals).insertRun run now =
      ((db.insertRun run now).1.withApprovals approvals, (db.insertRun run now).2) := by
  have hconflicts : (db.withApprovals approvals).conflicts run = db.conflicts run := rfl
  unfold DB.insertRun
  by_cases h : db.conflicts run = false
  · rw [dif_pos h, dif_pos (hconflicts.trans h)]
    rfl
  · rw [dif_neg h, dif_neg (by rwa [hconflicts])]

theorem checkpoint_withApprovals (db : DB) (run : Run) (events : List Event) (now : ℕ → ℚ) :
    (db.withApprovals approvals).checkpoint redact run events now =
      (·.withApprovals approvals) <$> db.checkpoint redact run events now := by
  have howns : (db.withApprovals approvals).assertOwns run.tenantId run.id =
      db.assertOwns run.tenantId run.id := rfl
  have hevents : (db.withApprovals approvals).events = db.events := rfl
  unfold DB.checkpoint
  rw [howns, hevents]
  cases db.assertOwns run.tenantId run.id with
  | error e => rfl
  | ok _ =>
      simp only [bind, Except.bind]
      cases DB.appendEvents redact run.tenantId events (fun i => now (i + 1)) db.events <;> rfl

theorem cancelRun_withApprovals (db : DB) (tenantId runId : String) (now : ℕ → ℚ) :
    (db.withApprovals approvals).cancelRun tenantId runId now =
      (fun out => (out.1.withApprovals approvals, out.2)) <$> db.cancelRun tenantId runId now := by
  have hruns : (db.withApprovals approvals).runs = db.runs := rfl
  unfold DB.cancelRun
  rw [hruns]
  cases db.runs.find? runId with
  | none => rfl
  | some row =>
      dsimp only
      by_cases htenant : row.tenantId = tenantId
      · rw [if_pos htenant, if_pos htenant]
        cases row.status.terminal <;> rfl
      · rw [if_neg htenant, if_neg htenant]
        rfl

end Aside

/-- A transaction that does the same in two databases commits in both or raises in both. -/
theorem Commits.map {α : Type} {transaction : Except Exc (DB × α)} {answer : Except Exc α} (f : DB → DB)
    (h : Commits db transaction answer db') :
    Commits (f db) ((fun out => (f out.1, out.2)) <$> transaction) answer (f db') := by
  cases transaction with
  | ok out =>
      obtain ⟨rfl, rfl⟩ := commits_of_ok h
      exact ⟨rfl, rfl⟩
  | error e =>
      obtain ⟨rfl, rfl⟩ := commits_of_error h
      exact ⟨rfl, rfl⟩

/-- The calls that look at no approval. -/
def Op.Aside : Op → Prop
  | .createApproval .. | .resolveApproval .. | .latestApproval .. => False
  | _ => True

theorem step_withApprovals (approvals : Table ApprovalRow.id) {op : Op} {answer : op.Res}
    (h : op.step policy redact db answer db') (hop : op.Aside) :
    op.step policy redact (db.withApprovals approvals) answer (db'.withApprovals approvals) := by
  cases op with
  | createApproval | resolveApproval | latestApproval => exact False.elim hop
  | ensureTenant | recordEffect =>
      obtain ⟨now, rfl⟩ := h
      exact ⟨now, rfl⟩
  | insertRun run =>
      obtain ⟨now, hinsert⟩ := h
      refine ⟨now, ?_⟩
      rw [insertRun_withApprovals, ← hinsert]
  | checkpoint run events =>
      obtain ⟨now, hcommits⟩ := h
      refine ⟨now, ?_⟩
      have hmapped := hcommits.map (·.withApprovals approvals)
      rw [checkpoint_withApprovals]
      rw [← comp_map] at hmapped ⊢
      exact hmapped
  | cancelRun tenantId runId =>
      obtain ⟨now, hcommits⟩ := h
      refine ⟨now, ?_⟩
      rw [cancelRun_withApprovals]
      exact hcommits.map (·.withApprovals approvals)
  | loadRun | loadRunByKey | getEffect | policyCheck =>
      obtain ⟨rfl, rfl⟩ := h
      exact ⟨rfl, rfl⟩
  | execute =>
      obtain ⟨hraised, rfl⟩ := h
      exact ⟨hraised, rfl⟩
  | allowRequest | stepSpan | respond | approvalFn =>
      obtain rfl := h
      rfl

/-! ### The time of a decision -/

/-- The row as it would be, had the approval been decided at another time. -/
def ApprovalRow.retime (row : ApprovalRow) (t : ℚ) : ApprovalRow := { row with decidedAt := some t }

theorem ApprovalRow.retime_id (t : ℚ) (row : ApprovalRow) : (row.retime t).id = row.id := rfl

/-- The approvals as they would be, had this one been decided at another time. -/
def retimed (approvals : Table ApprovalRow.id) (approvalId : String) (t : ℚ) : Table ApprovalRow.id :=
  approvals.update (fun row => row.id = approvalId) (ApprovalRow.retime · t) (ApprovalRow.retime_id t)

def DB.retime (db : DB) (approvalId : String) (t : ℚ) : DB :=
  db.withApprovals (retimed db.approvals approvalId t)

/-- What the latest approval says once a change that decides approvals has been made to all of them. -/
theorem latestApproval_of_map {f : ApprovalRow → ApprovalRow} (hf : Decides f)
    (hrows : db'.approvals.rows = db.approvals.rows.map f) (tenantId runId stepId : String) :
    db'.latestApproval tenantId runId stepId = (DB.latest (db.approvals.rows.filter fun row =>
      row.runId = runId ∧ row.tenantId = tenantId ∧ row.stepId = stepId)).map fun row =>
        ((f row).id, (f row).status) := by
  have hkeep : (fun row => decide (row.runId = runId ∧ row.tenantId = tenantId ∧ row.stepId = stepId)) ∘ f =
      fun row : ApprovalRow => decide (row.runId = runId ∧ row.tenantId = tenantId ∧ row.stepId = stepId) := by
    funext row
    obtain ⟨-, hrun, htenant, hstep, -⟩ := hf row
    simp [hrun, htenant, hstep]
  unfold DB.latestApproval
  rw [hrows, List.filter_map, hkeep, latest_map hf, Option.map_map]
  rfl

section Retime

variable {approvalId : String} {t : ℚ}

theorem decides_retime : Decides fun row : ApprovalRow => if row.id = approvalId then row.retime t else row := by
  intro row
  by_cases h : row.id = approvalId <;> simp [h, ApprovalRow.retime]

/-- Nobody reads when an approval was decided. -/
theorem latestApproval_retime (db : DB) (tenantId runId stepId : String) :
    (db.retime approvalId t).latestApproval tenantId runId stepId = db.latestApproval tenantId runId stepId := by
  have hrows : (db.retime approvalId t).approvals.rows =
      db.approvals.rows.map fun row => if row.id = approvalId then row.retime t else row := by
    simp [DB.retime, DB.withApprovals, retimed, Table.update]
  rw [latestApproval_of_map decides_retime hrows, DB.latestApproval]
  congr 1
  funext row
  by_cases h : row.id = approvalId <;> simp [h, ApprovalRow.retime]

theorem createApproval_retime {tenantId runId stepId drawn : String} {approvers : List String} {now : ℕ → ℚ}
    (hfound : db.approvals.find? approvalId ≠ none) :
    (db.retime approvalId t).createApproval tenantId runId stepId approvers drawn now =
      (·.retime approvalId t) <$> db.createApproval tenantId runId stepId approvers drawn now := by
  have howns : (db.retime approvalId t).assertOwns tenantId runId = db.assertOwns tenantId runId := rfl
  have hdrawn : (retimed db.approvals approvalId t).find? drawn = (db.approvals.find? drawn).map
      fun row => if decide (row.id = approvalId) = true then row.retime t else row :=
    Table.find?_update _ _ _ (ApprovalRow.retime_id t) drawn
  have hretimed : (db.retime approvalId t).approvals = retimed db.approvals approvalId t := rfl
  unfold DB.createApproval
  rw [howns, hretimed, hdrawn]
  cases db.assertOwns tenantId runId with
  | error e => rfl
  | ok _ =>
      simp only [bind, Except.bind]
      cases hfree : db.approvals.find? drawn with
      | some row => rfl
      | none =>
          have hne : drawn ≠ approvalId := by
            rintro rfl
            exact hfound hfree
          have hinsert : ∀ row : ApprovalRow, row.id = drawn →
              (retimed db.approvals approvalId t).insert row = retimed (db.approvals.insert row) approvalId t := by
            rintro row rfl
            apply Table.rows_injective
            rw [Table.insert_of_none (hdrawn.trans (by rw [hfree]; rfl))]
            change _ = (db.approvals.insert row).rows.map _
            rw [Table.insert_of_none hfree, List.map_append, List.map_singleton]
            simp [hne, retimed, Table.update]
          exact congrArg (fun approvals => Except.ok (db.withApprovals approvals)) (hinsert _ rfl)

/-- Whatever decides nothing does the same when the approval has been decided at another time. -/
theorem step_retime {op : Op} {answer : op.Res} (h : op.step policy redact db answer db')
    (hop : op.decides? = none) (hfound : db.approvals.find? approvalId ≠ none) (t : ℚ) :
    op.step policy redact (db.retime approvalId t) answer (db'.retime approvalId t) := by
  by_cases haside : op.Aside
  · have hsame : db'.approvals = db.approvals := by
      rcases approvals_cases h with hrows | ⟨_, _, _, _, _, _, heq, -⟩ | ⟨_, _, _, _, _, _, rfl, -⟩
      · exact Table.rows_injective hrows
      · cases heq
        exact False.elim haside
      · exact False.elim haside
    have hstep := step_withApprovals (retimed db.approvals approvalId t) h haside
    rw [DB.retime, DB.retime, hsame]
    exact hstep
  · cases op with
    | createApproval tenantId runId stepId approvers =>
        obtain ⟨drawn, now, hcommits⟩ := h
        refine ⟨drawn, now, ?_⟩
        have hmapped := hcommits.map (·.retime approvalId t)
        rw [createApproval_retime hfound]
        rw [← comp_map] at hmapped ⊢
        exact hmapped
    | latestApproval tenantId runId stepId =>
        obtain ⟨rfl, rfl⟩ := h
        exact ⟨(latestApproval_retime db' tenantId runId stepId).symm, rfl⟩
    | resolveApproval => cases hop
    | _ => exact absurd trivial haside

/-- Code that decides nothing runs alike however the approval was timed. -/
theorem exec_retime {α : Type} {x : EngineM α} {m : Mem} {trace : Trail} {p : Driver (Except Exc α × Mem)}
    (hx : Makes (fun op => op.decides? = none) x) (h : Prog.Exec (Call.step policy redact) (x.exec m) db trace p db')
    (hfound : db.approvals.find? approvalId ≠ none) (t : ℚ) :
    Prog.Exec (Call.step policy redact) (x.exec m) (db.retime approvalId t) trace p (db'.retime approvalId t) := by
  refine h.map (P := fun call : Call => call.op.decides? = none)
    (K := fun db : DB => db.approvals.find? approvalId ≠ none) (·.retime approvalId t) ?_ (hx m () trivial) hfound
  intro db call answer db' hop hfound hstep
  refine ⟨step_retime hstep hop hfound t, ?_⟩
  obtain ⟨row, hrow⟩ := Option.ne_none_iff_exists'.mp hfound
  rw [approvalsKept_of_step hstep hop _ _ hrow]
  exact Option.some_ne_none row

theorem resolveApproval_retime {tenantId decidedBy note : String} {approved : Bool} {now : ℕ → ℚ} {decided : DB}
    (h : db.resolveApproval tenantId approvalId approved decidedBy note now = .ok decided) (t : ℚ) :
    db.resolveApproval tenantId approvalId approved decidedBy note (fun _ => t) =
      .ok (decided.retime approvalId t) := by
  unfold DB.resolveApproval at h ⊢
  split at h
  · cases h
  · rename_i row hrow
    split at h
    · rename_i htenant
      cases h
      simp only [if_pos htenant]
      refine congrArg (fun approvals => Except.ok (db.withApprovals approvals)) (Table.rows_injective ?_)
      simp only [retimed, Table.update, List.map_map]
      refine List.map_congr_left fun row _ => ?_
      by_cases hid : row.id = approvalId <;> simp [hid, ApprovalRow.retime]
    · cases h

/-- Who decided, when and with which note is nothing that the gates ask for. -/
theorem latestApproval_withDecision {tenantId decidedBy note : String} {approved : Bool} {now : ℕ → ℚ} {decided : DB}
    (h : db.resolveApproval tenantId approvalId approved decidedBy note now = .ok decided)
    (tenant runId stepId : String) :
    decided.latestApproval tenant runId stepId =
      (db.withDecision approvalId approved).latestApproval tenant runId stepId := by
  have hdecides : ∀ f : ApprovalRow → ApprovalRow, Decides f →
      Decides fun row => if row.id = approvalId then f row else row := by
    intro f hf row
    by_cases hid : row.id = approvalId
    · simpa [hid] using hf row
    · simp [hid]
  have hresolved : decided.approvals.rows = db.approvals.rows.map fun row =>
      if row.id = approvalId then row.resolved approved decidedBy note (now 0) else row := by
    unfold DB.resolveApproval at h
    split at h
    · cases h
    · split at h
      · cases h
        simp [Table.update, ApprovalRow.resolved]
      · cases h
  have hdecided : (db.withDecision approvalId approved).approvals.rows = db.approvals.rows.map fun row =>
      if row.id = approvalId then { row with status := if approved then .approved else .rejected } else row := by
    simp [DB.withDecision, Table.update]
  rw [latestApproval_of_map (hdecides (·.resolved approved decidedBy note (now 0))
      fun _ => ⟨rfl, rfl, rfl, rfl, rfl⟩) hresolved,
    latestApproval_of_map (hdecides (fun row => { row with status := if approved then .approved else .rejected })
      fun _ => ⟨rfl, rfl, rfl, rfl, rfl⟩) hdecided]
  congr 1
  funext row
  by_cases hid : row.id = approvalId <;> simp [hid, ApprovalRow.resolved]

end Retime

/-! ### Requests that answer not found -/

/-- A request that raises what its handler answers with 404 has changed nothing. -/
def NotFoundUnchanged (d : Deployment) (redact : Json → Json) (db : DB) (tenantId runId approvalId : String)
    (approved : Bool) (decidedBy note : String) : Prop :=
  ∀ trace e m db',
    Prog.Exec (Call.step d.engine.policy redact)
      ((ApiService.resolveApproval d tenantId runId approvalId approved decidedBy note).exec
        (Mem.request tenantId runId [])) db trace (.pure (.error e, m)) db' →
    e.isMasked = true → db' = db

/-- Carrying the run on from this database can raise what a handler answers with 404. -/
def ResumeMasked (d : Deployment) (redact : Json → Json) (db : DB) (run : Run) (wf : Workflow) : Prop :=
  ∃ trace e m db', Prog.Exec (Call.step d.engine.policy redact) ((ApiService.safeResume d wf).exec ⟨run, []⟩)
    db trace (.pure (.error e, m)) db' ∧ e.isMasked = true

section Resume

variable {d : Deployment} {run : Run} {wf : Workflow} {stored : DB}

/-- A stored run stays the run of its tenant. -/
theorem owner_of_step {op : Op} {answer : op.Res} {tenantId runId : String}
    (h : op.step policy redact db answer db')
    (howned : ∃ row, db.runs.find? runId = some row ∧ row.tenantId = tenantId) :
    ∃ row, db'.runs.find? runId = some row ∧ row.tenantId = tenantId := by
  obtain ⟨row, hrow, htenant⟩ := howned
  rcases runRow_of_step h hrow with hsame | ⟨_, _, _, -, -, -, hnew⟩ | ⟨_, _, -, -, hnew⟩
  · exact ⟨row, hsame, htenant⟩
  · exact ⟨_, hnew, htenant⟩
  · exact ⟨_, hnew, htenant⟩

/-- A drive holds a run that is stored for its tenant. -/
theorem owner_resume (cfg : EngineConfig) (wf : Workflow) (tenantId runId : String) :
    Act.Keeps (soloSpec cfg redact) (fun m db => m.Of tenantId runId ∧
      ∃ row, db.runs.find? runId = some row ∧ row.tenantId = tenantId) (WorkflowEngine.resume cfg wf) := by
  have hop : ∀ (m : Mem) (op : Op) (answer : op.Res) (db db' : DB), op.step cfg.policy redact db answer db' →
      (m.Of tenantId runId ∧ ∃ row, db.runs.find? runId = some row ∧ row.tenantId = tenantId) →
      m.Of tenantId runId ∧ ∃ row, db'.runs.find? runId = some row ∧ row.tenantId = tenantId :=
    fun _ _ _ _ _ hs h => ⟨h.1, owner_of_step hs h.2⟩
  refine (engineInv_of_calls (fun m m' db hsame h => ?_) (fun _ _ h => h) (fun op _ => ?_) wf ?_).resume
  · exact ⟨⟨hsame.tenantId.trans h.1.1, hsame.id.trans h.1.2⟩, h.2⟩
  · refine Act.keeps_perform fun m db h s₁ hrely => ⟨trivial, fun answer db' hs => ?_⟩
    obtain rfl : db = s₁ := hrely
    exact hop m op answer db db' hs h
  · refine keeps_checkpoint_call fun m db h s₁ hrely => ⟨trivial, fun answer db' hs => ?_⟩
    obtain rfl : db = s₁ := hrely
    exact ⟨hop m _ answer db db' hs h, hop ⟨m.run, []⟩ _ answer db db' hs h⟩

/-- On a sure course nothing is raised that a handler answers with 404. -/
theorem sound_safeResume (h : Abreast run stored ⟨run, []⟩ db) (hsure : wf.Sure d.engine.asynchronous run stored) :
    Act.wp (soloSpec d.engine.asynchronous redact) (ApiService.safeResume d wf) (fun _ _ _ => True)
      (fun e _ _ => e.isMasked = false) ⟨run, []⟩ db := by
  have hkeyless : Act.wp (soloSpec d.engine.asynchronous redact) (WorkflowEngine.resume d.engine.asynchronous wf)
      (fun _ _ _ => True) (fun e _ _ => e.isKeyError = false) ⟨run, []⟩ db := by
    cases hstatus : run.status.terminal with
    | true => exact resume_of_terminal hstatus trivial
    | false =>
        refine Act.wp_mono _ (fun _ _ _ _ => trivial) (fun _ _ _ he => he.2)
          ((course_outline rfl (hsure hstatus)).resume hstatus ?_)
        have hstarted := h.modifyRun (fun run => { run with status := .running }) rfl rfl
        exact fun name hname => ⟨_, .refl, hname, hstarted⟩
  unfold ApiService.safeResume
  refine (Act.wp_tryCatch _ _).mpr ((Act.wp_bind _ _).mpr ?_)
  refine Act.wp_mono _ (fun _ _ _ _ => trivial) (fun e m' db' he => ?_)
    (Act.wp_and _ hkeyless (owner_resume d.engine.asynchronous wf run.tenantId run.id ⟨run, []⟩ db ⟨⟨rfl, rfl⟩, h.row⟩))
  obtain ⟨hkey, ⟨htenant, hid⟩, row, hstored, howner⟩ := he
  split
  · refine (wp_getRun_bind _).mpr ?_
    rw [solo_perform_bind (db'.loadRun m'.run.tenantId m'.run.id) fun _ _ => Iff.rfl, htenant, hid,
      loadRun_of_own hstored howner]
    trivial
  · rename_i hbass
    cases e with
    | bass cls message => exact absurd rfl hbass
    | paused | python => simp [Exc.isMasked, Exc.isTenantIsolationError, hkey]

/-- On a course that is not sure a `KeyError` can get out. -/
theorem complete_safeResume (h : Abreast run stored ⟨run, []⟩ db)
    (hunsure : ¬wf.Sure d.engine.asynchronous run stored) {Q : Run → Mem → DB → Prop} {E : Exc → Mem → DB → Prop}
    (hwp : Act.wp (soloSpec d.engine.asynchronous redact) (ApiService.safeResume d wf) Q E ⟨run, []⟩ db) :
    ∃ e m' db', e.isKeyError = true ∧ E e m' db' := by
  unfold Workflow.Sure at hunsure
  push Not at hunsure
  obtain ⟨hstatus, f, hreaches, step, henters, hfalters⟩ := hunsure
  have hdrive := (Act.wp_bind _ _).mp ((Act.wp_tryCatch _ _).mp hwp)
  have hstarted := (wp_getRun_bind _).mp hdrive
  rw [if_neg (by simp [hstatus])] at hstarted
  have hcaught := (Act.wp_tryCatch _ _).mp ((wp_modifyRun_bind _ _).mp hstarted)
  obtain ⟨e, m', db', hkey, he⟩ := complete_drive rfl hreaches henters hfalters
    (h.modifyRun (fun run => { run with status := .running }) rfl rfl) (le_refl _) ((Act.wp_bind _ _).mp hcaught)
  obtain ⟨cls, message, rfl⟩ := python_of_keyError hkey
  exact ⟨_, _, _, hkey, he⟩

/-- What the handler answers with 404 comes out of carrying the run on exactly if its course is not sure. -/
theorem resumeMasked_iff (h : Abreast run stored ⟨run, []⟩ db) :
    ResumeMasked d redact db run wf ↔ ¬wf.Sure d.engine.asynchronous run stored := by
  constructor
  · rintro ⟨trace, e, m, db', hexec, hmasked⟩ hsure
    have hquiet : e.isMasked = false := Act.wp_of_exec hexec (sound_safeResume h hsure)
    simp [hquiet] at hmasked
  · intro hunsure
    by_contra hnever
    have hall : Act.wp (soloSpec d.engine.asynchronous redact) (ApiService.safeResume d wf) (fun _ _ _ => True)
        (fun e _ _ => e.isMasked = false) ⟨run, []⟩ db := by
      refine Prog.wp_of_forall_exec _ fun trace out db' hexec => ?_
      obtain ⟨result, m⟩ := out
      cases result with
      | ok _ => trivial
      | error e => exact Bool.eq_false_iff.mpr fun hmasked => hnever ⟨trace, e, m, db', hexec, hmasked⟩
    obtain ⟨e, m, db', hkey, hquiet⟩ := complete_safeResume h hunsure hall
    simp [Exc.isMasked, hkey] at hquiet

end Resume

section NotFound

variable {d : Deployment} {tenantId runId approvalId decidedBy note : String} {approved : Bool}

/-- The request of a tenant that has both the run and the approval decides the approval, and then does with
the run what the deployment has registered for it. -/
theorem exec_resolve_iff {row : RunRow} (hrow : db.runs.find? runId = some row) (htenant : row.tenantId = tenantId)
    (happroval : ∃ row, db.approvals.find? approvalId = some row ∧ row.tenantId = tenantId)
    {out : Except Exc Run × Mem} :
    (∃ trace, Prog.Exec (Call.step d.engine.policy redact)
      ((ApiService.resolveApproval d tenantId runId approvalId approved decidedBy note).exec
        (Mem.request tenantId runId [])) db trace (.pure out) db') ↔
    ∃ now decided trace, db.resolveApproval tenantId approvalId approved decidedBy note now = .ok decided ∧
      Prog.Exec (Call.step d.engine.policy redact)
        ((Act.ofExcept (item row.workflowId (d.workflowsById.get? row.workflowId)) >>= ApiService.safeResume d).exec
          ⟨row.toRun, []⟩) decided trace (.pure out) db' := by
  unfold ApiService.resolveApproval
  rw [exec_hydrate_bind]
  have hload := loadRun_of_own hrow htenant
  constructor
  · rintro ⟨trace, hexec⟩
    cases hexec with
    | cons head tail =>
        obtain ⟨rfl, hsame⟩ := head
        rw [hsame, hload] at tail
        dsimp only at tail
        rw [exec_decision] at tail
        cases tail with
        | cons head tail =>
            obtain ⟨now, hcommits⟩ := head
            obtain ⟨asked, hasked, howner⟩ := happroval
            obtain ⟨decided, hdecided⟩ := resolveApproval_of_own hasked howner approved decidedBy note now
            rw [hdecided] at hcommits
            obtain ⟨rfl, rfl⟩ := commits_of_ok hcommits
            exact ⟨now, _, _, hdecided, tail⟩
  · rintro ⟨now, decided, trace, hdecided, tail⟩
    refine ⟨⟨⟨Mem.request tenantId runId [], .loadRun tenantId runId⟩, .ok (some row.toRun)⟩ ::
      ⟨⟨⟨row.toRun, []⟩, .resolveApproval tenantId approvalId approved decidedBy note⟩, .ok ()⟩ :: trace,
      .cons ⟨hload.symm, rfl⟩ ?_⟩
    dsimp only
    rw [exec_decision]
    refine .cons ⟨now, ?_⟩ tail
    rw [hdecided]
    exact ⟨rfl, rfl⟩

/-- A decision at a new time shows in whatever keeps the approvals. -/
theorem ne_of_retimed {asked : ApprovalRow} (hasked : db.approvals.find? approvalId = some asked)
    {now : ℕ → ℚ} {decided : DB} {t : ℚ} (hnew : asked.decidedAt ≠ some t)
    (hdecided : db.resolveApproval tenantId approvalId approved decidedBy note now = .ok decided)
    (hkept : ApprovalsKept (decided.retime approvalId t) db') : db' ≠ db := by
  rintro rfl
  rcases find?_resolveApproval hdecided hasked with ⟨hne, -⟩ | ⟨-, -, hrow⟩
  · exact hne rfl
  · have hretimed : (decided.retime approvalId t).approvals.find? approvalId =
        some ((asked.resolved approved decidedBy note (now 0)).retime t) := by
      have hid : asked.id = approvalId := Table.key_of_find? hasked
      change (retimed decided.approvals approvalId t).find? approvalId = _
      rw [retimed, Table.find?_update _ _ _ (ApprovalRow.retime_id t), hrow, Option.map_some]
      exact congrArg some (if_pos (decide_eq_true hid))
    have hsame := (hkept _ _ hretimed).symm.trans hasked
    exact hnew (congrArg ApprovalRow.decidedAt (Option.some.inj hsame)).symm

/-- What is raised after the decision comes too late. -/
theorem not_unchanged_of_decided {row : RunRow} (hrow : db.runs.find? runId = some row)
    (htenant : row.tenantId = tenantId)
    (happroval : ∃ row, db.approvals.find? approvalId = some row ∧ row.tenantId = tenantId)
    {now : ℕ → ℚ} {decided : DB}
    (hdecided : db.resolveApproval tenantId approvalId approved decidedBy note now = .ok decided)
    {trace : Trail} {e : Exc} {m : Mem} (hmasked : e.isMasked = true)
    (htail : Prog.Exec (Call.step d.engine.policy redact)
      ((Act.ofExcept (item row.workflowId (d.workflowsById.get? row.workflowId)) >>= ApiService.safeResume d).exec
        ⟨row.toRun, []⟩) decided trace (.pure (.error e, m)) db') :
    ¬NotFoundUnchanged d redact db tenantId runId approvalId approved decidedBy note := by
  intro hunchanged
  obtain ⟨asked, hasked, -⟩ := id happroval
  obtain ⟨t, hnew⟩ : ∃ t : ℚ, asked.decidedAt ≠ some t := by
    by_cases hzero : asked.decidedAt = some 0
    · exact ⟨1, by simp [hzero]⟩
    · exact ⟨0, hzero⟩
  have hsilent : Makes (fun op => op.decides? = none)
      (Act.ofExcept (item row.workflowId (d.workflowsById.get? row.workflowId)) >>= ApiService.safeResume d) :=
    Act.keeps_bind (Act.keeps_ofExcept _) fun wf => decides_safeResume d wf
  have hfound : decided.approvals.find? approvalId ≠ none := by
    rcases find?_resolveApproval hdecided hasked with ⟨-, hkept⟩ | ⟨-, -, hkept⟩ <;> simp [hkept]
  have hlater := exec_retime hsilent htail hfound t
  obtain ⟨trace', hexec⟩ := (exec_resolve_iff hrow htenant happroval).mpr
    ⟨_, _, _, resolveApproval_retime hdecided t, hlater⟩
  exact ne_of_retimed hasked hnew hdecided (approvalsKept_of_exec hsilent hlater)
    (hunchanged _ _ _ _ hexec hmasked)

/-- A request that was not found has changed nothing exactly if the tenant lacks the run or the approval, or the
workflow of the run is registered and the run, carried on after the decision, comes to no step that a `KeyError`
can come out of. -/
theorem not_found_unchanged_iff (d : Deployment) (redact : Json → Json) (db : DB)
    (tenantId runId approvalId : String) (approved : Bool) (decidedBy note : String) :
    NotFoundUnchanged d redact db tenantId runId approvalId approved decidedBy note ↔
      ¬db.OwnsBoth tenantId runId approvalId ∨ ∃ row wf, db.runs.find? runId = some row ∧
        d.workflowsById.get? row.workflowId = some wf ∧
        wf.Sure d.engine.asynchronous row.toRun (db.withDecision approvalId approved) := by
  by_cases howns : db.OwnsBoth tenantId runId approvalId
  · obtain ⟨⟨row, hrow, htenant⟩, happroval⟩ := id howns
    have habreast : ∀ {now decided}, db.resolveApproval tenantId approvalId approved decidedBy note now = .ok decided →
        Abreast row.toRun (db.withDecision approvalId approved) ⟨row.toRun, []⟩ decided := by
      intro now decided hdecided
      obtain ⟨-, hruns, -, heffects⟩ := DB.resolveApproval_ok hdecided
      refine ⟨rfl, heffects, latestApproval_withDecision hdecided, ⟨row, ?_, rfl⟩,
        fun _ hmem => absurd hmem List.not_mem_nil⟩
      have hid : row.toRun.id = runId := (Table.key_of_find? hrow : row.id = runId)
      rw [hruns, hid, hrow]
    cases hwf : d.workflowsById.get? row.workflowId with
    | none =>
        obtain ⟨asked, hasked, howner⟩ := id happroval
        obtain ⟨decided, hdecided⟩ := resolveApproval_of_own hasked howner approved decidedBy note fun _ => 0
        have htail : Prog.Exec (Call.step d.engine.policy redact)
            ((Act.ofExcept (item row.workflowId (d.workflowsById.get? row.workflowId)) >>=
              ApiService.safeResume d).exec ⟨row.toRun, []⟩) decided []
            (.pure (.error (.keyError row.workflowId), ⟨row.toRun, []⟩)) decided := by
          rw [hwf]
          exact .nil _ _
        have hlate : ¬NotFoundUnchanged d redact db tenantId runId approvalId approved decidedBy note :=
          not_unchanged_of_decided hrow htenant happroval hdecided rfl htail
        refine iff_of_false hlate ?_
        rintro (hneither | ⟨row', wf, hrow', hwf', -⟩)
        · exact hneither howns
        · obtain rfl := Option.some.inj (hrow.symm.trans hrow')
          cases hwf.symm.trans hwf'
    | some wf =>
        constructor
        · intro hunchanged
          refine Or.inr ⟨row, wf, hrow, hwf, ?_⟩
          by_contra hunsure
          obtain ⟨asked, hasked, howner⟩ := id happroval
          obtain ⟨decided, hdecided⟩ := resolveApproval_of_own hasked howner approved decidedBy note fun _ => 0
          obtain ⟨trace, e, m, db', hexec, hmasked⟩ := (resumeMasked_iff (habreast hdecided)).mpr hunsure
          have htail : Prog.Exec (Call.step d.engine.policy redact)
              ((Act.ofExcept (item row.workflowId (d.workflowsById.get? row.workflowId)) >>=
                ApiService.safeResume d).exec ⟨row.toRun, []⟩) decided trace (.pure (.error e, m)) db' := by
            rw [hwf]
            exact hexec
          exact not_unchanged_of_decided hrow htenant happroval hdecided hmasked htail hunchanged
        · rintro (hneither | ⟨row', wf', hrow', hwf', hsafe⟩) trace e m db' hexec hmasked
          · exact absurd howns hneither
          · obtain rfl := Option.some.inj (hrow.symm.trans hrow')
            obtain rfl := Option.some.inj (hwf.symm.trans hwf')
            obtain ⟨now, decided, trace', hdecided, htail⟩ :=
              (exec_resolve_iff hrow htenant happroval).mp ⟨trace, hexec⟩
            rw [hwf] at htail
            exact absurd hsafe ((resumeMasked_iff (habreast hdecided)).mp ⟨trace', e, m, db', htail, hmasked⟩)
  · refine iff_of_true (fun trace e m db' hexec _ => ?_) (Or.inl howns)
    rcases decision_cases hexec with ⟨-, -, hsame⟩ | ⟨hboth, -⟩
    · exact hsame
    · exact absurd hboth howns

end NotFound

/-! ### A workflow that is not registered -/

/-- A process in which the workflow of the waiting run is not registered. -/
def unregisteredDeployment : Deployment := { payDeployment with workflowsById := Table.empty }

/-- An approver decides the approval the run waits for, and is told that it was not found. -/
def unregisteredDecision : Trail × (Except Exc Run × Mem) × DB :=
  ((ApiService.resolveApproval unregisteredDeployment "acme" "run" "approval" true "alice" "").exec
    (Mem.request "acme" "run" [])).complete
      (fun db call => call.op.serve unregisteredDeployment.engine.policy id (.constant .null) db) DB.waiting

theorem not_found_decided :
    unregisteredDecision.2.1.1.toOption.isNone = true ∧
      (unregisteredDecision.2.2.approvals.find? "approval").map ApprovalRow.decision =
        some (.approved, some "alice") ∧
      ¬NotFoundUnchanged unregisteredDeployment id DB.waiting "acme" "run" "approval" true "alice" "" := by
  have hexec : Prog.Exec (Call.step unregisteredDeployment.engine.policy id)
      ((ApiService.resolveApproval unregisteredDeployment "acme" "run" "approval" true "alice" "").exec
        (Mem.request "acme" "run" [])) DB.waiting unregisteredDecision.1 (.pure unregisteredDecision.2.1)
        unregisteredDecision.2.2 :=
    Prog.complete_exec (fun db (call : Call) =>
      call.op.serve_step unregisteredDeployment.engine.policy id (.constant .null) db) _ _
  have hdecided : (unregisteredDecision.2.2.approvals.find? "approval").map ApprovalRow.decision =
      some (.approved, some "alice") := by decide +kernel
  have hraised : unregisteredDecision.2.1.1 = .error (.keyError "payments") := rfl
  refine ⟨rfl, hdecided, fun hunchanged => ?_⟩
  have hsame := hunchanged unregisteredDecision.1 (.keyError "payments") unregisteredDecision.2.1.2
    unregisteredDecision.2.2 hexec rfl
  rw [hsame] at hdecided
  revert hdecided
  decide +kernel

end Bass
