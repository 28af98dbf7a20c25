import Bass.Interface
import Bass.Proof.Noninterference
import Bass.Proof.Redrive

/-!
# Decisions about approvals

An approval is written by `create_approval` and `resolve_approval` only. The latter does not look at
what it overwrites, so a decision is final as long as nobody decides the same approval again, and the
approval that a request decides need not be one that the run it names waits for.
-/

namespace Bass

open Interaction EngineM

/-! ### The row of an approval -/

/-- The row after a decision. -/
def ApprovalRow.resolved (row : ApprovalRow) (approved : Bool) (decidedBy note : String) (now : ℚ) :
    ApprovalRow :=
  { row with
    status := if approved then .approved else .rejected
    decidedBy := some decidedBy
    note := some note
    decidedAt := some now }

/-- The approval that a call decides, and for which tenant. -/
def Op.decides? : Op → Option (String × String)
  | .resolveApproval tenantId approvalId .. => some (tenantId, approvalId)
  | _ => none

def StoreOp.decides? : StoreOp → Option (String × String)
  | .resolveApproval tenantId approvalId .. => some (tenantId, approvalId)
  | _ => none

variable {policy : PolicyEngine} {redact : Json → Json} {db db' : DB}

/-- A decision that is accepted writes the row of its approval, and no other row. -/
theorem find?_resolveApproval {tenantId approvalId decidedBy note id : String} {approved : Bool}
    {now : ℕ → ℚ} {row : ApprovalRow}
    (h : db.resolveApproval tenantId approvalId approved decidedBy note now = .ok db')
    (hrow : db.approvals.find? id = some row) :
    (id ≠ approvalId ∧ db'.approvals.find? id = some row) ∨
      (id = approvalId ∧ row.tenantId = tenantId ∧
        db'.approvals.find? id = some (row.resolved approved decidedBy note (now 0))) := by
  unfold DB.resolveApproval at h
  split at h
  · cases h
  · rename_i target htarget
    split at h
    · rename_i htenant
      cases h
      have hid : row.id = id := Table.key_of_find? hrow
      by_cases heq : id = approvalId
      · subst heq
        obtain rfl := Option.some.inj (hrow.symm.trans htarget)
        refine Or.inr ⟨rfl, htenant, ?_⟩
        rw [Table.find?_update, hrow]
        simp [hid, ApprovalRow.resolved]
      · refine Or.inl ⟨heq, ?_⟩
        rw [Table.find?_update, hrow]
        simp [hid, heq]
    · cases h

theorem find?_append_approval {approvalId : String} {row new : ApprovalRow}
    (hrows : db'.approvals.rows = db.approvals.rows ++ [new])
    (hrow : db.approvals.find? approvalId = some row) : db'.approvals.find? approvalId = some row := by
  rw [Table.find?] at hrow ⊢
  rw [hrows, List.find?_append, hrow]
  rfl

/-- What a call can do to the row of an approval: leave it, or decide it. -/
theorem approvalRow_of_step {op : Op} {answer : op.Res} {approvalId : String} {row : ApprovalRow}
    (h : op.step policy redact db answer db') (hrow : db.approvals.find? approvalId = some row) :
    db'.approvals.find? approvalId = some row ∨
      ∃ approved decidedBy note now, op = .resolveApproval row.tenantId approvalId approved decidedBy note ∧
        db'.approvals.find? approvalId = some (row.resolved approved decidedBy note now) := by
  rcases approvals_cases h with hsame | ⟨_, _, _, _, _, _, -, hadded⟩ |
    ⟨tenantId, target, approved, decidedBy, note, now, rfl, hra⟩
  · left
    rwa [Table.find?, hsame]
  · exact Or.inl (find?_append_approval hadded hrow)
  · rcases find?_resolveApproval hra hrow with ⟨-, hsame⟩ | ⟨rfl, rfl, hnew⟩
    · exact Or.inl hsame
    · exact Or.inr ⟨approved, decidedBy, note, now 0, rfl, hnew⟩

/-- The same for a direct use of the store. -/
theorem approvals_of_storeOp (policy : PolicyEngine) {op : StoreOp} {answer : op.Res}
    (h : op.step redact db answer db') :
    db'.approvals = db.approvals ∨
      ∃ (op' : Op) (answer' : op'.Res), op'.step policy redact db answer' db' ∧
        op'.decides? = op.decides? := by
  cases op with
  | createApproval tenantId runId stepId approvers =>
      exact Or.inr ⟨.createApproval tenantId runId stepId approvers, answer, h, rfl⟩
  | resolveApproval tenantId approvalId approved decidedBy note =>
      exact Or.inr ⟨.resolveApproval tenantId approvalId approved decidedBy note, answer, h, rfl⟩
  | checkpoint run events => exact Or.inr ⟨.checkpoint run events, answer, h, rfl⟩
  | cancelRun tenantId runId => exact Or.inr ⟨.cancelRun tenantId runId, answer, h, rfl⟩
  | createOrGetRun run =>
      obtain ⟨now, rfl, -⟩ := h
      left
      unfold DB.insertRun
      split <;> rfl
  | ensureTenant | recordEffect =>
      obtain ⟨now, rfl⟩ := h
      exact Or.inl rfl
  | loadRun | listRuns | listEvents | getEffect | latestApproval =>
      obtain ⟨-, rfl⟩ := h
      exact Or.inl rfl
  | purgeEventPayloads tenantId before =>
      cases h
      exact Or.inl rfl
  | ping =>
      obtain rfl := h
      exact Or.inl rfl

/-! ### Deciding once -/

/-- Requests in flight, and any use of the store between their calls, as long as `may` permits every
decision in the database it is made in. -/
abbrev System.DecidingRun (d : Deployment) (redact : Json → Json) (may : DB → String → String → Prop) :
    System → List (Pool.Label Request Call Call.Res) → System → Prop :=
  Pool.Run
    (fun db call answer db' => call.step d.engine.policy redact db answer db' ∧
      ∀ tenantId approvalId, call.op.decides? = some (tenantId, approvalId) → may db tenantId approvalId)
    (Request.program d)
    fun db db' => ∃ (op : StoreOp) (answer : op.Res), op.step redact db answer db' ∧
      ∀ tenantId approvalId, op.decides? = some (tenantId, approvalId) → may db tenantId approvalId

def ApprovalRow.Decided (row : ApprovalRow) : Prop := row.status = .approved ∨ row.status = .rejected

/-- The tenant's approval has not been decided yet. -/
def DB.Undecided (db : DB) (tenantId approvalId : String) : Prop :=
  ∀ row, db.approvals.find? approvalId = some row → row.tenantId = tenantId → ¬row.Decided

/-- Decided approvals are as they were. -/
def DecisionsKept (db db' : DB) : Prop :=
  ∀ approvalId row, db.approvals.find? approvalId = some row → row.Decided →
    db'.approvals.find? approvalId = some row

theorem DecisionsKept.trans {db₁ : DB} (h : DecisionsKept db db₁) (h' : DecisionsKept db₁ db') :
    DecisionsKept db db' :=
  fun approvalId row hrow hdecided => h' approvalId row (h approvalId row hrow hdecided) hdecided

/-- A call that decides no decided approval keeps the decisions. -/
theorem decisionsKept_of_step {op : Op} {answer : op.Res} (h : op.step policy redact db answer db')
    (honce : ∀ tenantId approvalId, op.decides? = some (tenantId, approvalId) →
      db.Undecided tenantId approvalId) : DecisionsKept db db' := by
  intro approvalId row hrow hdecided
  rcases approvalRow_of_step h hrow with hsame | ⟨_, _, _, _, rfl, -⟩
  · exact hsame
  · exact absurd hdecided (honce _ _ rfl row hrow rfl)

/-- As long as nobody decides a decided approval again, whatever requests and store operations come
after a decision leave it as it is, and the engine reads it where it reads that approval. -/
theorem decision_stands {d : Deployment} {c c' : System} {labels : List (Pool.Label Request Call Call.Res)}
    (hrun : System.DecidingRun d redact DB.Undecided c labels c') {approvalId : String} {row : ApprovalRow}
    (hrow : c.shared.approvals.find? approvalId = some row) (hdecided : row.Decided) :
    c'.shared.approvals.find? approvalId = some row ∧
      ∀ tenantId runId stepId status,
        c'.shared.latestApproval tenantId runId stepId = some (approvalId, status) → status = row.status := by
  have hcall : ∀ (db : DB) (call : Call) (answer : call.Res) (db' : DB),
      (call.step d.engine.policy redact db answer db' ∧ ∀ tenantId approvalId,
        call.op.decides? = some (tenantId, approvalId) → db.Undecided tenantId approvalId) →
      DecisionsKept db db' := fun _ _ _ _ ⟨hstep, honce⟩ => decisionsKept_of_step hstep honce
  have hstore : ∀ db db' : DB, (∃ (op : StoreOp) (answer : op.Res), op.step redact db answer db' ∧
      ∀ tenantId approvalId, op.decides? = some (tenantId, approvalId) →
        db.Undecided tenantId approvalId) → DecisionsKept db db' := by
    rintro db db' ⟨op, answer, hstep, honce⟩
    rcases approvals_of_storeOp d.engine.policy hstep with hsame | ⟨op', answer', hstep', hdecides⟩
    · intro id row hfind _
      rwa [hsame]
    · exact decisionsKept_of_step hstep' fun tenantId id hid => honce tenantId id (hdecides ▸ hid)
  have hkept : DecisionsKept c.shared c'.shared :=
    hrun.shared (P := DecisionsKept) (fun _ _ _ hfind _ => hfind) (fun _ _ _ => DecisionsKept.trans)
      hcall hstore
  have hfind := hkept approvalId row hrow hdecided
  refine ⟨hfind, fun tenantId runId stepId status hlatest => ?_⟩
  obtain ⟨read, hmem, rfl, rfl, -⟩ := own_latestApproval hlatest
  rw [Table.find?_of_mem hmem] at hfind
  rw [Option.some.inj hfind]

/-! ### Deciding twice -/

/-- Alice approves what the run waits for, and the request she makes runs to its end. -/
def decidedByAlice : List (Pool.Label Request Call Call.Res) × System :=
  System.play waitingDeployment id (.constant .null)
    (.spawn (.apiResolve "acme" "run" "approval" true "alice" "") :: List.replicate 11 (.call 0))
    ⟨[], DB.waiting⟩

/-- A worker takes the decided run up. -/
def takenUp : List (Pool.Label Request Call Call.Res) × System :=
  System.play waitingDeployment id (.constant .null)
    (.spawn (.runnerResume "acme" "run") :: List.replicate 5 (.call 1)) decidedByAlice.2

/-- Bob decides the same approval. -/
def decidedByBob : List (Pool.Label Request Call Call.Res) × System :=
  System.play waitingDeployment id (.constant .null)
    (.spawn (.apiResolve "acme" "run" "approval" false "bob" "") :: List.replicate 5 (.call 1))
    decidedByAlice.2

def ApprovalRow.decision (row : ApprovalRow) : ApprovalStatus × Option String :=
  (row.status, row.decidedBy)

def decidedAt? : Pool.Label Request Call Call.Res → Option (String × String)
  | .call _ call _ => call.op.decides?
  | _ => none

theorem decision_stands_takenUp :
    (takenUp.2.shared.approvals.find? "approval").map ApprovalRow.decision =
      some (.approved, some "alice") := by
  have hdecision : (decidedByAlice.2.shared.approvals.find? "approval").map ApprovalRow.decision =
      some (.approved, some "alice") := by decide +kernel
  obtain ⟨row, hrow, hcolumns⟩ := Option.map_eq_some_iff.mp hdecision
  have hsilent : ∀ label ∈ takenUp.1, decidedAt? label = none := List.forall_iff_forall_mem.mp (by decide +kernel)
  have hrun : System.DecidingRun waitingDeployment id DB.Undecided decidedByAlice.2 takenUp.1 takenUp.2 := by
    refine (System.play_run _ _ _ _ _).mono (fun i call answer s s' hmem hstep => ⟨hstep, ?_⟩) ?_
    · intro tenantId approvalId hdecides
      cases hdecides.symm.trans (hsilent _ hmem)
    · intro s s' henv
      cases henv
  rw [(decision_stands hrun hrow (Or.inl (congrArg Prod.fst hcolumns))).1, Option.map_some, hcolumns]

/-- A decision that was carried out is overwritten by a later one. -/
theorem decision_overwritten :
    System.Run waitingDeployment id ⟨[], DB.waiting⟩ decidedByAlice.1 decidedByAlice.2 ∧
      System.Run waitingDeployment id decidedByAlice.2 decidedByBob.1 decidedByBob.2 ∧
      (decidedByAlice.2.shared.approvals.find? "approval").map ApprovalRow.decision =
        some (.approved, some "alice") ∧
      decidedByAlice.2.shared.toolEffects.rows.map EffectRow.tool = ["pay"] ∧
      (decidedByBob.2.shared.approvals.find? "approval").map ApprovalRow.decision =
        some (.rejected, some "bob") :=
  ⟨System.play_run _ _ _ _ _, System.play_run _ _ _ _ _, by decide +kernel, by decide +kernel,
    by decide +kernel⟩

/-! ### Which approval a request decides -/

/-- The run waits for the approval: it is paused at a step whose latest approval this is, undecided. -/
def WaitingOn (db : DB) (tenantId runId approvalId : String) : Prop :=
  ∃ row stepId, db.runs.find? runId = some row ∧ row.tenantId = tenantId ∧
    row.status = .waitingApproval ∧ row.cursorStep = some stepId ∧
    db.latestApproval tenantId runId stepId = some (approvalId, .pending)

/-- The tenant has such a run, and such an approval. -/
def DB.OwnsBoth (db : DB) (tenantId runId approvalId : String) : Prop :=
  (∃ row, db.runs.find? runId = some row ∧ row.tenantId = tenantId) ∧
    ∃ row, db.approvals.find? approvalId = some row ∧ row.tenantId = tenantId

/-- Whatever decision is sent for the pair of ids, only an approval that the run waits for changes its
status, and for any other pair the request raises and leaves the approvals as they are. -/
def DecisionScoped (d : Deployment) (redact : Json → Json) (db : DB) (tenantId runId approvalId : String) :
    Prop :=
  ∀ approved decidedBy note trace outcome m db',
    Prog.Exec (Call.step d.engine.policy redact)
      ((ApiService.resolveApproval d tenantId runId approvalId approved decidedBy note).exec
        (Mem.request tenantId runId [])) db trace (.pure (outcome, m)) db' →
    (∀ id row row', db.approvals.find? id = some row → db'.approvals.find? id = some row' →
      row'.status ≠ row.status → row.runId = runId ∧ WaitingOn db tenantId runId id) ∧
    (¬WaitingOn db tenantId runId approvalId →
      (∃ e, outcome = .error e) ∧ db'.approvals = db.approvals)

section Scope

variable {d : Deployment} {tenantId runId approvalId : String}

/-- A run is not paused at an approval that is not there. -/
theorem WaitingOn.found (h : WaitingOn db tenantId runId approvalId) :
    ∃ row, db.approvals.find? approvalId = some row ∧ row.runId = runId ∧ row.tenantId = tenantId := by
  obtain ⟨-, stepId, -, -, -, -, hlatest⟩ := h
  obtain ⟨row, hrow, heq⟩ := Option.map_eq_some_iff.mp hlatest
  obtain ⟨rfl, -⟩ := Prod.mk.inj heq
  obtain ⟨hmem, hsubject⟩ := List.mem_filter.mp (mem_of_latest hrow)
  obtain ⟨hrun, htenant, -⟩ := of_decide_eq_true hsubject
  exact ⟨row, Table.find?_of_mem hmem, hrun, htenant⟩

/-- The approvals there are stay as they are. -/
def ApprovalsKept (db db' : DB) : Prop :=
  ∀ id row, db.approvals.find? id = some row → db'.approvals.find? id = some row

theorem approvalsKept_of_step {op : Op} {answer : op.Res} (h : op.step policy redact db answer db')
    (hop : op.decides? = none) : ApprovalsKept db db' := by
  intro id row hrow
  rcases approvalRow_of_step h hrow with hsame | ⟨_, _, _, _, rfl, -⟩
  · exact hsame
  · cases hop

theorem ApprovalsKept.trans {db₁ : DB} (h : ApprovalsKept db db₁) (h' : ApprovalsKept db₁ db') :
    ApprovalsKept db db' := fun id row hrow => h' id row (h id row hrow)

/-- Code that decides nothing keeps the approvals. -/
theorem approvalsKept_of_exec {α : Type} {x : EngineM α} {m : Mem} {trace : Trail}
    {p : Driver (Except Exc α × Mem)} (hx : Makes (fun op => op.decides? = none) x)
    (h : Prog.Exec (Call.step policy redact) (x.exec m) db trace p db') : ApprovalsKept db db' :=
  h.preserves (P := fun call : Call => call.op.decides? = none) (K := ApprovalsKept) (fun _ _ _ hfind => hfind)
    (fun _ _ _ => ApprovalsKept.trans) (fun _ _ _ _ hop hstep => approvalsKept_of_step hstep hop)
    (hx m () trivial)

/-- Without an approval callback the engine decides nothing, and neither does what follows it. -/
theorem decides_resume (d : Deployment) (wf : Workflow) :
    Makes (fun op => op.decides? = none) (WorkflowEngine.resume d.engine.asynchronous wf) := by
  intro m s _
  have hcalls : Act.wp (.calls fun call : Call => call.op.decides? = none)
      (WorkflowEngine.resume d.engine.asynchronous wf) (fun _ m' _ => m'.Of m.run.tenantId m.run.id)
      (fun _ m' _ => m'.Of m.run.tenantId m.run.id) m s := by
    refine Prog.wp_calls_mono (fun call hcall => ?_) _
      (performs_resume d.engine.asynchronous wf m.run.tenantId m.run.id m s ⟨rfl, rfl⟩)
    obtain ⟨m, op⟩ := call
    cases op with
    | resolveApproval => exact absurd hcall.2.1 (by simp [EngineConfig.asynchronous])
    | _ => rfl
  exact Act.wp_mono _ (fun _ _ _ _ => trivial) (fun _ _ _ _ => trivial) hcalls

theorem decides_safeResume (d : Deployment) (wf : Workflow) :
    Makes (fun op => op.decides? = none) (ApiService.safeResume d wf) := by
  refine Act.keeps_tryCatch ?_ fun e => ?_
  · exact Act.keeps_bind (decides_resume d wf) fun _ => keeps_getRun
  · split
    · refine Act.keeps_bind keeps_getRun fun run => ?_
      refine Act.keeps_bind (Act.keeps_perform fun _ _ _ _ _ => ⟨rfl, fun _ _ _ => trivial⟩) fun answer => ?_
      exact Act.keeps_bind (Act.keeps_ofExcept _) fun _ => Act.keeps_pure _
    · exact Act.keeps_throw _

/-- What a request does after it has loaded its run. -/
theorem exec_decision (d : Deployment) (tenantId approvalId workflowId : String) (approved : Bool)
    (decidedBy note : String) (m : Mem) :
    (do
      let answer ← perform (.resolveApproval tenantId approvalId approved decidedBy note)
      Act.ofExcept answer
      let wf ← Act.ofExcept (item workflowId (d.workflowsById.get? workflowId))
      ApiService.safeResume d wf : EngineM Run).exec m =
      .call ⟨m, .resolveApproval tenantId approvalId approved decidedBy note⟩ fun answer =>
        match answer with
        | .ok _ => (Act.ofExcept (item workflowId (d.workflowsById.get? workflowId)) >>=
            ApiService.safeResume d).exec m
        | .error e => .pure (.error e, m) := by
  rw [Act.exec_perform_bind]
  congr 1
  funext answer
  rw [Act.exec_ofExcept_bind]
  cases answer <;> rfl

/-- The approval is decided when the tenant has it. -/
theorem resolveApproval_of_own {row : ApprovalRow} (hrow : db.approvals.find? approvalId = some row)
    (htenant : row.tenantId = tenantId) (approved : Bool) (decidedBy note : String) (now : ℕ → ℚ) :
    ∃ decided, db.resolveApproval tenantId approvalId approved decidedBy note now = .ok decided := by
  unfold DB.resolveApproval
  simp only [hrow, if_pos htenant]
  exact ⟨_, rfl⟩

/-- A request raises and writes nothing when the tenant does not have both the run and the approval;
when it has, the approval is decided, and nothing is decided after it. -/
theorem decision_cases {approved : Bool} {decidedBy note : String} {trace : Trail}
    {outcome : Except Exc Run} {m : Mem}
    (hexec : Prog.Exec (Call.step d.engine.policy redact)
      ((ApiService.resolveApproval d tenantId runId approvalId approved decidedBy note).exec
        (Mem.request tenantId runId [])) db trace (.pure (outcome, m)) db') :
    (¬db.OwnsBoth tenantId runId approvalId ∧ (∃ e, outcome = .error e) ∧ db' = db) ∨
      (db.OwnsBoth tenantId runId approvalId ∧ ∃ now decided,
        db.resolveApproval tenantId approvalId approved decidedBy note now = .ok decided ∧
          ApprovalsKept decided db') := by
  unfold ApiService.resolveApproval at hexec
  rw [exec_hydrate_bind] at hexec
  cases hexec with
  | cons head tail =>
      obtain ⟨rfl, hsame⟩ := head
      rw [hsame] at tail
      by_cases hrun : ∃ row, db.runs.find? runId = some row ∧ row.tenantId = tenantId
      · obtain ⟨row, hrow, htenant⟩ := hrun
        rw [loadRun_of_own hrow htenant] at tail
        dsimp only at tail
        rw [exec_decision] at tail
        cases tail with
        | cons head tail =>
            obtain ⟨now, hcommits⟩ := head
            by_cases happroval : ∃ row, db.approvals.find? approvalId = some row ∧ row.tenantId = tenantId
            · refine Or.inr ⟨⟨⟨row, hrow, htenant⟩, happroval⟩, now, ?_⟩
              obtain ⟨asked, hasked, howner⟩ := happroval
              obtain ⟨decided, hdecided⟩ := resolveApproval_of_own hasked howner approved decidedBy note now
              rw [hdecided] at hcommits
              obtain ⟨rfl, rfl⟩ := commits_of_ok hcommits
              have hsilent : Makes (fun op => op.decides? = none)
                  (Act.ofExcept (item row.toRun.workflowId (d.workflowsById.get? row.toRun.workflowId)) >>=
                    ApiService.safeResume d) :=
                Act.keeps_bind (Act.keeps_ofExcept _) fun wf => decides_safeResume d wf
              exact ⟨_, hdecided, approvalsKept_of_exec hsilent tail⟩
            · refine Or.inl ⟨fun howns => happroval howns.2, ?_⟩
              have hnone : ∀ row, db.approvals.find? approvalId = some row → row.tenantId ≠ tenantId :=
                fun row hfind htenant => happroval ⟨row, hfind, htenant⟩
              obtain ⟨e, herror, -⟩ := resolveApproval_of_not_own hnone approved decidedBy note now
              rw [herror] at hcommits
              obtain ⟨rfl, rfl⟩ := commits_of_error hcommits
              cases tail
              exact ⟨⟨e, rfl⟩, rfl⟩
      · refine Or.inl ⟨fun howns => hrun howns.1, ?_⟩
        have hnone : ∀ row, db.runs.find? runId = some row → row.tenantId ≠ tenantId :=
          fun row hfind htenant => hrun ⟨row, hfind, htenant⟩
        rcases loadRun_of_not_own hnone with hload | ⟨message, hload⟩
        · rw [hload] at tail
          cases tail
          exact ⟨⟨_, rfl⟩, rfl⟩
        · rw [hload] at tail
          cases tail
          exact ⟨⟨_, rfl⟩, rfl⟩

/-- A note that differs from what the approval's row says. -/
theorem exists_ne_note (note : Option String) : ∃ other, some other ≠ note := by
  by_cases h : note = some ""
  · exact ⟨"-", by simp [h]⟩
  · exact ⟨"", fun heq => h heq.symm⟩

/-- The request decides what it may decide exactly when the run waits for the approval, or when the
tenant does not have the run or does not have the approval. -/
theorem decision_scoped_iff (d : Deployment) (redact : Json → Json) (db : DB)
    (tenantId runId approvalId : String) :
    DecisionScoped d redact db tenantId runId approvalId ↔
      WaitingOn db tenantId runId approvalId ∨ ¬db.OwnsBoth tenantId runId approvalId := by
  constructor
  · intro hscoped
    by_contra hneither
    obtain ⟨hwaiting, howns⟩ := not_or.mp hneither
    obtain ⟨row, hrow, -⟩ := (not_not.mp howns).2
    obtain ⟨note, hnote⟩ := exists_ne_note row.note
    have hexec := Prog.complete_exec
      (fun db (call : Call) => call.op.serve_step d.engine.policy redact (.constant .null) db)
      ((ApiService.resolveApproval d tenantId runId approvalId true "" note).exec
        (Mem.request tenantId runId [])) db
    obtain ⟨-, hsame⟩ := (hscoped _ _ _ _ _ _ _ hexec).2 hwaiting
    rcases decision_cases hexec with ⟨hnot, -⟩ | ⟨-, now, decided, hdecided, hkept⟩
    · exact howns hnot
    · rcases find?_resolveApproval hdecided hrow with ⟨hne, -⟩ | ⟨-, -, hnew⟩
      · exact hne rfl
      · have hread := hkept approvalId _ hnew
        rw [hsame, hrow] at hread
        exact hnote (congrArg ApprovalRow.note (Option.some.inj hread)).symm
  · intro hcondition approved decidedBy note trace outcome m db' hexec
    rcases decision_cases hexec with ⟨-, herror, rfl⟩ | ⟨howns, now, decided, hdecided, hkept⟩
    · refine ⟨fun id row row' hrow hrow' hne => ?_, fun _ => ⟨herror, rfl⟩⟩
      rw [hrow] at hrow'
      exact absurd (congrArg ApprovalRow.status (Option.some.inj hrow')).symm hne
    · have hwaiting := hcondition.resolve_right (not_not.mpr howns)
      refine ⟨fun id row row' hrow hrow' hne => ?_, fun hnot => absurd hwaiting hnot⟩
      rcases find?_resolveApproval hdecided hrow with ⟨-, hsame⟩ | ⟨rfl, -, -⟩
      · rw [hkept id row hsame] at hrow'
        exact absurd (congrArg ApprovalRow.status (Option.some.inj hrow')).symm hne
      · obtain ⟨asked, hasked, hrun, -⟩ := hwaiting.found
        rw [hasked] at hrow
        exact ⟨Option.some.inj hrow ▸ hrun, hwaiting⟩

end Scope

/-- Beside the run that waits, another run of its tenant. -/
def DB.waitingBeside : DB :=
  { DB.waiting with
    runs := ⟨[waitingRow, { newRow "run_2" "payments" with idempotencyKey := "trigger_2" }], by decide⟩
    runsUnique := by decide }

/-- The other run is named with the approval that the first one waits for. -/
def misdirected : Trail × (Except Exc Run × Mem) × DB :=
  ((ApiService.resolveApproval waitingDeployment "acme" "run_2" "approval" true "alice" "").exec
    (Mem.request "acme" "run_2" [])).complete
      (fun db call => call.op.serve waitingDeployment.engine.policy id (.constant .null) db)
      DB.waitingBeside

theorem decision_misdirected : ¬DecisionScoped waitingDeployment id DB.waitingBeside "acme" "run_2" "approval" := by
  intro hscoped
  have hexec : Prog.Exec _ _ _ misdirected.1 (.pure misdirected.2.1) misdirected.2.2 :=
    Prog.complete_exec (fun db (call : Call) =>
      call.op.serve_step waitingDeployment.engine.policy id (.constant .null) db) _ _
  have hbefore : DB.waitingBeside.approvals.rows.map (fun row => (row.runId, row.status)) =
      [("run", .pending)] := by decide +kernel
  have hafter : misdirected.2.2.approvals.rows.map (fun row => (row.runId, row.status)) =
      [("run", .approved), ("run_2", .pending)] := by decide +kernel
  have hnot : ¬WaitingOn DB.waitingBeside "acme" "run_2" "approval" := by
    intro hwaiting
    obtain ⟨row, hrow, hrun, -⟩ := hwaiting.found
    cases hrow
    exact absurd hrun (by decide)
  obtain ⟨-, hsame⟩ := (hscoped _ _ _ _ _ _ _ hexec).2 hnot
  rw [hsame, hbefore] at hafter
  cases hafter

end Bass
