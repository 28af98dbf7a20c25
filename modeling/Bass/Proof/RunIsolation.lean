import Bass.Proof.Ownership

/-!
# The part of a database that is a run's

A job works on the rows of its run and on the row that its trigger key leads to. It leaves the rows of the
other runs alone, and it does not notice them: in two databases with the same rows of the run it is
answered alike and writes the same.
-/

namespace Bass

open Interaction

/-! ### Own rows -/

section Rows

variable {ρ : Type} {rows rows' : List ρ} {own p : ρ → Bool}

theorem filter_of_own (hp : ∀ row ∈ rows, p row = true → own row = true)
    (hp' : ∀ row ∈ rows', p row = true → own row = true) (h : rows.filter own = rows'.filter own) :
    rows.filter p = rows'.filter p := by
  have hown : ∀ rows : List ρ, (∀ row ∈ rows, p row = true → own row = true) →
      rows.filter p = (rows.filter own).filter p := by
    intro rows hp
    rw [List.filter_filter]
    refine List.filter_congr fun row hmem => ?_
    cases hrow : p row with
    | true => rw [hp row hmem hrow, Bool.and_self]
    | false => rw [Bool.false_and]
  rw [hown rows hp, hown rows' hp', h]

theorem find?_of_own (hp : ∀ row, p row = true → own row = true)
    (h : rows.filter own = rows'.filter own) : rows.find? p = rows'.find? p := by
  rw [← List.head?_filter, ← List.head?_filter, filter_of_own (fun row _ => hp row) (fun row _ => hp row) h]

theorem any_of_own (hp : ∀ row, p row = true → own row = true)
    (h : rows.filter own = rows'.filter own) : rows.any p = rows'.any p := by
  rw [← List.isSome_find?, ← List.isSome_find?, find?_of_own hp h]

end Rows

/-! ### The other runs -/

/-- The databases differ in what belongs to the run only. -/
structure SameOtherRuns (runId : String) (db db' : DB) : Prop where
  runs : db'.runs.rows.filter (fun row => row.id ≠ runId) =
    db.runs.rows.filter fun row => row.id ≠ runId
  idents : db.idents ⊆ db'.idents
  events : db'.events.rows.filter (fun row => row.runId ≠ runId) =
    db.events.rows.filter fun row => row.runId ≠ runId
  approvals : db'.approvals.rows.filter (fun row => row.runId ≠ runId) =
    db.approvals.rows.filter fun row => row.runId ≠ runId
  asked : ∀ old ∈ db.approvals.rows, ∃ row ∈ db'.approvals.rows, row.subject = old.subject
  effects : ∀ key, (∀ stepId tool, ledgerKey runId stepId tool ≠ key) →
    db'.toolEffects.find? key = db.toolEffects.find? key

section Frame

variable {d : Deployment} {redact : Json → Json} {tenantId runId : String} {job : Job} {db db' : DB}
  {op : Op} {answer : op.Res}

theorem SameOtherRuns.refl (runId : String) (db : DB) : SameOtherRuns runId db db :=
  ⟨rfl, fun _ hmem => hmem, rfl, rfl, fun old hold => ⟨old, hold, rfl⟩, fun _ _ => rfl⟩

theorem SameOtherRuns.trans {db₁ : DB} (h : SameOtherRuns runId db db₁)
    (h' : SameOtherRuns runId db₁ db') : SameOtherRuns runId db db' where
  runs := h'.runs.trans h.runs
  idents := fun _ hmem => h'.idents (h.idents hmem)
  events := h'.events.trans h.events
  approvals := h'.approvals.trans h.approvals
  asked := by
    intro old hold
    obtain ⟨row, hrow, hsubject⟩ := h.asked old hold
    obtain ⟨row', hrow', hsubject'⟩ := h'.asked row hrow
    exact ⟨row', hrow', hsubject'.trans hsubject⟩
  effects := fun key hkey => (h'.effects key hkey).trans (h.effects key hkey)

theorem id_of_wanted {run : Run} (h : (job.request tenantId runId []).wanted d = some run) :
    run.tenantId = tenantId ∧ run.id = runId ∧
      job.key? d tenantId runId = some (run.tenantId, run.idempotencyKey) := by
  have hkey : job.key? d tenantId runId = some (run.tenantId, run.idempotencyKey) := by
    rw [Job.key?, h, Option.map_some]
  cases job with
  | fire wf trigger =>
      cases h
      exact ⟨rfl, rfl, hkey⟩
  | resume wf => cases h

/-- A call of a job leaves the other runs alone. -/
theorem sameOtherRuns_of_step (h : op.step d.engine.policy redact db answer db')
    (hop : op.OfJob d tenantId runId job db) : SameOtherRuns runId db db' := by
  have hrefl := SameOtherRuns.refl runId db
  have hidents := idents_subset_of_step h
  have hasked := fun old => @approval_kept_of_step _ _ _ _ _ _ h old
  cases op with
  | ensureTenant | cancelRun | allowRequest => exact False.elim hop
  | stepSpan | respond | approvalFn =>
      obtain rfl := h
      exact hrefl
  | loadRun | loadRunByKey | getEffect | latestApproval | policyCheck | execute =>
      obtain ⟨-, rfl⟩ := h
      exact hrefl
  | insertRun run =>
      obtain ⟨now, hinsert⟩ := h
      unfold DB.insertRun at hinsert
      split at hinsert
      · cases hinsert
        exact { hrefl with
          idents := hidents
          runs := filter_insert_own (own_row (id_of_wanted hop).2.1) }
      · cases hinsert
        exact hrefl
  | checkpoint run events =>
      obtain ⟨-, hid, hevents⟩ := hop
      obtain ⟨now, hcommits⟩ := h
      rcases commits_map_cases hcommits with ⟨hcp, -⟩ | ⟨e, -, -, rfl⟩
      · obtain ⟨-, hlog, hruns, happrovals, heffects⟩ := DB.checkpoint_ok hcp
        refine ⟨?_, hidents, ?_, by rw [happrovals], hasked, fun _ _ => by rw [heffects]⟩
        · rw [hruns]
          refine filter_update_own fun row _ hrow => ?_
          have howner : row.id = run.id ∧ row.tenantId = run.tenantId := by simpa using hrow
          exact ⟨own_row (howner.1.trans hid), own_row (howner.1.trans hid)⟩
        · exact DB.filter_appendEvents_own hlog fun ev hmem _ _ _ => own_row (hevents ev hmem).1
      · exact hrefl
  | recordEffect tenant key owner stepId tool result =>
      obtain ⟨-, -, rfl⟩ := hop
      obtain ⟨now, rfl⟩ := h
      exact { hrefl with
        effects := fun key hkey => Table.find?_insert_of_ne _ (hkey stepId tool) }
  | createApproval tenant owner stepId approvers =>
      obtain ⟨-, rfl⟩ := hop
      obtain ⟨approvalId, now, hcommits⟩ := h
      rcases commits_map_cases hcommits with ⟨hca, -⟩ | ⟨e, -, -, rfl⟩
      · obtain ⟨-, hrows, hruns, hevents, heffects⟩ := DB.createApproval_ok hca
        refine ⟨by rw [hruns], hidents, by rw [hevents], ?_, hasked, fun _ _ => by rw [heffects]⟩
        rw [hrows]
        exact filter_append_own (own_row rfl)
      · exact hrefl
  | resolveApproval tenant approvalId approved decidedBy note =>
      obtain ⟨-, row, hrow, -, howner⟩ := hop
      obtain ⟨now, hcommits⟩ := h
      rcases commits_map_cases hcommits with ⟨hra, -⟩ | ⟨e, -, -, rfl⟩
      · obtain ⟨-, hruns, hevents, heffects⟩ := DB.resolveApproval_ok hra
        refine ⟨by rw [hruns], hidents, by rw [hevents], ?_, hasked, fun _ _ => by rw [heffects]⟩
        simp only [DB.resolveApproval, hrow] at hra
        split at hra
        · cases hra
          refine filter_update_own fun row' hmem hdecided => ?_
          have hid : row'.id = approvalId := by simpa using hdecided
          have hsame : row = row' := by
            have hfind := Table.find?_of_mem hmem
            rw [hid, hrow] at hfind
            exact Option.some.inj hfind
          exact ⟨own_row (hsame ▸ howner), own_row (hsame ▸ howner)⟩
        · cases hra
      · exact hrefl

/-- However a job on a clean engine goes, it leaves the other runs alone. -/
theorem sameOtherRuns_of_job {trace : Trail} {p : Driver (Except Exc Run × Mem)}
    (hexec : Prog.Exec (Call.faultyStep d.engine.policy redact) (job.program d tenantId runId []) db trace
      p db') :
    SameOtherRuns runId db db' := by
  have hstep : ∀ (db : DB) (call : Call) (answer : call.Res) (db' : DB),
      call.op.OfJob d tenantId runId job db → Call.faultyStep d.engine.policy redact db call answer db' →
        SameOtherRuns runId db db' := by
    rintro db call answer db' hop (h | ⟨-, rfl⟩)
    · exact sameOtherRuns_of_step h hop
    · exact SameOtherRuns.refl runId _
  exact hexec.preserves_guar (SameOtherRuns.refl runId) (fun _ _ _ => SameOtherRuns.trans) hstep
    (job_program job db)

end Frame

/-! ### What a job can tell -/

/-- The row is the run's, or the one that the trigger key leads to. -/
def RunRow.mine (key? : Option (String × String)) (runId : String) (row : RunRow) : Bool :=
  row.id = runId ∨ key? = some row.triggerKey

/-- A row of the trace without its place among the events of all runs. -/
def EventRow.unnumbered (row : EventRow) : EventRow := { row with seq := 0 }

/-- The stored trace of a run. -/
def EventLog.traceOf (runId : String) (log : EventLog) : List EventRow :=
  (log.rows.filter fun row => row.runId = runId).map EventRow.unnumbered

/-- Both databases hold the same of a run: its state and the one of its trigger key, its trace, its
approvals and its effects. -/
structure StoredAlike (key? : Option (String × String)) (runId : String) (db db' : DB) : Prop where
  runs : db.runs.rows.filter (RunRow.mine key? runId) = db'.runs.rows.filter (RunRow.mine key? runId)
  events : db.events.traceOf runId = db'.events.traceOf runId
  approvals : db.approvals.rows.filter (fun row => row.runId = runId) =
    db'.approvals.rows.filter fun row => row.runId = runId
  effects : ∀ stepId tool, db.toolEffects.find? (ledgerKey runId stepId tool) =
    db'.toolEffects.find? (ledgerKey runId stepId tool)

/-- A job of the run cannot tell the databases apart. Ids that may be drawn are taken in both or in
neither. -/
structure ServedAlike (drawn : String → Prop) (key? : Option (String × String)) (runId : String)
    (db db' : DB) : Prop extends StoredAlike key? runId db db' where
  taken : ∀ id, drawn id → (db.approvals.find? id).isSome = (db'.approvals.find? id).isSome

section Alike

variable {drawn : String → Prop} {key? : Option (String × String)} {tenantId runId : String}
  {db db' : DB} {redact : Json → Json}

theorem traceOf_append {log log' : EventLog} (ev : Event) (now : ℚ)
    (h : log.traceOf runId = log'.traceOf runId) :
    (log.append (DB.Event.row redact ev now) fun _ => rfl).traceOf runId =
      (log'.append (DB.Event.row redact ev now) fun _ => rfl).traceOf runId := by
  have happend : ∀ log : EventLog,
      (log.append (DB.Event.row redact ev now) fun _ => rfl).traceOf runId =
        log.traceOf runId ++ if ev.runId = runId then [DB.Event.row redact ev now 0] else [] := by
    intro log
    unfold EventLog.traceOf EventLog.append
    rw [List.filter_append, List.map_append]
    by_cases hown : ev.runId = runId <;> simp [hown, DB.Event.row, EventRow.unnumbered]
  rw [happend, happend, h]

theorem StoredAlike.find?_run (h : StoredAlike key? runId db db') : db.runs.find? runId = db'.runs.find? runId :=
  find?_of_own (fun _ hrow => decide_eq_true (Or.inl (of_decide_eq_true hrow))) h.runs

theorem StoredAlike.assertOwns (h : StoredAlike key? runId db db') (tenantId : String) :
    db.assertOwns tenantId runId = db'.assertOwns tenantId runId := by
  unfold DB.assertOwns
  rw [h.find?_run]

theorem StoredAlike.loadRunByKey {key : String} (h : StoredAlike (some (tenantId, key)) runId db db') :
    db.loadRunByKey tenantId key = db'.loadRunByKey tenantId key := by
  have hfind : db.runs.rows.find? (fun row => row.triggerKey = (tenantId, key)) =
      db'.runs.rows.find? fun row => row.triggerKey = (tenantId, key) := by
    refine find?_of_own (fun row hrow => ?_) h.runs
    have hkey : row.triggerKey = (tenantId, key) := of_decide_eq_true hrow
    simp [RunRow.mine, hkey]
  unfold DB.loadRunByKey
  rw [hfind]

theorem StoredAlike.latestApproval (h : StoredAlike key? runId db db') (tenantId stepId : String) :
    db.latestApproval tenantId runId stepId = db'.latestApproval tenantId runId stepId := by
  have hown : ∀ row : ApprovalRow, decide (row.runId = runId ∧ row.tenantId = tenantId ∧
      row.stepId = stepId) = true → decide (row.runId = runId) = true :=
    fun row hrow => decide_eq_true (of_decide_eq_true hrow).1
  unfold DB.latestApproval
  rw [filter_of_own (fun row _ => hown row) (fun row _ => hown row) h.approvals]

theorem ServedAlike.insertRun {run : Run} (hid : run.id = runId)
    (h : ServedAlike drawn (some (run.tenantId, run.idempotencyKey)) runId db db') (now : ℕ → ℚ) :
    (db.insertRun run now).2 = (db'.insertRun run now).2 ∧
      ServedAlike drawn (some (run.tenantId, run.idempotencyKey)) runId (db.insertRun run now).1
        (db'.insertRun run now).1 := by
  have hconflicts : db.conflicts run = db'.conflicts run := by
    refine any_of_own (fun row hrow => ?_) h.runs
    rcases of_decide_eq_true hrow with hsame | hkey
    · simp [RunRow.mine, hsame, hid]
    · simp [RunRow.mine, hkey]
  unfold DB.insertRun
  by_cases hfree : db.conflicts run = false
  · have hfree' : db'.conflicts run = false := hconflicts ▸ hfree
    rw [dif_pos hfree, dif_pos hfree']
    refine ⟨rfl, { h with runs := ?_ }⟩
    have hrows := Table.insert_of_none (r := run.newRow now) (DB.find?_of_not_conflicts hfree)
    have hrows' := Table.insert_of_none (r := run.newRow now) (DB.find?_of_not_conflicts hfree')
    rw [hrows, hrows', List.filter_append, List.filter_append, h.runs]
  · have hfree' : ¬db'.conflicts run = false := hconflicts ▸ hfree
    rw [dif_neg hfree, dif_neg hfree']
    exact ⟨rfl, h⟩

theorem ServedAlike.checkpoint (h : ServedAlike drawn key? runId db db') {run : Run} (hid : run.id = runId)
    (events : List Event) (now : ℕ → ℚ) :
    (∃ out out', db.checkpoint redact run events now = .ok out ∧
        db'.checkpoint redact run events now = .ok out' ∧ ServedAlike drawn key? runId out out') ∨
      ∃ e, db.checkpoint redact run events now = .error e ∧
        db'.checkpoint redact run events now = .error e := by
  subst hid
  have howns := h.assertOwns run.tenantId
  have hlogs := @appendEvents_alike redact (fun log log' => log.traceOf run.id = log'.traceOf run.id)
    (fun _ _ => traceOf_append) run.tenantId events (fun i => now (i + 1)) db.events db'.events h.events
  cases hresult : db.assertOwns run.tenantId run.id with
  | error e =>
      rw [hresult] at howns
      refine Or.inr ⟨e, ?_, ?_⟩
      · simp [DB.checkpoint, hresult, bind, Except.bind]
      · simp [DB.checkpoint, ← howns, bind, Except.bind]
  | ok u =>
      rw [hresult] at howns
      rcases hlogs with ⟨log, log', hlog, hlog', hevents⟩ | ⟨e, hlog, hlog'⟩
      · have hout : ∃ out, db.checkpoint redact run events now = .ok out ∧ out.events = log := by
          simp [DB.checkpoint, hresult, hlog, bind, Except.bind, pure, Except.pure]
        have hout' : ∃ out, db'.checkpoint redact run events now = .ok out ∧ out.events = log' := by
          simp [DB.checkpoint, ← howns, hlog', bind, Except.bind, pure, Except.pure]
        obtain ⟨out, hcp, rfl⟩ := hout
        obtain ⟨out', hcp', rfl⟩ := hout'
        obtain ⟨-, -, hruns, happrovals, heffects⟩ := DB.checkpoint_ok hcp
        obtain ⟨-, -, hruns', happrovals', heffects'⟩ := DB.checkpoint_ok hcp'
        refine Or.inl ⟨out, out', hcp, hcp', ⟨?_, hevents, ?_, ?_⟩, ?_⟩
        · rw [hruns, hruns']
          exact filter_update_alike _ (fun row => rfl) h.runs
        · rw [happrovals, happrovals', h.approvals]
        · rw [heffects, heffects']
          exact h.effects
        · rw [happrovals, happrovals']
          exact h.taken
      · refine Or.inr ⟨e, ?_, ?_⟩
        · simp [DB.checkpoint, hresult, hlog, bind, Except.bind]
        · simp [DB.checkpoint, ← howns, hlog', bind, Except.bind]

theorem ServedAlike.recordEffect (h : ServedAlike drawn key? runId db db') (row : EffectRow) :
    ServedAlike drawn key? runId { db with toolEffects := db.toolEffects.insert row }
      { db' with toolEffects := db'.toolEffects.insert row } := by
  refine { h with effects := fun step name => ?_ }
  by_cases hsame : row.idempotencyKey = ledgerKey runId step name
  · rw [← hsame, Table.find?_insert_self, Table.find?_insert_self, hsame, h.effects]
  · rw [Table.find?_insert_of_ne _ hsame, Table.find?_insert_of_ne _ hsame, h.effects]

theorem ServedAlike.createApproval (h : ServedAlike drawn key? runId db db') {id : String} (hid : drawn id)
    (tenantId stepId : String) (approvers : List String) (now : ℕ → ℚ) :
    (∃ out out', db.createApproval tenantId runId stepId approvers id now = .ok out ∧
        db'.createApproval tenantId runId stepId approvers id now = .ok out' ∧
        ServedAlike drawn key? runId out out') ∨
      ∃ e, db.createApproval tenantId runId stepId approvers id now = .error e ∧
        db'.createApproval tenantId runId stepId approvers id now = .error e := by
  have howns := h.assertOwns tenantId
  have htaken := h.taken id hid
  unfold DB.createApproval
  rw [← howns]
  cases db.assertOwns tenantId runId with
  | error e => exact Or.inr ⟨e, rfl, rfl⟩
  | ok u =>
      cases hnone : db.approvals.find? id with
      | some row =>
          rw [hnone, Option.isSome_some, eq_comm, Option.isSome_iff_exists] at htaken
          obtain ⟨row', hsome⟩ := htaken
          rw [hsome]
          exact Or.inr ⟨_, rfl, rfl⟩
      | none =>
          rw [hnone, Option.isSome_none, eq_comm, Option.isSome_eq_false_iff, Option.isNone_iff_eq_none] at htaken
          rw [htaken]
          refine Or.inl ⟨_, _, rfl, rfl, { h with approvals := ?_, taken := fun other hother => ?_ }⟩
          · rw [Table.insert_of_none hnone, Table.insert_of_none htaken, List.filter_append,
              List.filter_append, h.approvals]
          · by_cases hsame : id = other
            · subst hsame
              have hself := fun table : Table ApprovalRow.id => Table.find?_insert_self table
                ⟨id, runId, tenantId, stepId, .pending, approvers, none, none, now 0, none⟩
              rw [hself, hself]
              rfl
            · rw [Table.find?_insert_of_ne _ hsame, Table.find?_insert_of_ne _ hsame]
              exact h.taken other hother

theorem ServedAlike.resolveApproval (h : ServedAlike drawn key? runId db db') {approvalId : String}
    {row : ApprovalRow} (hrow : db.approvals.find? approvalId = some row) (howner : row.runId = runId)
    (tenantId : String) (approved : Bool) (decidedBy note : String) (now : ℕ → ℚ) :
    (∃ out out', db.resolveApproval tenantId approvalId approved decidedBy note now = .ok out ∧
        db'.resolveApproval tenantId approvalId approved decidedBy note now = .ok out' ∧
        ServedAlike drawn key? runId out out') ∨
      ∃ e, db.resolveApproval tenantId approvalId approved decidedBy note now = .error e ∧
        db'.resolveApproval tenantId approvalId approved decidedBy note now = .error e := by
  have hrow' := find?_of_agree h.approvals hrow howner
  unfold DB.resolveApproval
  rw [hrow, hrow']
  by_cases htenant : row.tenantId = tenantId
  · refine Or.inl ⟨_, _, if_pos htenant, if_pos htenant, { h with
      approvals := filter_update_alike _ (fun row => rfl) h.approvals
      taken := fun id hid => ?_ }⟩
    rw [Table.find?_update, Table.find?_update, Option.isSome_map, Option.isSome_map]
    exact h.taken id hid
  · exact Or.inr ⟨_, if_neg htenant, if_neg htenant⟩

/-- A job's call is answered alike in both databases and writes the same. -/
theorem servedAlike_serve {d : Deployment} {job : Job} {world : World}
    (h : ServedAlike drawn (job.key? d tenantId runId) runId db db') (hnow : world.now db = world.now db')
    (hnewId : world.newId db = world.newId db') (hdrawn : drawn (world.newId db)) (op : Op)
    (hop : op.OfJob d tenantId runId job db) :
    (op.serve d.engine.policy redact world db).1 = (op.serve d.engine.policy redact world db').1 ∧
      ServedAlike drawn (job.key? d tenantId runId) runId (op.serve d.engine.policy redact world db).2
        (op.serve d.engine.policy redact world db').2 := by
  cases op with
  | ensureTenant | cancelRun | allowRequest => exact False.elim hop
  | stepSpan | policyCheck | respond | execute | approvalFn => exact ⟨rfl, h⟩
  | insertRun run =>
      obtain ⟨-, hid, hkey⟩ := id_of_wanted hop
      rw [hkey] at h ⊢
      simp only [Op.serve, ← hnow]
      exact h.insertRun hid _
  | loadRun tenant id =>
      obtain ⟨rfl, rfl⟩ := hop
      refine ⟨?_, h⟩
      simp only [Op.serve, DB.loadRun, h.find?_run]
  | loadRunByKey tenant key =>
      have hkey : job.key? d tenantId runId = some (tenant, key) := hop
      rw [hkey] at h ⊢
      exact ⟨h.loadRunByKey, h⟩
  | checkpoint run events =>
      simp only [Op.serve, ← hnow]
      exact commit_alike () h (h.checkpoint hop.2.1 events _)
  | getEffect tenant key =>
      obtain ⟨-, stepId, name, rfl⟩ := hop
      refine ⟨?_, h⟩
      simp only [Op.serve, DB.getEffect, h.effects]
  | recordEffect tenant key owner stepId tool result =>
      simp only [Op.serve, ← hnow]
      exact ⟨trivial, h.recordEffect _⟩
  | createApproval tenant owner stepId approvers =>
      obtain ⟨-, rfl⟩ := hop
      simp only [Op.serve, ← hnow, ← hnewId]
      exact commit_alike _ h (h.createApproval hdrawn tenant stepId approvers _)
  | resolveApproval tenant id approved decidedBy note =>
      obtain ⟨-, row, hrow, -, howner⟩ := hop
      simp only [Op.serve, ← hnow]
      exact commit_alike () h (h.resolveApproval hrow howner tenant approved decidedBy note _)
  | latestApproval tenant owner stepId =>
      obtain ⟨-, rfl⟩ := hop
      exact ⟨h.latestApproval tenant stepId, h⟩

end Alike

end Bass
