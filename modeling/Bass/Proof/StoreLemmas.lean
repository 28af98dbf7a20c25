import Bass.Services
import Mathlib.Data.List.Induction

/-!
# What one store operation can do

Inversion lemmas for `Op.step`, one for each table. Later proofs use these and never look inside a
transaction.
-/

namespace Bass

open Interaction

section Commits

variable {α β : Type} {db db' : DB}

theorem commits_of_ok {value : α} {answer : Except Exc α} {committed : DB}
    (h : Commits db (.ok (committed, value)) answer db') : answer = .ok value ∧ db' = committed := h

theorem commits_of_error {e : Exc} {answer : Except Exc α}
    (h : Commits db (.error e) answer db') : answer = .error e ∧ db' = db := h

/-- A transaction that answers with a value committed; one that raised left the database alone. -/
theorem Commits.cases {transaction : Except Exc (DB × α)} {answer : Except Exc α}
    (h : Commits db transaction answer db') :
    (∃ value, transaction = .ok (db', value) ∧ answer = .ok value) ∨
      (∃ e, transaction = .error e ∧ answer = .error e ∧ db' = db) := by
  cases htx : transaction with
  | ok out =>
      obtain ⟨committed, value⟩ := out
      subst htx
      obtain ⟨rfl, rfl⟩ := commits_of_ok h
      exact Or.inl ⟨value, rfl, rfl⟩
  | error e =>
      subst htx
      obtain ⟨rfl, rfl⟩ := commits_of_error h
      exact Or.inr ⟨e, rfl, rfl, rfl⟩

/-- The same for a transaction that only changes the database. -/
theorem commits_map_cases {transaction : Except Exc DB} {value : α} {answer : Except Exc α}
    (h : Commits db ((·, value) <$> transaction) answer db') :
    (transaction = .ok db' ∧ answer = .ok value) ∨
      (∃ e, transaction = .error e ∧ answer = .error e ∧ db' = db) := by
  cases transaction with
  | ok committed =>
      obtain ⟨rfl, rfl⟩ := commits_of_ok h
      exact Or.inl ⟨rfl, rfl⟩
  | error e =>
      obtain ⟨rfl, rfl⟩ := commits_of_error h
      exact Or.inr ⟨e, rfl, rfl, rfl⟩

end Commits

namespace DB

variable {redact : Json → Json} {db db' : DB}

/-! ### Transactions that commit -/

theorem checkpoint_ok {run : Run} {events : List Event} {now : ℕ → ℚ}
    (h : db.checkpoint redact run events now = .ok db') :
    db.assertOwns run.tenantId run.id = .ok () ∧
      appendEvents redact run.tenantId events (fun i => now (i + 1)) db.events = .ok db'.events ∧
      db'.runs = db.runs.update (fun row => row.id = run.id ∧ row.tenantId = run.tenantId)
        (run.writeRow (now 0)) (run.writeRow_id (now 0)) ∧
      db'.approvals = db.approvals ∧ db'.toolEffects = db.toolEffects := by
  unfold checkpoint at h
  cases howns : db.assertOwns run.tenantId run.id with
  | error e => simp [howns, bind, Except.bind] at h
  | ok u =>
      cases hlog : appendEvents redact run.tenantId events (fun i => now (i + 1)) db.events with
      | error e => simp [howns, hlog, bind, Except.bind] at h
      | ok log =>
          simp only [howns, hlog, bind, Except.bind, pure, Except.pure, Except.ok.injEq] at h
          subst h
          exact ⟨rfl, rfl, rfl, rfl, rfl⟩

theorem owner_of_assertOwns {tenantId runId : String} {row : RunRow}
    (h : db.assertOwns tenantId runId = .ok ()) (hrow : db.runs.find? runId = some row) :
    row.tenantId = tenantId := by
  unfold assertOwns at h
  rw [hrow] at h
  by_contra hne
  simp [hne] at h

theorem cancelRun_ok {tenantId runId : String} {now : ℕ → ℚ} {canceled : Bool}
    (h : db.cancelRun tenantId runId now = .ok (db', canceled)) :
    (canceled = false ∧ db' = db) ∨
      (canceled = true ∧ (∃ row, db.runs.find? runId = some row ∧ row.tenantId = tenantId ∧
        row.status.terminal = false) ∧
        db'.runs = db.runs.update (fun row => row.id = runId ∧ row.tenantId = tenantId)
          (fun row => { row with status := .canceled, updatedAt := now 0 }) (fun _ => rfl) ∧
        db'.approvals = db.approvals ∧ db'.toolEffects = db.toolEffects) := by
  unfold cancelRun at h
  split at h
  · cases h
    exact Or.inl ⟨rfl, rfl⟩
  · rename_i row hrow
    split at h
    · rename_i htenant
      split at h
      · cases h
        exact Or.inl ⟨rfl, rfl⟩
      · rename_i hterminal
        cases h
        exact Or.inr ⟨rfl, ⟨row, hrow, htenant, by simpa using hterminal⟩, rfl, rfl, rfl⟩
    · cases h

theorem createApproval_ok {tenantId runId stepId approvalId : String} {approvers : List String}
    {now : ℕ → ℚ}
    (h : db.createApproval tenantId runId stepId approvers approvalId now = .ok db') :
    db.approvals.find? approvalId = none ∧
      db'.approvals.rows = db.approvals.rows ++
        [⟨approvalId, runId, tenantId, stepId, .pending, approvers, none, none, now 0, none⟩] ∧
      db'.runs = db.runs ∧ db'.events = db.events ∧ db'.toolEffects = db.toolEffects := by
  unfold createApproval at h
  cases howns : db.assertOwns tenantId runId with
  | error e => simp [howns, bind, Except.bind] at h
  | ok u =>
      simp only [howns, bind, Except.bind] at h
      split at h
      · cases h
      · rename_i hnone
        simp only [pure, Except.pure, Except.ok.injEq] at h
        subst h
        exact ⟨hnone, Table.insert_of_none hnone, rfl, rfl, rfl⟩

theorem resolveApproval_ok {tenantId approvalId decidedBy note : String} {approved : Bool}
    {now : ℕ → ℚ}
    (h : db.resolveApproval tenantId approvalId approved decidedBy note now = .ok db') :
    (∃ f : ApprovalRow → ApprovalRow, (∀ row, (f row).id = row.id ∧ (f row).runId = row.runId ∧
        (f row).tenantId = row.tenantId ∧ (f row).stepId = row.stepId ∧
        (f row).requestedAt = row.requestedAt) ∧ db'.approvals.rows = db.approvals.rows.map f) ∧
      db'.runs = db.runs ∧ db'.events = db.events ∧ db'.toolEffects = db.toolEffects := by
  unfold resolveApproval at h
  split at h
  · cases h
  · split at h
    · cases h
      refine ⟨⟨_, fun row => ?_, rfl⟩, rfl, rfl, rfl⟩
      by_cases hid : row.id = approvalId <;> simp [hid]
    · cases h

/-! ### The runs table -/

/-- A row of `runs` after a checkpoint of a run the tenant owns. -/
theorem find?_checkpoint {run : Run} {events : List Event} {now : ℕ → ℚ} {runId : String}
    {row : RunRow} (h : db.checkpoint redact run events now = .ok db')
    (hrow : db.runs.find? runId = some row) :
    db'.runs.find? runId = some (if runId = run.id then run.writeRow (now 0) row else row) := by
  obtain ⟨howns, -, hruns, -⟩ := checkpoint_ok h
  have hid : row.id = runId := Table.key_of_find? hrow
  rw [hruns, Table.find?_update, hrow, Option.map_some]
  by_cases heq : runId = run.id
  · subst heq
    have htenant := owner_of_assertOwns howns hrow
    simp [hid, htenant]
  · simp [hid, heq]

theorem find?_insertRun {run : Run} {now : ℕ → ℚ} {inserted : Bool} {runId : String}
    {row : RunRow} (h : (db', inserted) = db.insertRun run now)
    (hrow : db.runs.find? runId = some row) : db'.runs.find? runId = some row := by
  unfold insertRun at h
  split at h <;> cases h
  · exact Table.find?_insert_of_some _ hrow
  · exact hrow

end DB

/-- What one call can do to the row of a run: leave it, overwrite it by a checkpoint of that run, or
cancel it when it is not terminal. -/
theorem runRow_of_step {policy : PolicyEngine} {redact : Json → Json} {db db' : DB} {op : Op}
    {answer : op.Res} {runId : String} {row : RunRow} (h : op.step policy redact db answer db')
    (hrow : db.runs.find? runId = some row) :
    db'.runs.find? runId = some row ∨
      (∃ run events now, op = .checkpoint run events ∧ run.id = runId ∧
        row.tenantId = run.tenantId ∧ db'.runs.find? runId = some (run.writeRow now row)) ∨
      (∃ tenantId now, op = .cancelRun tenantId runId ∧ row.status.terminal = false ∧
        db'.runs.find? runId = some { row with status := .canceled, updatedAt := now }) := by
  cases op with
  | checkpoint run events =>
      obtain ⟨now, hcommits⟩ := h
      rcases commits_map_cases hcommits with ⟨hcp, -⟩ | ⟨e, -, -, rfl⟩
      · have hfind := DB.find?_checkpoint hcp hrow
        by_cases hid : runId = run.id
        · subst hid
          have htenant := DB.owner_of_assertOwns (DB.checkpoint_ok hcp).1 hrow
          rw [if_pos rfl] at hfind
          exact Or.inr (Or.inl ⟨run, events, now 0, rfl, rfl, htenant, hfind⟩)
        · rw [if_neg hid] at hfind
          exact Or.inl hfind
      · exact Or.inl hrow
  | cancelRun tenantId target =>
      obtain ⟨now, hcommits⟩ := h
      rcases hcommits.cases with ⟨canceled, htx, -⟩ | ⟨e, -, -, rfl⟩
      · rcases DB.cancelRun_ok htx with ⟨-, rfl⟩ | ⟨-, ⟨row', hrow', htenant, hterminal⟩, hruns, -⟩
        · exact Or.inl hrow
        · rw [hruns, Table.find?_update, hrow, Option.map_some]
          by_cases hid : runId = target
          · subst hid
            obtain rfl : row = row' := Option.some.inj (hrow.symm.trans hrow')
            refine Or.inr (Or.inr ⟨tenantId, now 0, rfl, hterminal, ?_⟩)
            have hkey : row.id = runId := Table.key_of_find? hrow
            simp [hkey, htenant]
          · have hkey : row.id = runId := Table.key_of_find? hrow
            left
            simp [hkey, hid]
      · exact Or.inl hrow
  | insertRun run =>
      obtain ⟨now, hinsert⟩ := h
      exact Or.inl (DB.find?_insertRun hinsert hrow)
  | ensureTenant tenantId name settings =>
      obtain ⟨now, rfl⟩ := h
      exact Or.inl hrow
  | recordEffect tenantId key runId' stepId tool result =>
      obtain ⟨now, rfl⟩ := h
      exact Or.inl hrow
  | createApproval tenantId runId' stepId approvers =>
      obtain ⟨approvalId, now, hcommits⟩ := h
      rcases commits_map_cases hcommits with ⟨hca, -⟩ | ⟨e, -, -, rfl⟩
      · rw [(DB.createApproval_ok hca).2.2.1]
        exact Or.inl hrow
      · exact Or.inl hrow
  | resolveApproval tenantId approvalId approved decidedBy note =>
      obtain ⟨now, hcommits⟩ := h
      rcases commits_map_cases hcommits with ⟨hra, -⟩ | ⟨e, -, -, rfl⟩
      · rw [(DB.resolveApproval_ok hra).2.1]
        exact Or.inl hrow
      · exact Or.inl hrow
  | loadRun tenantId runId' | loadRunByKey tenantId key | getEffect tenantId key
  | latestApproval tenantId runId' stepId | policyCheck agent tool args context | execute caller tool args =>
      obtain ⟨-, rfl⟩ := h
      exact Or.inl hrow
  | allowRequest tenantId | stepSpan step | respond agent task scratch | approvalFn run step tool args =>
      obtain rfl := h
      exact Or.inl hrow

/-! ### The event log -/

/-- The log holds the event, as a checkpoint writes it. -/
def Stored (redact : Json → Json) (db : DB) (ev : Event) : Prop :=
  ∃ now seq, DB.Event.row redact ev now seq ∈ db.events.rows

namespace DB

theorem appendEvents_ok {redact : Json → Json} {tenantId : String} {events : List Event}
    {now : ℕ → ℚ} {log log' : EventLog}
    (h : appendEvents redact tenantId events now log = .ok log') :
    log.rows <+: log'.rows ∧
      ∀ ev ∈ events, ∃ now seq, Event.row redact ev now seq ∈ log'.rows := by
  induction events generalizing now log with
  | nil =>
      cases h
      exact ⟨List.prefix_rfl, fun _ hmem => absurd hmem List.not_mem_nil⟩
  | cons ev rest ih =>
      rw [appendEvents] at h
      split at h
      · obtain ⟨hgrown, hstored⟩ := ih h
        refine ⟨(List.prefix_append _ _).trans hgrown, fun ev' hmem => ?_⟩
        rcases List.mem_cons.mp hmem with rfl | hrest
        · exact ⟨now 0, log.last + 1, hgrown.subset (List.mem_append_right _ List.mem_cons_self)⟩
        · exact hstored ev' hrest
      · cases h

theorem isolation_of_appendEvents {redact : Json → Json} {tenantId : String} {events : List Event}
    {now : ℕ → ℚ} {log : EventLog} {e : Exc}
    (h : appendEvents redact tenantId events now log = .error e) :
    ∃ message, e = tenantIsolation message := by
  induction events generalizing now log with
  | nil => cases h
  | cons ev rest ih =>
      rw [appendEvents] at h
      split at h
      · exact ih h
      · cases h
        exact ⟨_, rfl⟩

end DB

/-- Events are never removed. -/
theorem events_of_step {policy : PolicyEngine} {redact : Json → Json} {db db' : DB} {op : Op}
    {answer : op.Res} (h : op.step policy redact db answer db') :
    db.events.rows <+: db'.events.rows := by
  cases op with
  | checkpoint run events =>
      obtain ⟨now, hcommits⟩ := h
      rcases commits_map_cases hcommits with ⟨hcp, -⟩ | ⟨e, -, -, rfl⟩
      · exact (DB.appendEvents_ok (DB.checkpoint_ok hcp).2.1).1
      · exact List.prefix_rfl
  | cancelRun tenantId target =>
      obtain ⟨now, hcommits⟩ := h
      rcases hcommits.cases with ⟨canceled, htx, -⟩ | ⟨e, -, -, rfl⟩
      · unfold DB.cancelRun at htx
        split at htx
        · cases htx
          exact List.prefix_rfl
        · split at htx
          · split at htx
            · cases htx
              exact List.prefix_rfl
            · cases htx
              exact List.prefix_append _ _
          · cases htx
      · exact List.prefix_rfl
  | createApproval tenantId runId stepId approvers =>
      obtain ⟨approvalId, now, hcommits⟩ := h
      rcases commits_map_cases hcommits with ⟨hca, -⟩ | ⟨e, -, -, rfl⟩
      · exact (DB.createApproval_ok hca).2.2.2.1 ▸ List.prefix_rfl
      · exact List.prefix_rfl
  | resolveApproval tenantId approvalId approved decidedBy note =>
      obtain ⟨now, hcommits⟩ := h
      rcases commits_map_cases hcommits with ⟨hra, -⟩ | ⟨e, -, -, rfl⟩
      · exact (DB.resolveApproval_ok hra).2.2.1 ▸ List.prefix_rfl
      · exact List.prefix_rfl
  | insertRun run =>
      obtain ⟨now, hinsert⟩ := h
      unfold DB.insertRun at hinsert
      split at hinsert <;> cases hinsert <;> exact List.prefix_rfl
  | ensureTenant | recordEffect =>
      obtain ⟨now, rfl⟩ := h
      exact List.prefix_rfl
  | loadRun | loadRunByKey | getEffect | latestApproval | policyCheck | execute =>
      obtain ⟨-, rfl⟩ := h
      exact List.prefix_rfl
  | allowRequest | stepSpan | respond | approvalFn =>
      obtain rfl := h
      exact List.prefix_rfl

theorem Stored.mono {redact : Json → Json} {db db' : DB} {ev : Event} (h : Stored redact db ev)
    (hgrow : db.events.rows <+: db'.events.rows) : Stored redact db' ev := by
  obtain ⟨now, seq, hmem⟩ := h
  exact ⟨now, seq, hgrow.subset hmem⟩

/-- A checkpoint that is accepted stores its events. -/
theorem stored_of_checkpoint {policy : PolicyEngine} {redact : Json → Json} {db db' : DB}
    {run : Run} {events : List Event}
    (h : (Op.checkpoint run events).step policy redact db (.ok ()) db') {ev : Event}
    (hmem : ev ∈ events) : Stored redact db' ev := by
  obtain ⟨now, hcommits⟩ := h
  rcases commits_map_cases hcommits with ⟨hcp, -⟩ | ⟨e, -, hanswer, -⟩
  · exact (DB.appendEvents_ok (DB.checkpoint_ok hcp).2.1).2 ev hmem
  · cases hanswer

theorem isolation_of_assertOwns {db : DB} {tenantId runId : String} {e : Exc}
    (h : db.assertOwns tenantId runId = .error e) : ∃ message, e = DB.tenantIsolation message := by
  unfold DB.assertOwns at h
  split at h
  · split at h <;> cases h
    exact ⟨_, rfl⟩
  · cases h

/-- A checkpoint is only rejected for a foreign tenant. -/
theorem isolation_of_checkpoint {policy : PolicyEngine} {redact : Json → Json} {db db' : DB} {run : Run}
    {events : List Event} {e : Exc}
    (h : (Op.checkpoint run events).step policy redact db (.error e) db') :
    ∃ message, e = DB.tenantIsolation message := by
  obtain ⟨now, hcommits⟩ := h
  rcases commits_map_cases hcommits with ⟨-, hanswer⟩ | ⟨e', herror, hanswer, -⟩
  · cases hanswer
  · cases hanswer
    rw [DB.checkpoint] at herror
    cases howns : db.assertOwns run.tenantId run.id with
    | error e' =>
        simp only [howns, bind, Except.bind, Except.error.injEq] at herror
        subst herror
        exact isolation_of_assertOwns howns
    | ok value =>
        cases hlog : DB.appendEvents redact run.tenantId events (fun i => now (i + 1)) db.events with
        | error e' =>
            simp only [howns, hlog, bind, Except.bind, Except.error.injEq] at herror
            subst herror
            exact DB.isolation_of_appendEvents hlog
        | ok log => simp [howns, hlog, bind, Except.bind, pure, Except.pure] at herror

/-- A checkpoint that is accepted overwrites the row of its run, if there is one. -/
theorem row_of_checkpoint {policy : PolicyEngine} {redact : Json → Json} {db db' : DB} {run : Run}
    {events : List Event} (h : (Op.checkpoint run events).step policy redact db (.ok ()) db')
    {row : RunRow} (hrow : db.runs.find? run.id = some row) :
    ∃ now, db'.runs.find? run.id = some (run.writeRow now row) := by
  obtain ⟨now, hcommits⟩ := h
  rcases commits_map_cases hcommits with ⟨hcp, -⟩ | ⟨e, -, hanswer, -⟩
  · have hfind := DB.find?_checkpoint hcp hrow
    rw [if_pos rfl] at hfind
    exact ⟨now 0, hfind⟩
  · cases hanswer

/-- A stored run stays stored. -/
theorem isSome_run_of_step {policy : PolicyEngine} {redact : Json → Json} {db db' : DB} {op : Op}
    {answer : op.Res} {runId : String} (h : op.step policy redact db answer db')
    (hrow : (db.runs.find? runId).isSome) : (db'.runs.find? runId).isSome := by
  obtain ⟨row, hrow⟩ := Option.isSome_iff_exists.mp hrow
  rcases runRow_of_step h hrow with hsame | ⟨_, _, _, -, -, -, hnew⟩ | ⟨_, _, -, -, hnew⟩
  · rw [hsame]
    rfl
  · rw [hnew]
    rfl
  · rw [hnew]
    rfl

/-! ### The ledger and the approvals -/

/-- Only `record_effect` writes to the ledger, and it never overwrites a row. -/
theorem effects_of_step {policy : PolicyEngine} {redact : Json → Json} {db db' : DB} {op : Op}
    {answer : op.Res} (h : op.step policy redact db answer db') :
    db'.toolEffects = db.toolEffects ∨
      ∃ tenantId key runId stepId tool result now,
        op = .recordEffect tenantId key runId stepId tool result ∧
          db'.toolEffects = db.toolEffects.insert
            ⟨key, runId, tenantId, some stepId, tool, result, now⟩ := by
  cases op with
  | checkpoint run events =>
      obtain ⟨now, hcommits⟩ := h
      rcases commits_map_cases hcommits with ⟨hcp, -⟩ | ⟨e, -, -, rfl⟩
      · exact Or.inl (DB.checkpoint_ok hcp).2.2.2.2
      · exact Or.inl rfl
  | cancelRun tenantId target =>
      obtain ⟨now, hcommits⟩ := h
      rcases hcommits.cases with ⟨canceled, htx, -⟩ | ⟨e, -, -, rfl⟩
      · rcases DB.cancelRun_ok htx with ⟨-, rfl⟩ | ⟨-, -, -, -, heffects⟩
        · exact Or.inl rfl
        · exact Or.inl heffects
      · exact Or.inl rfl
  | createApproval tenantId runId stepId approvers =>
      obtain ⟨approvalId, now, hcommits⟩ := h
      rcases commits_map_cases hcommits with ⟨hca, -⟩ | ⟨e, -, -, rfl⟩
      · exact Or.inl (DB.createApproval_ok hca).2.2.2.2
      · exact Or.inl rfl
  | resolveApproval tenantId approvalId approved decidedBy note =>
      obtain ⟨now, hcommits⟩ := h
      rcases commits_map_cases hcommits with ⟨hra, -⟩ | ⟨e, -, -, rfl⟩
      · exact Or.inl (DB.resolveApproval_ok hra).2.2.2
      · exact Or.inl rfl
  | insertRun run =>
      obtain ⟨now, hinsert⟩ := h
      unfold DB.insertRun at hinsert
      split at hinsert <;> cases hinsert <;> exact Or.inl rfl
  | ensureTenant =>
      obtain ⟨now, rfl⟩ := h
      exact Or.inl rfl
  | recordEffect tenantId key runId stepId tool result =>
      obtain ⟨now, rfl⟩ := h
      exact Or.inr ⟨tenantId, key, runId, stepId, tool, result, now 0, rfl, rfl⟩
  | loadRun | loadRunByKey | getEffect | latestApproval | policyCheck | execute =>
      obtain ⟨-, rfl⟩ := h
      exact Or.inl rfl
  | allowRequest | stepSpan | respond | approvalFn =>
      obtain rfl := h
      exact Or.inl rfl

/-- A row of the ledger stays as it is. -/
theorem effect_of_step {policy : PolicyEngine} {redact : Json → Json} {db db' : DB} {op : Op}
    {answer : op.Res} {key : String} {row : EffectRow} (h : op.step policy redact db answer db')
    (hrow : db.toolEffects.find? key = some row) : db'.toolEffects.find? key = some row := by
  rcases effects_of_step h with hsame | ⟨_, _, _, _, _, _, _, -, hinsert⟩
  · rwa [hsame]
  · rw [hinsert]
    exact Table.find?_insert_of_some _ hrow

/-! ### Approvals -/

/-- Who an approval is about. -/
def ApprovalRow.subject (row : ApprovalRow) : String × String × String × String :=
  (row.id, row.runId, row.tenantId, row.stepId)

/-- A change that a decision makes to an approval: it is about the same thing as before. -/
def Decides (f : ApprovalRow → ApprovalRow) : Prop :=
  ∀ row, (f row).id = row.id ∧ (f row).runId = row.runId ∧ (f row).tenantId = row.tenantId ∧
    (f row).stepId = row.stepId ∧ (f row).requestedAt = row.requestedAt

/-- A call leaves the approvals alone, adds the one it requests, or decides one. -/
theorem approvals_cases {policy : PolicyEngine} {redact : Json → Json} {db db' : DB} {op : Op}
    {answer : op.Res} (h : op.step policy redact db answer db') :
    db'.approvals.rows = db.approvals.rows ∨
    (∃ tenantId runId stepId approvers approvalId now,
      (⟨op, answer⟩ : (op : Op) × op.Res) =
        ⟨.createApproval tenantId runId stepId approvers, .ok approvalId⟩ ∧
      db'.approvals.rows = db.approvals.rows ++
        [⟨approvalId, runId, tenantId, stepId, .pending, approvers, none, none, now, none⟩]) ∨
    ∃ tenantId approvalId approved decidedBy note now,
      op = .resolveApproval tenantId approvalId approved decidedBy note ∧
        db.resolveApproval tenantId approvalId approved decidedBy note now = .ok db' := by
  cases op with
  | checkpoint run events =>
      obtain ⟨now, hcommits⟩ := h
      rcases commits_map_cases hcommits with ⟨hcp, -⟩ | ⟨e, -, -, rfl⟩
      · exact Or.inl (by rw [(DB.checkpoint_ok hcp).2.2.2.1])
      · exact Or.inl rfl
  | cancelRun tenantId target =>
      obtain ⟨now, hcommits⟩ := h
      rcases hcommits.cases with ⟨canceled, htx, -⟩ | ⟨e, -, -, rfl⟩
      · rcases DB.cancelRun_ok htx with ⟨-, rfl⟩ | ⟨-, -, -, happrovals, -⟩
        · exact Or.inl rfl
        · exact Or.inl (by rw [happrovals])
      · exact Or.inl rfl
  | createApproval tenantId runId stepId approvers =>
      obtain ⟨approvalId, now, hcommits⟩ := h
      rcases commits_map_cases hcommits with ⟨hca, rfl⟩ | ⟨e, -, -, rfl⟩
      · exact Or.inr (Or.inl ⟨tenantId, runId, stepId, approvers, approvalId, now 0, rfl,
          (DB.createApproval_ok hca).2.1⟩)
      · exact Or.inl rfl
  | resolveApproval tenantId approvalId approved decidedBy note =>
      obtain ⟨now, hcommits⟩ := h
      rcases commits_map_cases hcommits with ⟨hra, -⟩ | ⟨e, -, -, rfl⟩
      · exact Or.inr (Or.inr ⟨_, _, _, _, _, now, rfl, hra⟩)
      · exact Or.inl rfl
  | insertRun run =>
      obtain ⟨now, hinsert⟩ := h
      unfold DB.insertRun at hinsert
      split at hinsert <;> cases hinsert <;> exact Or.inl rfl
  | ensureTenant | recordEffect =>
      obtain ⟨now, rfl⟩ := h
      exact Or.inl rfl
  | loadRun | loadRunByKey | getEffect | latestApproval | policyCheck | execute =>
      obtain ⟨-, rfl⟩ := h
      exact Or.inl rfl
  | allowRequest | stepSpan | respond | approvalFn =>
      obtain rfl := h
      exact Or.inl rfl

/-- No call takes an approval away or makes it about something else. -/
theorem approval_kept_of_step {policy : PolicyEngine} {redact : Json → Json} {db db' : DB} {op : Op}
    {answer : op.Res} (h : op.step policy redact db answer db') {old : ApprovalRow}
    (hold : old ∈ db.approvals.rows) : ∃ row ∈ db'.approvals.rows, row.subject = old.subject := by
  rcases approvals_cases h with hsame | ⟨_, _, _, _, _, _, -, hadded⟩ | ⟨_, _, _, _, _, _, -, hra⟩
  · exact ⟨old, hsame ▸ hold, rfl⟩
  · exact ⟨old, hadded ▸ List.mem_append_left _ hold, rfl⟩
  · obtain ⟨f, hf, hdecided⟩ := (DB.resolveApproval_ok hra).1
    obtain ⟨hid, hrun, htenant, hstep, -⟩ := hf old
    exact ⟨f old, hdecided ▸ List.mem_map_of_mem hold,
      by rw [ApprovalRow.subject, ApprovalRow.subject, hid, hrun, htenant, hstep]⟩

/-- The approvals of a run only change by being resolved, unless one is requested for it. -/
theorem approvals_of_step {policy : PolicyEngine} {redact : Json → Json} {db db' : DB} {op : Op}
    {answer : op.Res} {runId : String} (h : op.step policy redact db answer db')
    (hop : ∀ tenantId stepId approvers, op ≠ .createApproval tenantId runId stepId approvers) :
    (db'.approvals.rows.filter (fun row => row.runId = runId)).map ApprovalRow.subject =
      (db.approvals.rows.filter (fun row => row.runId = runId)).map ApprovalRow.subject := by
  rcases approvals_cases h with hsame | ⟨tenantId, owner, stepId, approvers, _, _, heq, hadded⟩ |
    ⟨_, _, _, _, _, _, -, hra⟩
  · rw [hsame]
  · cases heq
    have howner : owner ≠ runId := fun heq => hop tenantId stepId approvers (by rw [heq])
    rw [hadded, List.filter_append]
    simp [howner]
  · obtain ⟨f, hf, hdecided⟩ := (DB.resolveApproval_ok hra).1
    have howner : (fun row => decide (row.runId = runId)) ∘ f =
        fun row : ApprovalRow => decide (row.runId = runId) := by
      funext row
      simp [(hf row).2.1]
    have hsubject : ApprovalRow.subject ∘ f = ApprovalRow.subject := by
      funext row
      obtain ⟨hid, hrun, htenant, hstep, -⟩ := hf row
      simp [ApprovalRow.subject, hid, hrun, htenant, hstep]
    rw [hdecided, List.filter_map, List.map_map, howner, hsubject]

/-- An approval that has just been created is stored for its step. -/
theorem find?_createApproval {policy : PolicyEngine} {redact : Json → Json} {db db' : DB}
    {tenantId runId stepId approvalId : String} {approvers : List String}
    (h : (Op.createApproval tenantId runId stepId approvers).step policy redact db (.ok approvalId) db') :
    ∃ row, db'.approvals.find? approvalId = some row ∧ row.tenantId = tenantId ∧ row.runId = runId ∧
      row.stepId = stepId := by
  obtain ⟨drawn, now, hcommits⟩ := h
  rcases commits_map_cases hcommits with ⟨hcreated, heq⟩ | ⟨e, -, heq, -⟩
  · obtain rfl := Except.ok.inj heq
    obtain ⟨hfree, hrows, -⟩ := DB.createApproval_ok hcreated
    refine ⟨⟨approvalId, runId, tenantId, stepId, .pending, approvers, none, none, now 0, none⟩, ?_, rfl,
      rfl, rfl⟩
    rw [Table.find?] at hfree ⊢
    rw [hrows, List.find?_append, hfree]
    simp
  · cases heq

/-- The id that `latest_approval` returns. -/
def DB.latestId (db : DB) (tenantId runId stepId : String) : Option String :=
  (db.latestApproval tenantId runId stepId).map Prod.fst

/-- The approval that is created next becomes the latest one unless it was requested before that. -/
theorem latest_concat (rows : List ApprovalRow) (row : ApprovalRow) :
    DB.latest (rows ++ [row]) =
      if (DB.latest rows).all (fun best => best.requestedAt ≤ row.requestedAt) then some row
      else DB.latest rows := by
  rw [DB.latest, List.foldl_concat]
  cases hlatest : DB.latest rows with
  | none =>
      unfold DB.latest at hlatest
      rw [hlatest]
      rfl
  | some best =>
      unfold DB.latest at hlatest
      rw [hlatest]
      by_cases hle : best.requestedAt ≤ row.requestedAt <;> simp [hle]

theorem latest_map {f : ApprovalRow → ApprovalRow} (hf : Decides f) (rows : List ApprovalRow) :
    DB.latest (rows.map f) = (DB.latest rows).map f := by
  induction rows using List.reverseRecOn with
  | nil => rfl
  | append_singleton rows row ih =>
      have htime : (f row).requestedAt = row.requestedAt := (hf row).2.2.2.2
      have hall : ((DB.latest rows).map f).all (fun best => decide (best.requestedAt ≤ (f row).requestedAt)) =
          (DB.latest rows).all fun best => decide (best.requestedAt ≤ row.requestedAt) := by
        cases DB.latest rows with
        | none => rfl
        | some best => simp only [Option.map_some, Option.all_some, htime, (hf best).2.2.2.2]
      rw [List.map_append, List.map_singleton, latest_concat, latest_concat, ih, hall]
      split <;> rfl

theorem latest_cons (row : ApprovalRow) (rows : List ApprovalRow) : DB.latest (row :: rows) ≠ none := by
  induction rows using List.reverseRecOn with
  | nil => exact Option.some_ne_none row
  | append_singleton rows next ih =>
      rw [← List.cons_append, latest_concat]
      split
      · exact Option.some_ne_none next
      · exact ih

/-- The latest approval is one of the rows. -/
theorem mem_of_latest {rows : List ApprovalRow} {row : ApprovalRow} (h : DB.latest rows = some row) :
    row ∈ rows := by
  induction rows using List.reverseRecOn generalizing row with
  | nil => cases h
  | append_singleton rows r ih =>
      rw [latest_concat] at h
      split at h
      · cases h
        exact List.mem_append_right _ List.mem_cons_self
      · exact List.mem_append_left _ (ih h)

/-- What is looked up is an approval of the run and the step. -/
theorem row_of_latestApproval {db : DB} {tenantId runId stepId approvalId : String} {status : ApprovalStatus}
    (h : db.latestApproval tenantId runId stepId = some (approvalId, status)) :
    ∃ row ∈ db.approvals.rows, row.id = approvalId ∧ row.status = status ∧ row.tenantId = tenantId ∧
      row.runId = runId ∧ row.stepId = stepId := by
  obtain ⟨row, hrow, heq⟩ := Option.map_eq_some_iff.mp h
  cases heq
  obtain ⟨hmem, howner⟩ := List.mem_filter.mp (mem_of_latest hrow)
  obtain ⟨hrun, htenant, hstep⟩ := of_decide_eq_true howner
  exact ⟨row, hmem, rfl, rfl, htenant, hrun, hstep⟩

theorem latestId_eq (db : DB) (tenantId runId stepId : String) :
    db.latestId tenantId runId stepId = (DB.latest (db.approvals.rows.filter fun row =>
      row.runId = runId ∧ row.tenantId = tenantId ∧ row.stepId = stepId)).map ApprovalRow.id := by
  rw [DB.latestId, DB.latestApproval, Option.map_map]
  rfl

/-- The latest approval of a step stays the latest until another one is requested for it. -/
theorem latestId_of_step {policy : PolicyEngine} {redact : Json → Json} {db db' : DB} {op : Op}
    {answer : op.Res} (h : op.step policy redact db answer db') (tenantId runId stepId : String) :
    db'.latestId tenantId runId stepId = db.latestId tenantId runId stepId ∨
      ∃ approvers approvalId, (⟨op, answer⟩ : (op : Op) × op.Res) =
        ⟨.createApproval tenantId runId stepId approvers, .ok approvalId⟩ := by
  rcases approvals_cases h with hsame | ⟨tenant, owner, step, approvers, approvalId, now, heq, hadded⟩ |
    ⟨_, _, _, _, _, _, -, hra⟩
  · exact Or.inl (by rw [latestId_eq, latestId_eq, hsame])
  · by_cases hmatch : owner = runId ∧ tenant = tenantId ∧ step = stepId
    · obtain ⟨rfl, rfl, rfl⟩ := hmatch
      exact Or.inr ⟨approvers, approvalId, heq⟩
    · refine Or.inl ?_
      rw [latestId_eq, latestId_eq, hadded, List.filter_append]
      simp [hmatch]
  · refine Or.inl ?_
    obtain ⟨f, hf, hdecided⟩ := (DB.resolveApproval_ok hra).1
    have hkeep : (fun row => decide (row.runId = runId ∧ row.tenantId = tenantId ∧ row.stepId = stepId)) ∘ f =
        fun row : ApprovalRow =>
          decide (row.runId = runId ∧ row.tenantId = tenantId ∧ row.stepId = stepId) := by
      funext row
      obtain ⟨-, hrun, htenant, hstep, -⟩ := hf row
      simp [hrun, htenant, hstep]
    rw [latestId_eq, latestId_eq, hdecided, List.filter_map, hkeep, latest_map hf, Option.map_map]
    congr 1
    funext row
    exact (hf row).1

/-- The first approval that is requested for a step is its latest. -/
theorem latestId_of_createApproval {policy : PolicyEngine} {redact : Json → Json} {db db' : DB}
    {tenantId runId stepId approvalId : String} {approvers : List String}
    (h : (Op.createApproval tenantId runId stepId approvers).step policy redact db (.ok approvalId) db')
    (hnone : db.latestId tenantId runId stepId = none) :
    db'.latestId tenantId runId stepId = some approvalId := by
  obtain ⟨newId, now, hcommits⟩ := h
  rcases commits_map_cases hcommits with ⟨hca, hanswer⟩ | ⟨e, -, hanswer, -⟩
  · cases hanswer
    rw [latestId_eq, Option.map_eq_none_iff] at hnone
    have hempty : db.approvals.rows.filter (fun row =>
        row.runId = runId ∧ row.tenantId = tenantId ∧ row.stepId = stepId) = [] := by
      cases hrows : db.approvals.rows.filter (fun row =>
          row.runId = runId ∧ row.tenantId = tenantId ∧ row.stepId = stepId) with
      | nil => rfl
      | cons row rows =>
          rw [hrows] at hnone
          exact absurd hnone (latest_cons row rows)
    rw [latestId_eq, (DB.createApproval_ok hca).2.1, List.filter_append, hempty]
    simp [DB.latest]
  · cases hanswer

/-! ### What a run has been billed -/

/-- The cost of the events of one run. -/
def billedEvents (runId : String) (events : List Event) : ℚ :=
  ((events.filter fun ev => ev.runId = runId).map Event.costUsd).sum

/-- The cost of the stored events of one run. -/
def DB.billed (db : DB) (runId : String) : ℚ :=
  ((db.events.rows.filter fun row => row.runId = runId).map EventRow.costUsd).sum

@[simp] theorem billedEvents_nil (runId : String) : billedEvents runId [] = 0 := rfl

@[simp] theorem billedEvents_append (runId : String) (events events' : List Event) :
    billedEvents runId (events ++ events') =
      billedEvents runId events + billedEvents runId events' := by
  simp [billedEvents]

theorem billedEvents_singleton (runId : String) (ev : Event) :
    billedEvents runId [ev] = if ev.runId = runId then ev.costUsd else 0 := by
  by_cases h : ev.runId = runId <;> simp [billedEvents, h]

theorem billedEvents_of_free {runId : String} {events : List Event}
    (h : ∀ ev ∈ events, ev.costUsd = 0) : billedEvents runId events = 0 := by
  induction events with
  | nil => rfl
  | cons ev events ih =>
      rw [← List.singleton_append, billedEvents_append, billedEvents_singleton,
        ih fun ev' hmem => h ev' (List.mem_cons_of_mem _ hmem), h ev List.mem_cons_self]
      simp

theorem billed_appendEvents {redact : Json → Json} {tenantId runId : String} {events : List Event}
    {now : ℕ → ℚ} {log log' : EventLog}
    (h : DB.appendEvents redact tenantId events now log = .ok log') :
    ((log'.rows.filter fun row => row.runId = runId).map EventRow.costUsd).sum =
      ((log.rows.filter fun row => row.runId = runId).map EventRow.costUsd).sum +
        billedEvents runId events := by
  induction events generalizing now log with
  | nil =>
      cases h
      simp
  | cons ev rest ih =>
      rw [DB.appendEvents] at h
      split at h
      · rw [ih h, ← List.singleton_append, billedEvents_append, billedEvents_singleton, ← add_assoc]
        congr 1
        by_cases hrun : ev.runId = runId <;>
          simp [EventLog.append, DB.Event.row, List.filter_append, hrun]
      · cases h

/-- A checkpoint that is accepted bills its events. -/
theorem billed_of_checkpoint {policy : PolicyEngine} {redact : Json → Json} {db db' : DB} {run : Run}
    {events : List Event} (h : (Op.checkpoint run events).step policy redact db (.ok ()) db')
    (runId : String) : db'.billed runId = db.billed runId + billedEvents runId events := by
  obtain ⟨now, hcommits⟩ := h
  rcases commits_map_cases hcommits with ⟨hcp, -⟩ | ⟨e, -, hanswer, -⟩
  · exact billed_appendEvents (DB.checkpoint_ok hcp).2.1
  · cases hanswer

/-- Only a checkpoint adds to what a run has been billed. -/
theorem billed_of_step {policy : PolicyEngine} {redact : Json → Json} {db db' : DB} {op : Op}
    {answer : op.Res} (h : op.step policy redact db answer db') (runId : String) :
    db'.billed runId = db.billed runId ∨
      ∃ run events, (⟨op, answer⟩ : (op : Op) × op.Res) = ⟨.checkpoint run events, .ok ()⟩ ∧
        db'.billed runId = db.billed runId + billedEvents runId events := by
  cases op with
  | checkpoint run events =>
      obtain ⟨now, hcommits⟩ := h
      rcases commits_map_cases hcommits with ⟨hcp, rfl⟩ | ⟨e, -, -, rfl⟩
      · exact Or.inr ⟨run, events, rfl, billed_appendEvents (DB.checkpoint_ok hcp).2.1⟩
      · exact Or.inl rfl
  | cancelRun tenantId target =>
      obtain ⟨now, hcommits⟩ := h
      rcases hcommits.cases with ⟨canceled, htx, -⟩ | ⟨e, -, -, rfl⟩
      · unfold DB.cancelRun at htx
        split at htx
        · cases htx
          exact Or.inl rfl
        · split at htx
          · split at htx
            · cases htx
              exact Or.inl rfl
            · cases htx
              left
              by_cases hrun : target = runId <;>
                simp [DB.billed, EventLog.append, List.filter_append, hrun]
          · cases htx
      · exact Or.inl rfl
  | createApproval tenantId runId' stepId approvers =>
      obtain ⟨approvalId, now, hcommits⟩ := h
      rcases commits_map_cases hcommits with ⟨hca, -⟩ | ⟨e, -, -, rfl⟩
      · rw [DB.billed, (DB.createApproval_ok hca).2.2.2.1]
        exact Or.inl rfl
      · exact Or.inl rfl
  | resolveApproval tenantId approvalId approved decidedBy note =>
      obtain ⟨now, hcommits⟩ := h
      rcases commits_map_cases hcommits with ⟨hra, -⟩ | ⟨e, -, -, rfl⟩
      · rw [DB.billed, (DB.resolveApproval_ok hra).2.2.1]
        exact Or.inl rfl
      · exact Or.inl rfl
  | insertRun run =>
      obtain ⟨now, hinsert⟩ := h
      unfold DB.insertRun at hinsert
      split at hinsert <;> cases hinsert <;> exact Or.inl rfl
  | ensureTenant | recordEffect =>
      obtain ⟨now, rfl⟩ := h
      exact Or.inl rfl
  | loadRun | loadRunByKey | getEffect | latestApproval | policyCheck | execute =>
      obtain ⟨-, rfl⟩ := h
      exact Or.inl rfl
  | allowRequest | stepSpan | respond | approvalFn =>
      obtain rfl := h
      exact Or.inl rfl

/-- Purging payloads bills nothing. -/
theorem billed_purgeEventPayloads (db : DB) (tenantId : String) (before : ℚ) (runId : String) :
    (db.purgeEventPayloads tenantId before).1.billed runId = db.billed runId := by
  unfold DB.purgeEventPayloads DB.billed EventLog.update
  dsimp only
  rw [List.filter_map, List.map_map]
  have hrun : ((fun row : EventRow => decide (row.runId = runId)) ∘ fun row =>
      if DB.purged tenantId before row = true then { row with payloadJson := .obj [] } else row) =
        fun row => decide (row.runId = runId) := by
    funext row
    by_cases hp : DB.purged tenantId before row = true <;> simp [hp]
  have hcost : (EventRow.costUsd ∘ fun row =>
      if DB.purged tenantId before row = true then { row with payloadJson := .obj [] } else row) =
        EventRow.costUsd := by
    funext row
    by_cases hp : DB.purged tenantId before row = true <;> simp [hp]
  rw [hrun, hcost]

/-- A run that is not stored is stored only by its own insertion. -/
theorem absent_of_step {policy : PolicyEngine} {redact : Json → Json} {db db' : DB} {op : Op}
    {answer : op.Res} {runId : String} (h : op.step policy redact db answer db')
    (hnone : db.runs.find? runId = none) :
    db'.runs.find? runId = none ∨
      ∃ run now, (⟨op, answer⟩ : (op : Op) × op.Res) = ⟨.insertRun run, true⟩ ∧ run.id = runId ∧
        db'.runs.find? runId = some (run.newRow now) := by
  cases op with
  | checkpoint run events =>
      obtain ⟨now, hcommits⟩ := h
      rcases commits_map_cases hcommits with ⟨hcp, -⟩ | ⟨e, -, -, rfl⟩
      · rw [(DB.checkpoint_ok hcp).2.2.1, Table.find?_update, hnone]
        exact Or.inl rfl
      · exact Or.inl hnone
  | cancelRun tenantId target =>
      obtain ⟨now, hcommits⟩ := h
      rcases hcommits.cases with ⟨canceled, htx, -⟩ | ⟨e, -, -, rfl⟩
      · rcases DB.cancelRun_ok htx with ⟨-, rfl⟩ | ⟨-, -, hruns, -⟩
        · exact Or.inl hnone
        · rw [hruns, Table.find?_update, hnone]
          exact Or.inl rfl
      · exact Or.inl hnone
  | createApproval tenantId runId' stepId approvers =>
      obtain ⟨approvalId, now, hcommits⟩ := h
      rcases commits_map_cases hcommits with ⟨hca, -⟩ | ⟨e, -, -, rfl⟩
      · rw [(DB.createApproval_ok hca).2.2.1]
        exact Or.inl hnone
      · exact Or.inl hnone
  | resolveApproval tenantId approvalId approved decidedBy note =>
      obtain ⟨now, hcommits⟩ := h
      rcases commits_map_cases hcommits with ⟨hra, -⟩ | ⟨e, -, -, rfl⟩
      · rw [(DB.resolveApproval_ok hra).2.1]
        exact Or.inl hnone
      · exact Or.inl hnone
  | insertRun run =>
      obtain ⟨now, hinsert⟩ := h
      unfold DB.insertRun at hinsert
      split at hinsert <;> cases hinsert
      · by_cases hid : run.id = runId
        · have hrow : (run.newRow now).id = runId := hid
          have hself := Table.find?_insert_self db.runs (run.newRow now)
          rw [hrow, hnone] at hself
          exact Or.inr ⟨run, now, rfl, hid, hself⟩
        · left
          exact (Table.find?_insert_of_ne db.runs (r := run.newRow now) hid).trans hnone
      · exact Or.inl hnone
  | ensureTenant | recordEffect =>
      obtain ⟨now, rfl⟩ := h
      exact Or.inl hnone
  | loadRun | loadRunByKey | getEffect | latestApproval | policyCheck | execute =>
      obtain ⟨-, rfl⟩ := h
      exact Or.inl hnone
  | allowRequest | stepSpan | respond | approvalFn =>
      obtain rfl := h
      exact Or.inl hnone

/-- Where a stored row comes from: it was there before, or the call has inserted, checkpointed or canceled
the run. -/
theorem runRow_cases {policy : PolicyEngine} {redact : Json → Json} {db db' : DB} {op : Op}
    {answer : op.Res} {runId : String} {row' : RunRow} (h : op.step policy redact db answer db')
    (hrow' : db'.runs.find? runId = some row') :
    db.runs.find? runId = some row' ∨
      (∃ run now, op = .insertRun run ∧ row' = run.newRow now) ∨
      (∃ run events now row, op = .checkpoint run events ∧ db.runs.find? runId = some row ∧
        row' = run.writeRow now row) ∨
      ∃ tenantId now row, op = .cancelRun tenantId runId ∧ db.runs.find? runId = some row ∧
        row' = { row with status := .canceled, updatedAt := now } := by
  cases hfind : db.runs.find? runId with
  | none =>
      rcases absent_of_step h hfind with hnone | ⟨run, now, heq, -, hnew⟩
      · rw [hnone] at hrow'
        cases hrow'
      · obtain rfl := Option.some.inj (hrow'.symm.trans hnew)
        cases heq
        exact Or.inr (Or.inl ⟨run, now, rfl, rfl⟩)
  | some row =>
      rcases runRow_of_step h hfind with hsame | ⟨run, events, now, rfl, -, -, hnew⟩ |
        ⟨tenantId, now, rfl, -, hnew⟩
      · exact Or.inl (hsame.symm.trans hrow')
      · obtain rfl := Option.some.inj (hrow'.symm.trans hnew)
        exact Or.inr (Or.inr (Or.inl ⟨run, events, now, row, rfl, rfl, rfl⟩))
      · obtain rfl := Option.some.inj (hrow'.symm.trans hnew)
        exact Or.inr (Or.inr (Or.inr ⟨tenantId, now, row, rfl, rfl, rfl⟩))

/-- An insertion that was answered with `true` stored a run that was not there. -/
theorem row_of_insertRun {policy : PolicyEngine} {redact : Json → Json} {db db' : DB} {run : Run}
    (h : (Op.insertRun run).step policy redact db true db') :
    db.runs.find? run.id = none ∧ ∃ now, db'.runs.find? run.id = some (run.newRow now) := by
  obtain ⟨now, hinsert⟩ := h
  unfold DB.insertRun at hinsert
  split at hinsert
  · rename_i hnew
    obtain ⟨rfl, -⟩ := Prod.mk.inj hinsert
    have hnone := DB.find?_of_not_conflicts hnew
    have hself := Table.find?_insert_self db.runs (run.newRow now)
    rw [show (run.newRow now).id = run.id from rfl, hnone] at hself
    exact ⟨hnone, now, hself⟩
  · cases (Prod.mk.inj hinsert).2

end Bass
