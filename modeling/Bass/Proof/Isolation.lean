import Bass.Interface
import Bass.Proof.StoreLemmas

/-!
# Tenant isolation of the store

Every operation is called for one tenant. Whatever its other arguments are, and whomever the ids and
keys among them belong to, it leaves the rows of the other tenants alone and returns nothing of
theirs.
-/

namespace Bass

/-! ### Rows of other tenants -/

section Rows

variable {ρ : Type} {rows : List ρ} {others : ρ → Bool}

theorem filter_append_own {r : ρ} (hr : others r = false) :
    (rows ++ [r]).filter others = rows.filter others := by
  rw [List.filter_append, List.filter_cons_of_neg (by simp [hr]), List.filter_nil, List.append_nil]

theorem filter_update_own {p : ρ → Bool} {f : ρ → ρ}
    (hp : ∀ r ∈ rows, p r = true → others r = false ∧ others (f r) = false) :
    (rows.map fun r => if p r then f r else r).filter others = rows.filter others := by
  induction rows with
  | nil => rfl
  | cons r rows ih =>
      have hrest := ih fun r' hmem => hp r' (List.mem_cons_of_mem _ hmem)
      rw [List.map_cons]
      by_cases h : p r = true
      · obtain ⟨hold, hnew⟩ := hp r List.mem_cons_self h
        rw [if_pos h, List.filter_cons_of_neg (by simp [hnew]),
          List.filter_cons_of_neg (by simp [hold]), hrest]
      · rw [if_neg h, List.filter_cons, List.filter_cons, hrest]

theorem filter_insert_own {κ : Type} [DecidableEq κ] {key : ρ → κ} {t : Table key} {r : ρ}
    (hr : others r = false) : (t.insert r).rows.filter others = t.rows.filter others := by
  cases hfind : t.find? (key r) with
  | none => rw [Table.insert_of_none hfind, filter_append_own hr]
  | some old => rw [Table.insert_of_some hfind]

end Rows

/-- The databases differ in rows of the tenant only. -/
structure SameOthers (tenantId : String) (db db' : DB) : Prop where
  tenants : db'.tenants.rows.filter (fun row => row.id ≠ tenantId) =
    db.tenants.rows.filter fun row => row.id ≠ tenantId
  runs : db'.runs.rows.filter (fun row => row.tenantId ≠ tenantId) =
    db.runs.rows.filter fun row => row.tenantId ≠ tenantId
  events : db'.events.rows.filter (fun row => row.tenantId ≠ tenantId) =
    db.events.rows.filter fun row => row.tenantId ≠ tenantId
  approvals : db'.approvals.rows.filter (fun row => row.tenantId ≠ tenantId) =
    db.approvals.rows.filter fun row => row.tenantId ≠ tenantId
  toolEffects : db'.toolEffects.rows.filter (fun row => row.tenantId ≠ tenantId) =
    db.toolEffects.rows.filter fun row => row.tenantId ≠ tenantId

variable {redact : Json → Json} {tenantId : String} {db db' : DB}

theorem SameOthers.refl (tenantId : String) (db : DB) : SameOthers tenantId db db :=
  ⟨rfl, rfl, rfl, rfl, rfl⟩

theorem SameOthers.trans {db₁ : DB} (h : SameOthers tenantId db db₁)
    (h' : SameOthers tenantId db₁ db') : SameOthers tenantId db db' where
  tenants := h'.tenants.trans h.tenants
  runs := h'.runs.trans h.runs
  events := h'.events.trans h.events
  approvals := h'.approvals.trans h.approvals
  toolEffects := h'.toolEffects.trans h.toolEffects

theorem own_row {row owner : String} (h : row = owner) : (decide (row ≠ owner)) = false := by
  simp [h]

namespace DB

theorem sameOthers_ensureTenant (name : String) (settings : Json) (now : ℕ → ℚ) :
    SameOthers tenantId db (db.ensureTenant tenantId name settings now) := by
  refine { SameOthers.refl tenantId db with tenants := ?_ }
  have hinsert : (db.ensureTenant tenantId name settings now).tenants.rows.filter
      (fun row => row.id ≠ tenantId) = _ := filter_insert_own (own_row rfl)
  refine hinsert.trans (filter_update_own fun row _ hrow => ?_)
  have hid : row.id = tenantId := by simpa using hrow
  exact ⟨own_row hid, own_row hid⟩

theorem sameOthers_insertRun {run : Run} (hrun : run.tenantId = tenantId) (now : ℕ → ℚ) :
    SameOthers tenantId db (db.insertRun run now).1 := by
  unfold insertRun
  split
  · refine { SameOthers.refl tenantId db with runs := ?_ }
    exact filter_insert_own (own_row hrun)
  · exact SameOthers.refl tenantId db

/-- Rows that no event of the buffer turns into are not added to. -/
theorem filter_appendEvents_own {others : EventRow → Bool} {events : List Event} {now : ℕ → ℚ}
    {log log' : EventLog} (h : appendEvents redact tenantId events now log = .ok log')
    (hown : ∀ ev ∈ events, ev.tenantId = tenantId → ∀ now seq, others (Event.row redact ev now seq) = false) :
    log'.rows.filter others = log.rows.filter others := by
  induction events generalizing now log with
  | nil =>
      cases h
      rfl
  | cons ev rest ih =>
      rw [appendEvents] at h
      split at h
      · rename_i htenant
        rw [ih h fun ev' hmem => hown ev' (List.mem_cons_of_mem _ hmem)]
        exact filter_append_own (hown ev List.mem_cons_self htenant _ _)
      · cases h

/-- The events of a checkpoint that is accepted are the tenant's own. -/
theorem filter_appendEvents {events : List Event} {now : ℕ → ℚ} {log log' : EventLog}
    (h : appendEvents redact tenantId events now log = .ok log') :
    log'.rows.filter (fun row => row.tenantId ≠ tenantId) =
      log.rows.filter fun row => row.tenantId ≠ tenantId :=
  filter_appendEvents_own h fun _ _ htenant _ _ => own_row htenant

theorem sameOthers_checkpoint {run : Run} (hrun : run.tenantId = tenantId) {events : List Event}
    {now : ℕ → ℚ} (h : db.checkpoint redact run events now = .ok db') :
    SameOthers tenantId db db' := by
  subst hrun
  have htenants : db'.tenants = db.tenants := by
    unfold checkpoint at h
    cases howns : db.assertOwns run.tenantId run.id with
    | error e => simp [howns, bind, Except.bind] at h
    | ok u =>
        cases hlog : appendEvents redact run.tenantId events (fun i => now (i + 1)) db.events with
        | error e => simp [howns, hlog, bind, Except.bind] at h
        | ok log =>
            simp only [howns, hlog, bind, Except.bind, pure, Except.pure, Except.ok.injEq] at h
            subst h
            rfl
  obtain ⟨-, hlog, hruns, happrovals, heffects⟩ := checkpoint_ok h
  refine ⟨by rw [htenants], ?_, filter_appendEvents hlog, by rw [happrovals], by rw [heffects]⟩
  rw [hruns]
  refine filter_update_own fun row _ hrow => ?_
  have howner : row.id = run.id ∧ row.tenantId = run.tenantId := by simpa using hrow
  exact ⟨own_row howner.2, own_row howner.2⟩

theorem sameOthers_cancelRun {runId : String} {now : ℕ → ℚ} {canceled : Bool}
    (h : db.cancelRun tenantId runId now = .ok (db', canceled)) : SameOthers tenantId db db' := by
  unfold cancelRun at h
  split at h
  · cases h
    exact SameOthers.refl tenantId db
  · split at h
    · split at h
      · cases h
        exact SameOthers.refl tenantId db
      · cases h
        refine { SameOthers.refl tenantId db with runs := ?_, events := ?_ }
        · refine filter_update_own fun row _ hrow => ?_
          have howner : row.id = runId ∧ row.tenantId = tenantId := by simpa using hrow
          exact ⟨own_row howner.2, own_row howner.2⟩
        · exact filter_append_own (own_row rfl)
    · cases h

theorem sameOthers_recordEffect (key runId : String) (stepId : Option String) (tool : String)
    (result : Json) (now : ℕ → ℚ) :
    SameOthers tenantId db (db.recordEffect tenantId key runId stepId tool result now) :=
  { SameOthers.refl tenantId db with toolEffects := filter_insert_own (own_row rfl) }

theorem sameOthers_createApproval {runId stepId approvalId : String} {approvers : List String}
    {now : ℕ → ℚ}
    (h : db.createApproval tenantId runId stepId approvers approvalId now = .ok db') :
    SameOthers tenantId db db' := by
  unfold createApproval at h
  cases howns : db.assertOwns tenantId runId with
  | error e => simp [howns, bind, Except.bind] at h
  | ok u =>
      simp only [howns, bind, Except.bind] at h
      split at h
      · cases h
      · simp only [pure, Except.pure, Except.ok.injEq] at h
        subst h
        exact { SameOthers.refl tenantId db with approvals := filter_insert_own (own_row rfl) }

theorem sameOthers_resolveApproval {approvalId decidedBy note : String} {approved : Bool}
    {now : ℕ → ℚ}
    (h : db.resolveApproval tenantId approvalId approved decidedBy note now = .ok db') :
    SameOthers tenantId db db' := by
  unfold resolveApproval at h
  split at h
  · cases h
  · rename_i row hrow
    split at h
    · rename_i htenant
      cases h
      refine { SameOthers.refl tenantId db with approvals := ?_ }
      refine filter_update_own fun row' hmem hid => ?_
      -- only the row that was looked up has this id
      have hown : row'.tenantId = tenantId := by
        have hfind := Table.find?_of_mem hmem
        rw [of_decide_eq_true hid, hrow] at hfind
        cases hfind
        exact htenant
      exact ⟨own_row hown, own_row hown⟩
    · cases h

theorem sameOthers_purgeEventPayloads (before : ℚ) :
    SameOthers tenantId db (db.purgeEventPayloads tenantId before).1 := by
  refine { SameOthers.refl tenantId db with events := ?_ }
  refine filter_update_own fun row _ hrow => ?_
  have howner : row.tenantId = tenantId := by
    unfold purged at hrow
    exact (of_decide_eq_true hrow).1
  exact ⟨own_row howner, own_row howner⟩

end DB

/-! ### Answers -/

/-- A ledger value that was read is the tenant's own, or there is none. -/
def OwnEffect (tenantId key : String) (db : DB) (value : Json) : Prop :=
  value = .null ∨ ∃ row ∈ db.toolEffects.rows, row.idempotencyKey = key ∧
    row.tenantId = tenantId ∧ row.resultJson = value

/-- Whatever runs, events, effects and approvals an operation returns are the tenant's own. -/
def StoreOp.OwnAnswer (tenantId : String) (db db' : DB) : (op : StoreOp) → op.Res → Prop
  | createOrGetRun _, answer => ∀ run created, answer = .ok (run, created) → run.tenantId = tenantId
  | loadRun .., answer => ∀ run, answer = .ok (some run) → run.tenantId = tenantId
  | listRuns .., answer => ∀ runs, answer = .ok runs → ∀ run ∈ runs, run.tenantId = tenantId
  | listEvents .., answer => ∀ rows, answer = .ok rows → ∀ row ∈ rows, row.tenantId = tenantId
  | getEffect _ key, answer => ∀ value, answer = .ok value → OwnEffect tenantId key db value
  | createApproval .., answer => ∀ approvalId, answer = .ok approvalId →
      ∃ row ∈ db'.approvals.rows, row.id = approvalId ∧ row.tenantId = tenantId
  | latestApproval .., answer => ∀ approvalId status, answer = some (approvalId, status) →
      ∃ row ∈ db.approvals.rows, row.id = approvalId ∧ row.status = status ∧
        row.tenantId = tenantId
  | _, _ => True

theorem tenantId_of_rowToRun {row : RunRow} {run : Run}
    (h : DB.rowToRun row tenantId = .ok run) : run.tenantId = tenantId := by
  unfold DB.rowToRun at h
  split at h
  · rename_i htenant
    cases h
    exact htenant
  · cases h

theorem tenantId_of_map_rowToRun {row : RunRow} {run : Run}
    (h : (some <$> DB.rowToRun row tenantId : Except Exc (Option Run)) = .ok (some run)) :
    run.tenantId = tenantId := by
  cases hrow : DB.rowToRun row tenantId with
  | error e =>
      rw [hrow] at h
      cases h
  | ok run' =>
      rw [hrow] at h
      cases h
      exact tenantId_of_rowToRun hrow

theorem tenantId_of_loadRun {runId : String} {run : Run}
    (h : db.loadRun tenantId runId = .ok (some run)) : run.tenantId = tenantId := by
  unfold DB.loadRun at h
  split at h
  · exact tenantId_of_map_rowToRun h
  · cases h

theorem tenantId_of_loadRunByKey {key : String} {run : Run}
    (h : db.loadRunByKey tenantId key = .ok (some run)) : run.tenantId = tenantId := by
  unfold DB.loadRunByKey at h
  split at h
  · exact tenantId_of_map_rowToRun h
  · cases h

theorem mem_of_mapM_ok {α β : Type} {f : α → Except Exc β} {xs : List α} {ys : List β}
    (h : xs.mapM f = .ok ys) : ∀ y ∈ ys, ∃ x ∈ xs, f x = .ok y := by
  induction xs generalizing ys with
  | nil =>
      cases h
      exact fun _ hy => absurd hy List.not_mem_nil
  | cons x xs ih =>
      rw [List.mapM_cons] at h
      cases hx : f x with
      | error e => simp [hx, bind, Except.bind] at h
      | ok y₀ =>
          cases hxs : xs.mapM f with
          | error e => simp [hx, hxs, bind, Except.bind] at h
          | ok ys₀ =>
              simp only [hx, hxs, bind, Except.bind, pure, Except.pure, Except.ok.injEq] at h
              subst h
              intro y hy
              rcases List.mem_cons.mp hy with rfl | hrest
              · exact ⟨x, List.mem_cons_self, hx⟩
              · obtain ⟨x', hx', hfx'⟩ := ih hxs y hrest
                exact ⟨x', List.mem_cons_of_mem _ hx', hfx'⟩

theorem listEvents_ok {runId : String} {rows : List EventRow}
    (h : db.listEvents tenantId runId = .ok rows) :
    db.assertOwns tenantId runId = .ok () ∧
      rows = db.events.rows.filter fun row => row.runId = runId ∧ row.tenantId = tenantId := by
  unfold DB.listEvents at h
  cases howns : db.assertOwns tenantId runId with
  | error e => simp [howns, bind, Except.bind] at h
  | ok u =>
      simp only [howns, bind, Except.bind, pure, Except.pure, Except.ok.injEq] at h
      exact ⟨rfl, h.symm⟩

theorem tenantId_of_listEvents {runId : String} {rows : List EventRow}
    (h : db.listEvents tenantId runId = .ok rows) : ∀ row ∈ rows, row.tenantId = tenantId := by
  intro row hrow
  rw [(listEvents_ok h).2] at hrow
  exact (of_decide_eq_true (List.mem_filter.mp hrow).2).2

theorem ownEffect_of_getEffect {key : String} {value : Json}
    (h : db.getEffect tenantId key = .ok value) : OwnEffect tenantId key db value := by
  unfold DB.getEffect at h
  split at h
  · cases h
    exact Or.inl rfl
  · rename_i row hrow
    split at h
    · rename_i htenant
      cases h
      exact Or.inr ⟨row, Table.mem_of_find? hrow, Table.key_of_find? hrow, htenant, rfl⟩
    · cases h

theorem own_latestApproval {runId stepId approvalId : String} {status : ApprovalStatus}
    (h : db.latestApproval tenantId runId stepId = some (approvalId, status)) :
    ∃ row ∈ db.approvals.rows, row.id = approvalId ∧ row.status = status ∧
      row.tenantId = tenantId := by
  obtain ⟨row, hmem, hid, hstatus, htenant, -⟩ := row_of_latestApproval h
  exact ⟨row, hmem, hid, hstatus, htenant⟩

/-! ### One operation, and any sequence of them -/

theorem StoreOp.isolated {op : StoreOp} {answer : op.Res} (h : op.step redact db answer db')
    (htenant : op.tenant = some tenantId) :
    SameOthers tenantId db db' ∧ op.OwnAnswer tenantId db db' answer := by
  cases op with
  | ensureTenant =>
      cases htenant
      obtain ⟨now, rfl⟩ := h
      exact ⟨DB.sameOthers_ensureTenant _ _ now, trivial⟩
  | createOrGetRun run =>
      have hrun : run.tenantId = tenantId := Option.some.inj htenant
      obtain ⟨now, rfl, hanswer⟩ := h
      refine ⟨DB.sameOthers_insertRun hrun now, fun run' created heq => ?_⟩
      rw [hanswer, createdOrExisting] at heq
      split at heq
      · cases heq
        exact hrun
      · split at heq
        · rename_i hload
          cases heq
          rw [hrun] at hload
          exact tenantId_of_loadRunByKey hload
        · cases heq
        · cases heq
  | loadRun =>
      cases htenant
      obtain ⟨rfl, rfl⟩ := h
      exact ⟨SameOthers.refl tenantId _, fun run hload => tenantId_of_loadRun hload⟩
  | listRuns =>
      cases htenant
      obtain ⟨rfl, rfl⟩ := h
      refine ⟨SameOthers.refl tenantId _, fun runs hlist run hrun => ?_⟩
      obtain ⟨row, -, hrow⟩ := mem_of_mapM_ok hlist run hrun
      exact tenantId_of_rowToRun hrow
  | checkpoint run events =>
      have hrun : run.tenantId = tenantId := Option.some.inj htenant
      obtain ⟨now, hcommits⟩ := h
      rcases commits_map_cases hcommits with ⟨hcp, -⟩ | ⟨e, -, -, rfl⟩
      · exact ⟨DB.sameOthers_checkpoint hrun hcp, trivial⟩
      · exact ⟨SameOthers.refl tenantId _, trivial⟩
  | listEvents =>
      cases htenant
      obtain ⟨rfl, rfl⟩ := h
      refine ⟨SameOthers.refl tenantId _, fun rows hlist row hrow => ?_⟩
      exact tenantId_of_listEvents hlist row hrow
  | getEffect =>
      cases htenant
      obtain ⟨rfl, rfl⟩ := h
      exact ⟨SameOthers.refl tenantId _, fun value hvalue => ownEffect_of_getEffect hvalue⟩
  | recordEffect =>
      cases htenant
      obtain ⟨now, rfl⟩ := h
      exact ⟨DB.sameOthers_recordEffect _ _ _ _ _ now, trivial⟩
  | createApproval =>
      cases htenant
      obtain ⟨approvalId, now, hcommits⟩ := h
      rcases commits_map_cases hcommits with ⟨hca, rfl⟩ | ⟨e, -, rfl, rfl⟩
      · refine ⟨DB.sameOthers_createApproval hca, fun approvalId' heq => ?_⟩
        cases heq
        rw [(DB.createApproval_ok hca).2.1]
        exact ⟨_, List.mem_append_right _ List.mem_cons_self, rfl, rfl⟩
      · exact ⟨SameOthers.refl tenantId _, fun _ heq => nomatch heq⟩
  | resolveApproval =>
      cases htenant
      obtain ⟨now, hcommits⟩ := h
      rcases commits_map_cases hcommits with ⟨hra, -⟩ | ⟨e, -, -, rfl⟩
      · exact ⟨DB.sameOthers_resolveApproval hra, trivial⟩
      · exact ⟨SameOthers.refl tenantId _, trivial⟩
  | latestApproval =>
      cases htenant
      obtain ⟨rfl, rfl⟩ := h
      exact ⟨SameOthers.refl tenantId _, fun _ _ hlatest => own_latestApproval hlatest⟩
  | cancelRun =>
      cases htenant
      obtain ⟨now, hcommits⟩ := h
      rcases hcommits.cases with ⟨canceled, htx, -⟩ | ⟨e, -, -, rfl⟩
      · exact ⟨DB.sameOthers_cancelRun htx, trivial⟩
      · exact ⟨SameOthers.refl tenantId _, trivial⟩
  | purgeEventPayloads _ before =>
      cases htenant
      cases h
      exact ⟨DB.sameOthers_purgeEventPayloads before, trivial⟩
  | ping => cases htenant

/-- However long a tenant calls the store: the rows of the others are as they were, and each operation
either raised, returned nothing, or returned the tenant's own. -/
theorem store_isolated {calls : List ((op : StoreOp) × op.Res)}
    (h : StoreOp.Sequence redact db calls db')
    (htenant : ∀ call ∈ calls, call.1.tenant = some tenantId) :
    SameOthers tenantId db db' ∧ ∀ call ∈ calls, ∃ db₁ db₂, SameOthers tenantId db db₁ ∧
      call.1.step redact db₁ call.2 db₂ ∧ call.1.OwnAnswer tenantId db₁ db₂ call.2 := by
  induction h with
  | nil db => exact ⟨SameOthers.refl tenantId db, fun _ hmem => absurd hmem List.not_mem_nil⟩
  | @cons db db₁ db' op answer rest head _ ih =>
      obtain ⟨hsame, hanswer⟩ := StoreOp.isolated head (htenant _ List.mem_cons_self)
      obtain ⟨hrest, hanswers⟩ := ih fun call hmem => htenant call (List.mem_cons_of_mem _ hmem)
      refine ⟨hsame.trans hrest, fun call hmem => ?_⟩
      rcases List.mem_cons.mp hmem with rfl | htail
      · exact ⟨db, db₁, SameOthers.refl tenantId db, head, hanswer⟩
      · obtain ⟨db₂, db₃, hsame₂, hstep, hown⟩ := hanswers call htail
        exact ⟨db₂, db₃, hsame.trans hsame₂, hstep, hown⟩

/-- A tenant that tries the run of another one: it is refused, and sees no runs. -/
theorem store_isolated_foreignRun :
    SameOthers "rival" (DB.withRun "run" "payments") (DB.withRun "run" "payments") ∧
      ∀ call ∈ ([⟨.loadRun "rival" "run",
          .error (DB.tenantIsolation "run belongs to a different tenant")⟩,
        ⟨.listRuns "rival" 50 none, .ok []⟩] : List ((op : StoreOp) × op.Res)),
        ∃ db₁ db₂, SameOthers "rival" (DB.withRun "run" "payments") db₁ ∧
          call.1.step id db₁ call.2 db₂ ∧ call.1.OwnAnswer "rival" db₁ db₂ call.2 := by
  refine store_isolated (.cons ⟨rfl, rfl⟩ (.cons ⟨?_, rfl⟩ (.nil _))) ?_
  · have hnone : (DB.withRun "run" "payments").runs.rows.filter (fun row => row.tenantId = "rival" ∧
        (none : Option String).all fun value => value = "" ∨ row.status.value = value) = [] := by
      decide
    rw [DB.listRuns, hnone, DB.newestFirst, List.mergeSort_nil, List.mergeSort_nil]
    rfl
  · intro call hcall
    rcases List.mem_cons.mp hcall with rfl | hcall
    · rfl
    · rw [List.mem_singleton.mp hcall]
      rfl

end Bass
