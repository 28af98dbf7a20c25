import Bass.Serialization
import Bass.Proof.StoreLemmas

/-!
# A checkpoint is all or nothing

`checkpoint` runs its statements on an open transaction. One that raises, at whichever event, leaves
no trace; one that commits has written the run's columns, appended the redacted events in their
order, and touched nothing else.
-/

namespace Bass

open Redaction

/-! ### Running statements -/

namespace Statements

variable {α β : Type}

theorem run_bind (statements : Statements α) (next : α → Statements β) (db : DB) :
    (statements >>= next).run.run db =
      match statements.run.run db with
      | (.ok value, changed) => (next value).run.run changed
      | (.error e, changed) => (.error e, changed) := by
  rw [ExceptT.run_bind, StateT.run_bind]
  rcases hrun : statements.run.run db with ⟨answer | value, changed⟩ <;> rfl

theorem run_assertOwns (tenantId runId : String) (db : DB) :
    (assertOwns tenantId runId).run.run db = (db.assertOwns tenantId runId, db) := by
  unfold assertOwns
  rw [run_bind]
  have hget : (get : Statements DB).run.run db = (.ok db, db) := rfl
  rw [hget]
  dsimp only
  cases db.assertOwns tenantId runId <;> rfl

end Statements

/-- A transaction that raises leaves the database as it was. -/
theorem transaction_error {α : Type} {statements : Statements α} {db : DB} {e : Exc}
    (h : (transaction statements db).1 = .error e) : (transaction statements db).2 = db := by
  unfold transaction at h ⊢
  split
  · rename_i value changed hrun
    rw [hrun] at h
    cases h
  · rfl

/-- A transaction that commits keeps what its statements changed. -/
theorem transaction_ok {α : Type} {statements : Statements α} {db : DB} {value : α}
    (h : (transaction statements db).1 = .ok value) :
    statements.run.run db = (.ok value, (transaction statements db).2) := by
  unfold transaction at h ⊢
  split
  · rename_i value' changed hrun
    rw [hrun] at h ⊢
    cases h
    rfl
  · rename_i e changed hrun
    rw [hrun] at h
    cases h

section Checkpoint

variable {classes : CharClasses}

/-! ### The loop over the events -/

/-- The row holds the event under its redacted payload. -/
structure LoggedAs (classes : CharClasses) (ev : PyEvent) (row : EventRow) : Prop where
  runId : row.runId = ev.runId
  tenantId : row.tenantId = ev.tenantId
  stepId : row.stepId = ev.stepId
  type : row.type = ev.type
  actor : row.actor = ev.actor
  costUsd : row.costUsd = ev.costUsd
  payload : (ev.payload.redact classes).dumps = .ok row.payloadJson

theorem loggedAs_row {ev : PyEvent} {payload : Json} (now : ℚ) (seq : ℕ)
    (h : (ev.payload.redact classes).dumps = .ok payload) :
    LoggedAs classes ev (ev.row payload now seq) :=
  ⟨rfl, rfl, rfl, rfl, rfl, rfl, h⟩

namespace Statements

/-- One turn of the loop that does not raise appends one row. -/
theorem insertEvent_ok {tenantId : String} {ev : PyEvent} {now : ℚ} {db db' : DB}
    (h : (insertEvent classes tenantId ev now).run.run db = (.ok (), db')) :
    ev.tenantId = tenantId ∧ ∃ payload, (ev.payload.redact classes).dumps = .ok payload ∧
      db' = { db with events := db.events.append (ev.row payload now) fun _ => rfl } := by
  unfold insertEvent at h
  split at h
  · rename_i htenant
    split at h
    · rename_i payload hpayload
      cases h
      exact ⟨htenant, payload, hpayload, rfl⟩
    · cases h
  · cases h

/-- A loop that ends has appended one row for each event, in the events' order. -/
theorem insertEvents_ok {tenantId : String} {events : List PyEvent} {now : ℕ → ℚ} {db db' : DB}
    (h : (insertEvents classes tenantId events now).run.run db = (.ok (), db')) :
    (∀ ev ∈ events, ev.tenantId = tenantId) ∧
      (∃ new, db'.events.rows = db.events.rows ++ new ∧
        List.Forall₂ (LoggedAs classes) events new) ∧
      { db' with events := db.events } = db := by
  induction events generalizing now db with
  | nil =>
      cases h
      exact ⟨nofun, ⟨[], by simp, List.Forall₂.nil⟩, rfl⟩
  | cons ev rest ih =>
      rw [insertEvents, run_bind] at h
      rcases hfirst : (insertEvent classes tenantId ev (now 0)).run.run db with ⟨e | value, changed⟩
      · rw [hfirst] at h
        cases h
      · rw [hfirst] at h
        obtain ⟨htenant, payload, hpayload, rfl⟩ := insertEvent_ok hfirst
        obtain ⟨htenants, ⟨new, hrows, hnew⟩, hrest⟩ := ih h
        have hlogged := loggedAs_row (now 0) (db.events.last + 1) hpayload
        refine ⟨List.forall_mem_cons.mpr ⟨htenant, htenants⟩,
          ⟨ev.row payload (now 0) (db.events.last + 1) :: new, ?_, hnew.cons hlogged⟩, ?_⟩
        · rw [hrows]
          simp [EventLog.append]
        · cases db'
          cases hrest
          rfl

/-- A checkpoint that ends has written the run's row and appended the events. -/
theorem checkpoint_ok {run : Run} {events : List PyEvent} {now : ℕ → ℚ} {db db' : DB}
    (h : (checkpoint classes run events now).run.run db = (.ok (), db')) :
    db'.runs = db.runs.update (fun row => row.id = run.id ∧ row.tenantId = run.tenantId)
        (run.writeRow (now 0)) (run.writeRow_id (now 0)) ∧
      (∀ ev ∈ events, ev.tenantId = run.tenantId) ∧
      (∃ new, db'.events.rows = db.events.rows ++ new ∧
        List.Forall₂ (LoggedAs classes) events new) ∧
      db'.tenants = db.tenants ∧ db'.approvals = db.approvals ∧ db'.toolEffects = db.toolEffects := by
  rw [checkpoint, run_bind, run_assertOwns] at h
  cases howns : db.assertOwns run.tenantId run.id with
  | error e =>
      rw [howns] at h
      cases h
  | ok value =>
      rw [howns] at h
      obtain ⟨htenants, hnew, hrest⟩ := insertEvents_ok h
      have hruns := congrArg DB.runs hrest
      have htables := congrArg (fun db : DB => (db.tenants, db.approvals, db.toolEffects)) hrest
      simp only [Prod.mk.injEq] at htables
      exact ⟨hruns, htenants, hnew, htables⟩

end Statements

/-! ### What is read back -/

/-- The events of one run, of one tenant. -/
theorem listEvents_of_own {db : DB} {tenantId runId : String} {row : RunRow}
    (hrow : db.runs.find? runId = some row) (htenant : row.tenantId = tenantId) :
    db.listEvents tenantId runId =
      .ok (db.events.rows.filter fun ev => ev.runId = runId ∧ ev.tenantId = tenantId) := by
  rw [DB.listEvents, DB.assertOwns, hrow]
  simp only [htenant, if_true]
  rfl

/-- The rows of events of one run and tenant are all among that run's events. -/
theorem filter_loggedAs {events : List PyEvent} {new : List EventRow} {tenantId runId : String}
    (hnew : List.Forall₂ (LoggedAs classes) events new) (hruns : ∀ ev ∈ events, ev.runId = runId)
    (htenants : ∀ ev ∈ events, ev.tenantId = tenantId) :
    ∀ row ∈ new, row.runId = runId ∧ row.tenantId = tenantId := by
  induction hnew with
  | nil => nofun
  | cons hhead _ ih =>
      obtain ⟨hrun, hruns⟩ := List.forall_mem_cons.mp hruns
      obtain ⟨htenant, htenants⟩ := List.forall_mem_cons.mp htenants
      intro row hrow
      rcases List.mem_cons.mp hrow with rfl | hrest
      · exact ⟨hhead.runId.trans hrun, hhead.tenantId.trans htenant⟩
      · exact ih hruns htenants row hrest

/-- Appended rows of one run and tenant come after that run's events. -/
theorem filter_append_events {old new : List EventRow} {tenantId runId : String}
    (hnew : ∀ row ∈ new, row.runId = runId ∧ row.tenantId = tenantId) :
    (old ++ new).filter (fun ev => ev.runId = runId ∧ ev.tenantId = tenantId) =
      old.filter (fun ev => ev.runId = runId ∧ ev.tenantId = tenantId) ++ new := by
  rw [List.filter_append]
  congr 1
  apply List.filter_eq_self.mpr
  intro row hrow
  simpa using hnew row hrow

/-- What a committed checkpoint of a run has left. -/
structure CheckpointWritten (classes : CharClasses) (run : Run) (events : List PyEvent) (row : RunRow)
    (db db' : DB) : Prop where
  loaded : db'.loadRun run.tenantId run.id = .ok (some { row.toRun with
    status := run.status
    cursorStep := run.cursorStep
    context := run.context
    costUsd := run.costUsd
    stepsUsed := run.stepsUsed
    result := run.result })
  logged : ∃ old new, db.listEvents run.tenantId run.id = .ok old ∧
    db'.listEvents run.tenantId run.id = .ok (old ++ new) ∧
    List.Forall₂ (LoggedAs classes) events new ∧
    (old ++ new).Pairwise fun a b => a.seq < b.seq
  otherRuns : ∀ tenantId runId, runId ≠ run.id →
    db'.runs.find? runId = db.runs.find? runId ∧
      db'.loadRun tenantId runId = db.loadRun tenantId runId ∧
      db'.listEvents tenantId runId = db.listEvents tenantId runId
  otherTables : db'.tenants = db.tenants ∧ db'.approvals = db.approvals ∧
    db'.toolEffects = db.toolEffects

/-- The row of another run is as it was. -/
theorem find?_of_checkpoint_ne {run : Run} {db db' : DB} {now : ℚ} {runId : String}
    (hruns : db'.runs = db.runs.update (fun row => row.id = run.id ∧ row.tenantId = run.tenantId)
      (run.writeRow now) (run.writeRow_id now)) (hne : runId ≠ run.id) :
    db'.runs.find? runId = db.runs.find? runId := by
  rw [hruns, Table.find?_update]
  cases hrow : db.runs.find? runId with
  | none => rfl
  | some row =>
      have hid : row.id = runId := Table.key_of_find? hrow
      simp [hid, hne]

/-- A committed checkpoint has written what it was given and nothing else. -/
theorem checkpointWritten_of_ok {run : Run} {events : List PyEvent} {now : ℕ → ℚ} {db db' : DB}
    {row : RunRow} (h : (Statements.checkpoint classes run events now).run.run db = (.ok (), db'))
    (hrow : db.runs.find? run.id = some row) (htenant : row.tenantId = run.tenantId)
    (hevents : ∀ ev ∈ events, ev.runId = run.id) :
    CheckpointWritten classes run events row db db' := by
  obtain ⟨hruns, htenants, ⟨new, hrows, hnew⟩, htables⟩ := Statements.checkpoint_ok h
  have hid : row.id = run.id := Table.key_of_find? hrow
  have hwritten : db'.runs.find? run.id = some (run.writeRow (now 0) row) := by
    rw [hruns, Table.find?_update, hrow]
    simp [hid, htenant]
  have hmine := filter_loggedAs hnew hevents htenants
  constructor
  case loaded =>
    rw [DB.loadRun, hwritten]
    simp [DB.rowToRun, htenant, RunRow.toRun, Run.writeRow]
  case logged =>
    refine ⟨_, new, listEvents_of_own hrow htenant, ?_, hnew, ?_⟩
    · rw [listEvents_of_own hwritten htenant, hrows, filter_append_events hmine]
    · rw [← filter_append_events hmine, ← hrows]
      exact db'.events.ordered.filter _
  case otherRuns =>
    intro tenantId runId hne
    have hsame := find?_of_checkpoint_ne hruns hne
    refine ⟨hsame, ?_, ?_⟩
    · rw [DB.loadRun, DB.loadRun, hsame]
    · have howns : db'.assertOwns tenantId runId = db.assertOwns tenantId runId := by
        rw [DB.assertOwns, DB.assertOwns, hsame]
      have hnone : new.filter (fun ev => ev.runId = runId ∧ ev.tenantId = tenantId) = [] := by
        rw [List.filter_eq_nil_iff]
        intro ev hev
        simp [(hmine ev hev).1, hne.symm]
      rw [DB.listEvents, DB.listEvents, howns, hrows, List.filter_append, hnone, List.append_nil]
  case otherTables => exact htables

/-- A checkpoint of a run that has a row either raises and leaves the database as it was, or returns
and has written what it was given and nothing else. -/
theorem checkpoint_atomic (classes : CharClasses) (db : DB) (run : Run) (row : RunRow)
    (events : List PyEvent) (now : ℕ → ℚ) (hrow : db.runs.find? run.id = some row)
    (htenant : row.tenantId = run.tenantId) (hevents : ∀ ev ∈ events, ev.runId = run.id) :
    let out := transaction (Statements.checkpoint classes run events now) db
    (∃ e, out.1 = .error e ∧ out.2 = db) ∨
      (out.1 = .ok () ∧ CheckpointWritten classes run events row db out.2) := by
  intro out
  cases hout : out.1 with
  | error e => exact Or.inl ⟨e, rfl, transaction_error hout⟩
  | ok value =>
      exact Or.inr ⟨rfl, checkpointWritten_of_ok (transaction_ok hout) hrow htenant hevents⟩

/-! ### JSON payloads -/

namespace Statements

/-- One turn of the loop over a JSON payload of the run's tenant. -/
theorem insertEvent_toPy {tenantId : String} {ev : Event} (htenant : ev.tenantId = tenantId) (now : ℚ)
    (db : DB) :
    (insertEvent classes tenantId ev.toPy now).run.run db = (.ok (), { db with
      events := db.events.append (DB.Event.row (Redaction.redact classes) ev now) fun _ => rfl }) := by
  have hdumps : (ev.toPy.payload.redact classes).dumps = _ :=
    PyValue.dumps_redact_ofJson classes ev.payload
  rw [insertEvent, if_pos (show ev.toPy.tenantId = tenantId from htenant), hdumps]
  rfl

theorem insertEvent_foreign {tenantId : String} {ev : PyEvent} (htenant : ev.tenantId ≠ tenantId)
    (now : ℚ) (db : DB) :
    (insertEvent classes tenantId ev now).run.run db =
      (.error (DB.tenantIsolation "event tenant does not match run tenant"), db) := by
  rw [insertEvent, if_neg htenant]
  rfl

/-- The loop over JSON payloads ends where the store's does, with the same log. -/
theorem insertEvents_toPy_ok {tenantId : String} {events : List Event} {now : ℕ → ℚ} {db : DB}
    {log : EventLog}
    (h : DB.appendEvents (Redaction.redact classes) tenantId events now db.events = .ok log) :
    (insertEvents classes tenantId (events.map Event.toPy) now).run.run db =
      (.ok (), { db with events := log }) := by
  induction events generalizing now db with
  | nil =>
      cases h
      rfl
  | cons ev rest ih =>
      rw [DB.appendEvents] at h
      rw [List.map_cons, insertEvents, run_bind]
      by_cases htenant : ev.tenantId = tenantId
      · rw [if_pos htenant] at h
        rw [insertEvent_toPy htenant]
        exact @ih _ { db with events := _ } h
      · rw [if_neg htenant] at h
        cases h

/-- The loop over JSON payloads raises where the store's does. -/
theorem insertEvents_toPy_error {tenantId : String} {events : List Event} {now : ℕ → ℚ} {db : DB}
    {e : Exc}
    (h : DB.appendEvents (Redaction.redact classes) tenantId events now db.events = .error e) :
    ∃ changed, (insertEvents classes tenantId (events.map Event.toPy) now).run.run db =
      (.error e, changed) := by
  induction events generalizing now db with
  | nil => cases h
  | cons ev rest ih =>
      rw [DB.appendEvents] at h
      rw [List.map_cons, insertEvents, run_bind]
      by_cases htenant : ev.tenantId = tenantId
      · rw [if_pos htenant] at h
        rw [insertEvent_toPy htenant]
        exact @ih _ { db with events := _ } h
      · rw [if_neg htenant] at h
        cases h
        rw [insertEvent_foreign htenant]
        exact ⟨db, rfl⟩

end Statements

/-- Over JSON payloads the transaction is the one that answers the engine's calls. -/
theorem transaction_checkpoint_toPy (db : DB) (run : Run) (events : List Event) (now : ℕ → ℚ) :
    transaction (Statements.checkpoint classes run (events.map Event.toPy) now) db =
      match db.checkpoint (Redaction.redact classes) run events now with
      | .ok committed => (.ok (), committed)
      | .error e => (.error e, db) := by
  unfold transaction DB.checkpoint
  rw [Statements.checkpoint, Statements.run_bind, Statements.run_assertOwns]
  cases db.assertOwns run.tenantId run.id with
  | error e => rfl
  | ok value =>
      let updated := db.updateRuns (fun row => row.id = run.id ∧ row.tenantId = run.tenantId)
        (run.writeRow (now 0)) (run.writeRow_id (now 0)) (run.writeRow_triggerKey (now 0))
      have hrun : (Statements.updateRun run (now 0)).run.run db = (.ok (), updated) := rfl
      simp only [Statements.run_bind, hrun]
      cases hlog : DB.appendEvents (Redaction.redact classes) run.tenantId events
          (fun i => now (i + 1)) db.events with
      | ok log =>
          have hloop := @Statements.insertEvents_toPy_ok classes run.tenantId events _ updated log hlog
          rw [hloop]
          rfl
      | error e =>
          obtain ⟨changed, hchanged⟩ := @Statements.insertEvents_toPy_error classes run.tenantId events _ updated e hlog
          rw [hchanged]
          rfl

end Checkpoint

/-! ### A checkpoint that commits -/

/-- An event whose payload holds a password. -/
def secretEvent : PyEvent :=
  { runId := "run"
    tenantId := "acme"
    type := "tool_call"
    payload := .obj [("password", .str "hunter2")] }

theorem checkpoint_atomic_secret :
    CheckpointWritten CharClasses.ascii (newRow "run" "payments").toRun [secretEvent]
      (newRow "run" "payments") (DB.withRun "run" "payments")
      (transaction (Statements.checkpoint CharClasses.ascii (newRow "run" "payments").toRun
        [secretEvent] fun _ => 0) (DB.withRun "run" "payments")).2 := by
  rcases checkpoint_atomic CharClasses.ascii (DB.withRun "run" "payments")
      (newRow "run" "payments").toRun (newRow "run" "payments") [secretEvent] (fun _ => 0) rfl rfl
      (by simp [secretEvent, newRow, RunRow.toRun]) with ⟨e, herror, -⟩ | ⟨-, hwritten⟩
  · cases herror
  · exact hwritten

end Bass
