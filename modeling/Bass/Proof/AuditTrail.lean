import Bass.Proof.Noninterference
import Bass.Proof.StoreLemmas

/-!
# The audit trail

Requests over a store whose old payloads are purged at any moment. No request notices a purge: without the purges
the same requests could have made the same calls and had the same answers. And the event log is the record of the
committed calls, one row for each event, in commit order and under consecutive numbers; a purge takes payloads only.
-/

namespace Bass

open Interaction EngineM

variable {policy : PolicyEngine} {redact : Json → Json} {db db' : DB}

/-! ### Rows whose payload has been emptied -/

def EventRow.emptied (row : EventRow) : EventRow := { row with payloadJson := .obj [] }

/-- The row as it was written, or with its payload emptied. -/
def EventRow.Kept (written row : EventRow) : Prop := row = written ∨ row = written.emptied

/-- The rows of the first log, some of them emptied in the second. -/
structure EventLog.Kept (written log : EventLog) : Prop where
  rows : List.Forall₂ EventRow.Kept written.rows log.rows
  last : written.last = log.last

theorem EventLog.Kept.refl (log : EventLog) : log.Kept log :=
  ⟨List.forall₂_same.mpr fun _ _ => .inl rfl, rfl⟩

theorem EventLog.Kept.append {written log : EventLog} (h : written.Kept log) (row : Nat → EventRow)
    (hseq : ∀ n, (row n).seq = n) : (written.append row hseq).Kept (log.append row hseq) := by
  refine ⟨List.rel_append h.rows (.cons ?_ .nil), congrArg (· + 1) h.last⟩
  rw [h.last]
  exact .inl rfl

theorem EventLog.Kept.purge {written : EventLog} (h : written.Kept db.events) (tenantId : String) (before : ℚ) :
    written.Kept (db.purgeEventPayloads tenantId before).1.events := by
  refine ⟨List.forall₂_map_right_iff.mpr (h.rows.imp fun row row' hrow => ?_), h.last⟩
  split
  · rcases hrow with rfl | rfl
    · exact .inr rfl
    · exact .inr rfl
  · exact hrow

/-! ### Calls see no payload -/

def DB.withEvents (db : DB) (log : EventLog) : DB := { db with events := log }

/-- The database as it would be without the purges. -/
def DB.Purged (full db : DB) : Prop := ∃ log, full = db.withEvents log ∧ log.Kept db.events

theorem DB.Purged.refl (db : DB) : db.Purged db := ⟨db.events, rfl, .refl db.events⟩

/-- Two transactions that commit the same, purges apart, or raise the same. -/
inductive SameCommit {α : Type} : Except Exc (DB × α) → Except Exc (DB × α) → Prop where
  | commits {full out : DB} (value : α) (h : full.Purged out) : SameCommit (.ok (full, value)) (.ok (out, value))
  | raises (e : Exc) : SameCommit (.error e) (.error e)

theorem SameCommit.commit {α : Type} {full : DB} {transaction transaction' : Except Exc (DB × α)} {answer : Except Exc α}
    (h : SameCommit transaction' transaction) (hpurged : full.Purged db) (hcommits : Commits db transaction answer db') :
    ∃ full', Commits full transaction' answer full' ∧ full'.Purged db' := by
  cases h with
  | commits value hout =>
      obtain ⟨rfl, rfl⟩ := commits_of_ok hcommits
      exact ⟨_, ⟨rfl, rfl⟩, hout⟩
  | raises e =>
      obtain ⟨rfl, rfl⟩ := commits_of_error hcommits
      exact ⟨_, ⟨rfl, rfl⟩, hpurged⟩

section Aside

variable {log : EventLog} (hkept : log.Kept db.events)

include hkept

theorem sameCommit_checkpoint (run : Run) (events : List Event) (now : ℕ → ℚ) :
    SameCommit ((·, ()) <$> (db.withEvents log).checkpoint redact run events now)
      ((·, ()) <$> db.checkpoint redact run events now) := by
  have howns : (db.withEvents log).assertOwns run.tenantId run.id = db.assertOwns run.tenantId run.id := rfl
  have hwritten : (db.withEvents log).events = log := rfl
  have happend : ∀ (written log : EventLog) (ev : Event) (time : ℚ), written.Kept log →
      (written.append (DB.Event.row redact ev time) fun _ => rfl).Kept
        (log.append (DB.Event.row redact ev time) fun _ => rfl) :=
    fun _ _ _ _ hlog => hlog.append _ fun _ => rfl
  have hlogs := appendEvents_alike redact happend run.tenantId events (fun i => now (i + 1)) hkept
  unfold DB.checkpoint
  rw [howns, hwritten]
  cases db.assertOwns run.tenantId run.id with
  | error e => exact .raises e
  | ok _ =>
      rcases hlogs with ⟨out, out', hlog, hlog', hout⟩ | ⟨e, hlog, hlog'⟩
      · rw [hlog, hlog']
        exact .commits () ⟨out, rfl, hout⟩
      · rw [hlog, hlog']
        exact .raises e

theorem sameCommit_cancelRun (tenantId runId : String) (now : ℕ → ℚ) :
    SameCommit ((db.withEvents log).cancelRun tenantId runId now) (db.cancelRun tenantId runId now) := by
  have hruns : (db.withEvents log).runs = db.runs := rfl
  unfold DB.cancelRun
  rw [hruns]
  cases db.runs.find? runId with
  | none => exact .commits false ⟨log, rfl, hkept⟩
  | some row =>
      dsimp only
      by_cases htenant : row.tenantId = tenantId
      · rw [if_pos htenant, if_pos htenant]
        cases row.status.terminal with
        | true => exact .commits false ⟨log, rfl, hkept⟩
        | false => exact .commits true ⟨_, rfl, hkept.append _ fun _ => rfl⟩
      · rw [if_neg htenant, if_neg htenant]
        exact .raises _

theorem sameCommit_createApproval (tenantId runId stepId : String) (approvers : List String) (approvalId : String)
    (now : ℕ → ℚ) :
    SameCommit ((·, approvalId) <$> (db.withEvents log).createApproval tenantId runId stepId approvers approvalId now)
      ((·, approvalId) <$> db.createApproval tenantId runId stepId approvers approvalId now) := by
  have howns : (db.withEvents log).assertOwns tenantId runId = db.assertOwns tenantId runId := rfl
  have happrovals : (db.withEvents log).approvals = db.approvals := rfl
  unfold DB.createApproval
  rw [howns, happrovals]
  cases db.assertOwns tenantId runId with
  | error e => exact .raises e
  | ok _ =>
      cases db.approvals.find? approvalId with
      | none => exact .commits approvalId ⟨log, rfl, hkept⟩
      | some row => exact .raises _

theorem sameCommit_resolveApproval (tenantId approvalId : String) (approved : Bool) (decidedBy note : String)
    (now : ℕ → ℚ) :
    SameCommit ((·, ()) <$> (db.withEvents log).resolveApproval tenantId approvalId approved decidedBy note now)
      ((·, ()) <$> db.resolveApproval tenantId approvalId approved decidedBy note now) := by
  have happrovals : (db.withEvents log).approvals = db.approvals := rfl
  unfold DB.resolveApproval
  rw [happrovals]
  cases db.approvals.find? approvalId with
  | none => exact .raises _
  | some row =>
      dsimp only
      by_cases htenant : row.tenantId = tenantId
      · rw [if_pos htenant, if_pos htenant]
        exact .commits () ⟨log, rfl, hkept⟩
      · rw [if_neg htenant, if_neg htenant]
        exact .raises _

theorem insertRun_withEvents (run : Run) (now : ℕ → ℚ) :
    ∃ full, (db.withEvents log).insertRun run now = (full, (db.insertRun run now).2) ∧
      full.Purged (db.insertRun run now).1 := by
  have hconflicts : (db.withEvents log).conflicts run = db.conflicts run := rfl
  unfold DB.insertRun
  by_cases h : db.conflicts run = false
  · rw [dif_pos h, dif_pos (hconflicts.trans h)]
    exact ⟨_, rfl, log, rfl, hkept⟩
  · rw [dif_neg h, dif_neg (by rwa [hconflicts])]
    exact ⟨_, rfl, log, rfl, hkept⟩

end Aside

/-- What a call answers it could have answered without the purges, and then the databases still differ by them
alone. -/
theorem step_purged {full : DB} {op : Op} {answer : op.Res} (hpurged : full.Purged db)
    (h : op.step policy redact db answer db') :
    ∃ full', op.step policy redact full answer full' ∧ full'.Purged db' := by
  have hsame := hpurged
  obtain ⟨log, rfl, hkept⟩ := hpurged
  cases op with
  | checkpoint run events =>
      obtain ⟨now, hcommits⟩ := h
      obtain ⟨full', hstep, hpurged⟩ := (sameCommit_checkpoint hkept run events now).commit hsame hcommits
      exact ⟨full', ⟨now, hstep⟩, hpurged⟩
  | cancelRun tenantId runId =>
      obtain ⟨now, hcommits⟩ := h
      obtain ⟨full', hstep, hpurged⟩ := (sameCommit_cancelRun hkept tenantId runId now).commit hsame hcommits
      exact ⟨full', ⟨now, hstep⟩, hpurged⟩
  | createApproval tenantId runId stepId approvers =>
      obtain ⟨approvalId, now, hcommits⟩ := h
      obtain ⟨full', hstep, hpurged⟩ :=
        (sameCommit_createApproval hkept tenantId runId stepId approvers approvalId now).commit hsame hcommits
      exact ⟨full', ⟨approvalId, now, hstep⟩, hpurged⟩
  | resolveApproval tenantId approvalId approved decidedBy note =>
      obtain ⟨now, hcommits⟩ := h
      obtain ⟨full', hstep, hpurged⟩ :=
        (sameCommit_resolveApproval hkept tenantId approvalId approved decidedBy note now).commit hsame hcommits
      exact ⟨full', ⟨now, hstep⟩, hpurged⟩
  | insertRun run =>
      obtain ⟨now, hinsert⟩ := h
      obtain ⟨full', hfull, hpurged⟩ := insertRun_withEvents hkept run now
      rw [← hinsert] at hfull hpurged
      exact ⟨full', ⟨now, hfull.symm⟩, hpurged⟩
  | ensureTenant | recordEffect =>
      obtain ⟨now, rfl⟩ := h
      exact ⟨_, ⟨now, rfl⟩, log, rfl, hkept⟩
  | loadRun | loadRunByKey | getEffect | latestApproval | policyCheck =>
      obtain ⟨rfl, rfl⟩ := h
      exact ⟨_, ⟨rfl, rfl⟩, hsame⟩
  | execute =>
      obtain ⟨hraised, rfl⟩ := h
      exact ⟨_, ⟨hraised, rfl⟩, hsame⟩
  | allowRequest | stepSpan | respond | approvalFn =>
      obtain rfl := h
      exact ⟨_, rfl, hsame⟩

/-! ### What the log records -/

/-- A row that is still to be numbered and dated. -/
abbrev LogEntry : Type := ℚ → ℕ → EventRow

/-- The row of a cancellation. -/
def canceledRow (tenantId runId : String) : LogEntry := fun now seq =>
  { seq := seq
    runId := runId
    tenantId := tenantId
    stepId := none
    type := "run_canceled"
    actor := "user"
    payloadJson := .obj []
    costUsd := 0
    createdAt := now }

/-- What a call enters into the log: a checkpoint that commits its events, redacted and in order, and a cancellation
that takes place itself. -/
def Op.entries (redact : Json → Json) : (op : Op) → op.Res → List LogEntry
  | .checkpoint _ events, .ok () => events.map (DB.Event.row redact)
  | .cancelRun tenantId runId, .ok true => [canceledRow tenantId runId]
  | _, _ => []

/-- The rows are the entries, in order and under the numbers that follow `last`. -/
inductive EventRow.Records : Nat → List EventRow → List LogEntry → Prop where
  | nil (last : Nat) : Records last [] []
  | cons {last : Nat} {rows : List EventRow} {entries : List LogEntry} (entry : LogEntry) (now : ℚ)
      (tail : Records (last + 1) rows entries) :
      Records last (entry now (last + 1) :: rows) (entry :: entries)

/-- The log goes on with the entries. -/
structure EventLog.Extended (log : EventLog) (entries : List LogEntry) (log' : EventLog) : Prop where
  rows : ∃ written, log'.rows = log.rows ++ written ∧ EventRow.Records log.last written entries
  last : log'.last = log.last + entries.length

theorem EventRow.Records.append {last : Nat} {rows rows' : List EventRow} {entries entries' : List LogEntry}
    (h : Records last rows entries) (h' : Records (last + entries.length) rows' entries') :
    Records last (rows ++ rows') (entries ++ entries') := by
  induction h with
  | nil last => exact h'
  | @cons last rows entries entry now tail ih =>
      refine .cons entry now (ih ?_)
      have hlast : last + 1 + entries.length = last + (entry :: entries).length := by
        rw [List.length_cons]
        omega
      rwa [hlast]

namespace EventLog.Extended

variable {log log₁ log' : EventLog} {entries entries' : List LogEntry}

theorem refl (log : EventLog) : log.Extended [] log :=
  ⟨⟨[], (List.append_nil log.rows).symm, .nil log.last⟩, rfl⟩

theorem trans (h : log.Extended entries log₁) (h' : log₁.Extended entries' log') :
    log.Extended (entries ++ entries') log' := by
  obtain ⟨written, hrows, hrecords⟩ := h.rows
  obtain ⟨written', hrows', hrecords'⟩ := h'.rows
  rw [h.last] at hrecords'
  refine ⟨⟨written ++ written', ?_, hrecords.append hrecords'⟩, ?_⟩
  · rw [hrows', hrows, List.append_assoc]
  · rw [h'.last, h.last, List.length_append]
    omega

theorem single (log : EventLog) (entry : LogEntry) (now : ℚ) (hseq : ∀ n, (entry now n).seq = n) :
    log.Extended [entry] (log.append (entry now) hseq) :=
  ⟨⟨[entry now (log.last + 1)], rfl, .cons entry now (.nil _)⟩, rfl⟩

end EventLog.Extended

theorem extended_appendEvents {tenantId : String} {events : List Event} {now : ℕ → ℚ} {log log' : EventLog}
    (h : DB.appendEvents redact tenantId events now log = .ok log') :
    log.Extended (events.map (DB.Event.row redact)) log' := by
  induction events generalizing now log with
  | nil =>
      cases h
      exact .refl _
  | cons ev events ih =>
      rw [DB.appendEvents] at h
      split at h
      · exact (EventLog.Extended.single log (DB.Event.row redact ev) (now 0) fun _ => rfl).trans (ih h)
      · cases h

/-- A call extends the log by what it enters. -/
theorem extended_of_step {op : Op} {answer : op.Res} (h : op.step policy redact db answer db') :
    db.events.Extended (op.entries redact answer) db'.events := by
  cases op with
  | checkpoint run events =>
      obtain ⟨now, hcommits⟩ := h
      rcases commits_map_cases hcommits with ⟨hcp, rfl⟩ | ⟨e, -, rfl, rfl⟩
      · exact extended_appendEvents (DB.checkpoint_ok hcp).2.1
      · exact .refl _
  | cancelRun tenantId target =>
      obtain ⟨now, hcommits⟩ := h
      rcases hcommits.cases with ⟨canceled, htx, rfl⟩ | ⟨e, -, rfl, rfl⟩
      · unfold DB.cancelRun at htx
        split at htx
        · cases htx
          exact .refl _
        · split at htx
          · split at htx
            · cases htx
              exact .refl _
            · cases htx
              exact .single _ (canceledRow tenantId target) (now 1) fun _ => rfl
          · cases htx
      · exact .refl _
  | createApproval tenantId runId stepId approvers =>
      obtain ⟨approvalId, now, hcommits⟩ := h
      rcases commits_map_cases hcommits with ⟨hca, -⟩ | ⟨e, -, -, rfl⟩
      · rw [(DB.createApproval_ok hca).2.2.2.1]
        exact .refl _
      · exact .refl _
  | resolveApproval tenantId approvalId approved decidedBy note =>
      obtain ⟨now, hcommits⟩ := h
      rcases commits_map_cases hcommits with ⟨hra, -⟩ | ⟨e, -, -, rfl⟩
      · rw [(DB.resolveApproval_ok hra).2.2.1]
        exact .refl _
      · exact .refl _
  | insertRun run =>
      obtain ⟨now, hinsert⟩ := h
      unfold DB.insertRun at hinsert
      split at hinsert <;> cases hinsert <;> exact .refl _
  | ensureTenant | recordEffect =>
      obtain ⟨now, rfl⟩ := h
      exact .refl _
  | loadRun | loadRunByKey | getEffect | latestApproval | policyCheck | execute =>
      obtain ⟨-, rfl⟩ := h
      exact .refl _
  | allowRequest | stepSpan | respond | approvalFn =>
      obtain rfl := h
      exact .refl _

/-! ### Runs of requests with purges -/

/-- Runs of requests between whose calls old payloads are purged. -/
abbrev System.PurgedRun (d : Deployment) (redact : Json → Json) :
    System → List (Pool.Label Request Call Call.Res) → System → Prop :=
  Pool.Run (Call.step d.engine.policy redact) (Request.program d)
    fun db db' => ∃ tenantId before, db' = (db.purgeEventPayloads tenantId before).1

/-- What the calls of a run enter into the log, in the order they commit. -/
def System.entries (redact : Json → Json) : List (Pool.Label Request Call Call.Res) → List LogEntry
  | [] => []
  | .call _ call answer :: labels => call.op.entries redact answer ++ entries redact labels
  | _ :: labels => entries redact labels

variable {d : Deployment} {labels : List (Pool.Label Request Call Call.Res)} {c c' : System}

theorem entries_filter_isMove (labels : List (Pool.Label Request Call Call.Res)) :
    System.entries redact (labels.filter Pool.Label.isMove) = System.entries redact labels := by
  induction labels with
  | nil => rfl
  | cons label labels ih =>
      cases label with
      | call i call answer => exact congrArg (call.op.entries redact answer ++ ·) ih
      | spawn | crash | env => exact ih

theorem extended_of_run (h : System.Run d redact c labels c') :
    c.shared.events.Extended (System.entries redact labels) c'.shared.events := by
  induction h with
  | nil c => exact .refl _
  | cons head _ ih =>
      cases head with
      | call hthread hstep => exact (extended_of_step hstep).trans ih
      | spawn | crash => exact ih
      | env henv => exact henv.elim

/-- **The audit trail.** Whatever is purged between the calls of any number of requests, crashes included: without
the purges the requests could have made the same calls with the same answers, to a database that differs in emptied
payloads alone, and whose log goes on with the events of the committed calls. -/
theorem audit_trail (h : System.PurgedRun d redact c labels c') :
    ∃ full, System.Run d redact c (labels.filter Pool.Label.isMove) ⟨c'.threads, full⟩ ∧
      full.Purged c'.shared ∧ c.shared.events.Extended (System.entries redact labels) full.events := by
  have hstep : ∀ (full : DB) (db : DB) (call : Call) (answer : call.Res) (db' : DB), full.Purged db →
      Call.step d.engine.policy redact db call answer db' →
      ∃ full', Call.step d.engine.policy redact full call answer full' ∧ full'.Purged db' :=
    fun _ _ _ _ _ hpurged hcall => step_purged hpurged hcall
  have henv : ∀ full db db' : DB, full.Purged db →
      (∃ tenantId before, db' = (db.purgeEventPayloads tenantId before).1) → full.Purged db' := by
    rintro full db db' ⟨log, rfl, hkept⟩ ⟨tenantId, before, rfl⟩
    exact ⟨log, rfl, hkept.purge tenantId before⟩
  obtain ⟨full, hrun, hpurged⟩ := h.without_env hstep henv (DB.Purged.refl c.shared)
  refine ⟨full, hrun, hpurged, ?_⟩
  rw [← entries_filter_isMove]
  exact extended_of_run hrun

/-! ### A purge between two runs -/

def beforePurge : List (Pool.Label Request Call Call.Res) × System :=
  System.play payDeployment id (.constant .null)
    (.spawn (.runnerResume "acme" "run") :: List.replicate 7 (.call 0)) ⟨[], DB.withRun "run" "payments"⟩

/-- The run has succeeded and its payloads are purged; another one is created and canceled before it starts. -/
def afterPurge : List (Pool.Label Request Call Call.Res) × System :=
  System.play payDeployment id (.constant .null)
    (.spawn (.apiFire "acme" "second" "payments" Table.empty) :: List.replicate 6 (.call 1) ++
      [.spawn (.apiCancel "acme" "second"), .call 2])
    ⟨beforePurge.2.threads, (beforePurge.2.shared.purgeEventPayloads "acme" 1).1⟩

def purgedLabels : List (Pool.Label Request Call Call.Res) := beforePurge.1 ++ [.env] ++ afterPurge.1

theorem audit_trail_purged :
    (afterPurge.2.shared.events.rows.map fun row => (row.seq, row.type, row.payloadJson.isEmptyObj)) =
      [(1, "state_transition", true), (2, "policy_decision", true), (3, "tool_result", true),
        (4, "run_succeeded", true), (5, "run_canceled", true)] ∧
    ∃ full, System.Run payDeployment id ⟨[], DB.withRun "run" "payments"⟩
        (purgedLabels.filter Pool.Label.isMove) ⟨afterPurge.2.threads, full⟩ ∧
      full.Purged afterPurge.2.shared ∧
      (DB.withRun "run" "payments").events.Extended (System.entries id purgedLabels) full.events := by
  have hbefore : System.PurgedRun payDeployment id ⟨[], DB.withRun "run" "payments"⟩ beforePurge.1 beforePurge.2 :=
    Pool.play_run (fun db call => call.op.serve_step _ id (.constant .null) db) _ _
  have hafter : System.PurgedRun payDeployment id
      ⟨beforePurge.2.threads, (beforePurge.2.shared.purgeEventPayloads "acme" 1).1⟩ afterPurge.1 afterPurge.2 :=
    Pool.play_run (fun db call => call.op.serve_step _ id (.constant .null) db) _ _
  exact ⟨by decide +kernel, audit_trail ((hbefore.append (.single (.env ⟨"acme", 1, rfl⟩))).append hafter)⟩

end Bass
