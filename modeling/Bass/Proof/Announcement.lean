import Bass.Proof.Bill
import Bass.Proof.Billing
import Bass.Proof.Redrive
import Bass.Redaction

/-!
# Which approval a waiting run waits for

A client learns the id of an approval from the `approval_requested` event in the run's trace. The
approval is stored first, the event with the next checkpoint, so an attempt that ends in between
leaves an approval that no event announces; the next attempt finds it pending and stores the run as
waiting without announcing it.
-/

namespace Bass

open Interaction EngineM Redaction

variable {d : Deployment} {classes : CharClasses} {runId : String}

/-! ### Announcements -/

def Json.field? (value : Json) (name : String) : Option Json :=
  match value with
  | .obj fields => (fields.find? fun field => field.1 = name).map Prod.snd
  | _ => none

/-- The event announces the approval of a run. -/
def EventRow.Announces (row : EventRow) (approvalId : String) : Prop :=
  row.type = "approval_requested" ∧ row.payloadJson.field? "approval_id" = some (.str approvalId)

/-- The event log announces the approval under the run and its tenant. -/
def DB.Announced (db : DB) (tenantId runId approvalId : String) : Prop :=
  ∃ row ∈ db.events.rows, row.runId = runId ∧ row.tenantId = tenantId ∧ row.Announces approvalId

/-- An event that `_await_approval` emits for the approval. -/
def Event.Announces (ev : Event) (tenantId runId approvalId : String) : Prop :=
  ev.runId = runId ∧ ev.tenantId = tenantId ∧ ev.type = "approval_requested" ∧
    ∃ approvers tool args, ev.payload = WorkflowEngine.approvalRequested approvalId approvers tool args

theorem redact_approvalRequested {approvalId : String} (h : NewId "appr" approvalId)
    (approvers : List String) (tool : String) (args : Args) :
    (redact classes (WorkflowEngine.approvalRequested approvalId approvers tool args)).field?
      "approval_id" = some (.str approvalId) := by
  have hkey : isSecretKey "approval_id" = false := by decide
  simp only [WorkflowEngine.approvalRequested, redact, redactFields, hkey, Json.field?]
  simp [scrubStr_newId classes h]

theorem announced_of_stored {db : DB} {tenantId approvalId : String} {ev : Event}
    (hid : NewId "appr" approvalId) (hev : ev.Announces tenantId runId approvalId)
    (hstored : Stored (redact classes) db ev) : db.Announced tenantId runId approvalId := by
  obtain ⟨now, seq, hmem⟩ := hstored
  obtain ⟨hrun, htenant, htype, approvers, tool, args, hpayload⟩ := hev
  refine ⟨_, hmem, hrun, htenant, htype, ?_⟩
  change (redact classes ev.payload).field? "approval_id" = _
  rw [hpayload]
  exact redact_approvalRequested hid approvers tool args

theorem DB.Announced.mono {db db' : DB} {tenantId approvalId : String}
    (h : db.Announced tenantId runId approvalId) (hgrow : db.events.rows <+: db'.events.rows) :
    db'.Announced tenantId runId approvalId := by
  obtain ⟨row, hmem, hrow⟩ := h
  exact ⟨row, hgrow.subset hmem, hrow⟩

theorem mem_of_listEvents {db : DB} {tenantId : String} {trace : List EventRow} {ev : EventRow}
    (h : db.listEvents tenantId runId = .ok trace) (hev : ev ∈ trace) : ev ∈ db.events.rows := by
  unfold DB.listEvents at h
  cases howns : db.assertOwns tenantId runId with
  | error e => simp [howns, bind, Except.bind] at h
  | ok value =>
      simp only [howns, bind, Except.bind, pure, Except.pure, Except.ok.injEq] at h
      rw [← h] at hev
      exact (List.mem_filter.mp hev).1

/-- A run that is stored as waiting announces, in its trace, the approval that it waits for: the
latest one of the step its cursor is at. -/
def Disclosed (runId : String) (db : DB) : Prop :=
  ∀ row, db.runs.find? runId = some row → row.status = .waitingApproval →
    ∃ stepId approvalId status trace, row.cursorStep = some stepId ∧
      db.latestApproval row.tenantId runId stepId = some (approvalId, status) ∧
      db.listEvents row.tenantId runId = .ok trace ∧ ∃ ev ∈ trace, ev.Announces approvalId

/-! ### Requests that are not announced yet -/

/-- The approval that a call creates for the run. -/
def Op.requested (runId : String) : (op : Op) → op.Res → List (String × String)
  | .createApproval tenantId owner _ _, .ok approvalId =>
      if owner = runId then [(tenantId, approvalId)] else []
  | _, _ => []

/-- The approvals that were requested since the last checkpoint of the attempt under way. -/
abbrev unannounced (h : Session.History runId) : List (String × String) :=
  (bill (Op.requested runId) h).pending

/-- The id of the approval that a label creates. -/
def Session.drawn? : Session.Label runId → Option String
  | .call ⟨_, .createApproval ..⟩ (.ok approvalId) => some approvalId
  | _ => none

def Session.starts : Session.Label runId → Bool
  | .start _ => true
  | _ => false

def Session.purges : Session.Label runId → Bool
  | .env (.purge ..) => true
  | _ => false

/-- The cursor and the step, when the engine is about to wait for an approval of that step. -/
def Session.waitsAt? : Session.Label runId → Option (Option String × String)
  | .call ⟨m, .latestApproval _ _ stepId⟩ answer =>
      if ∀ found ∈ answer, found.2 = .pending then some (m.run.cursorStep, stepId) else none
  | _ => none

theorem Session.waitsAt?_of_pending {m : Mem} {tenantId owner stepId : String}
    {answer : Option (String × ApprovalStatus)} (h : ∀ found ∈ answer, found.2 = .pending) :
    Session.waitsAt? (.call ⟨m, .latestApproval tenantId owner stepId⟩ answer : Session.Label runId) =
      some (m.run.cursorStep, stepId) :=
  if_pos h

/-- The ids of approvals are drawn by `new_id`, and no event payload is purged. -/
def Drawn (label : Session.Label runId) : Prop :=
  (∀ approvalId ∈ Session.drawn? label, NewId "appr" approvalId) ∧ Session.purges label = false

/-- No attempt is abandoned between a request and the checkpoint that announces it, and the engine
only waits at the step where the cursor is. -/
def Attended (h : Session.History runId) (label : Session.Label runId) : Prop :=
  (Session.starts label = true → unannounced h = []) ∧
    ∀ waiting ∈ Session.waitsAt? label, waiting.1 = some waiting.2

instance (h : Session.History runId) (label : Session.Label runId) : Decidable (Attended h label) :=
  inferInstanceAs (Decidable (_ ∧ _))

theorem unannounced_append_env (h : Session.History runId) (events : List Outside) :
    unannounced (h ++ events.map Serial.Label.env) = unannounced h := by
  rw [unannounced, bill_append_env]

theorem unannounced_of_rejected {h h' : Session.History runId} {m : Mem} {op : Op} {answer : op.Res}
    (hrejected : op.accepted answer = false) (hh : h' = h ++ [.call ⟨m, op⟩ answer]) :
    unannounced h' = unannounced h ++ op.requested runId answer := by
  rw [hh, unannounced, bill_append_singleton, Bill.step_pending hrejected]

theorem unannounced_of_accepted {h h' : Session.History runId} {m : Mem} {run : Run}
    {events : List Event} (hh : h' = h ++ [.call ⟨m, .checkpoint run events⟩ (.ok ())]) :
    unannounced h' = [] := by
  rw [hh, unannounced, bill_append_singleton, Bill.step_accepted rfl]

/-- Every latest approval of the run is announced or about to be, and a waiting run waits for an
announced one. -/
structure Announcements (x : DB × Session.History runId) : Prop where
  latest : ∀ tenantId stepId approvalId,
    x.1.latestId tenantId runId stepId = some approvalId →
      x.1.Announced tenantId runId approvalId ∨ (tenantId, approvalId) ∈ unannounced x.2
  waiting : ∀ row, x.1.runs.find? runId = some row → row.status = .waitingApproval →
    ∃ stepId approvalId, row.cursorStep = some stepId ∧
      x.1.latestId row.tenantId runId stepId = some approvalId ∧
      x.1.Announced row.tenantId runId approvalId

theorem Announcements.disclosed {x : DB × Session.History runId} (h : Announcements x) :
    Disclosed runId x.1 := by
  intro row hrow hstatus
  obtain ⟨stepId, approvalId, hcursor, hlatest, ev, hmem, hrun, htenant, hannounces⟩ :=
    h.waiting row hrow hstatus
  obtain ⟨⟨found, status⟩, hfound, rfl⟩ := Option.map_eq_some_iff.mp hlatest
  have howns : x.1.assertOwns row.tenantId runId = .ok () := by
    rw [DB.assertOwns, hrow]
    exact if_pos rfl
  refine ⟨stepId, found, status, x.1.events.rows.filter fun ev =>
    ev.runId = runId ∧ ev.tenantId = row.tenantId, hcursor, hfound, ?_, ev, ?_, hannounces⟩
  · rw [DB.listEvents, howns]
    rfl
  · exact List.mem_filter.mpr ⟨hmem, by simp [hrun, htenant]⟩

/-! ### The specification of an attempt -/

/-- The driver holds its run, and its buffer announces what it has requested. -/
structure Announcing (runId : String) (m : Mem) (x : DB × Session.History runId) : Prop where
  id : m.run.id = runId
  stored : ∃ row, x.1.runs.find? runId = some row ∧ row.tenantId = m.run.tenantId
  buffered : ∀ request ∈ unannounced x.2, request.1 = m.run.tenantId ∧ NewId "appr" request.2 ∧
    ∃ ev ∈ m.buffer, ev.Announces request.1 runId request.2

/-- A checkpoint announces what was requested, and stores the run as waiting only at a step with an
approval; an approval is only created for a step that has none. -/
def Forthcoming (x : DB × Session.History runId) (call : Call) : Prop :=
  match call.op with
  | .checkpoint run events => Announcing runId ⟨run, events⟩ x ∧
      (run.status = .waitingApproval → ∃ stepId approvalId, run.cursorStep = some stepId ∧
        x.1.latestId run.tenantId runId stepId = some approvalId)
  | .createApproval tenantId owner stepId _ =>
      owner = runId ∧ x.1.latestId tenantId runId stepId = none
  | .insertRun run => run.status ≠ .waitingApproval
  | _ => True

/-- What others leave as it is between two calls. -/
structure Unwatched (x y : DB × Session.History runId) : Prop where
  kept : Kept runId x.1 y.1
  grows : x.1.events.rows <+: y.1.events.rows
  latest : ∀ tenantId stepId, y.1.latestId tenantId runId stepId = x.1.latestId tenantId runId stepId
  history : ∃ events : List Outside, y.2 = x.2 ++ events.map Serial.Label.env

theorem Unwatched.unannounced {x y : DB × Session.History runId} (h : Unwatched x y) :
    unannounced y.2 = unannounced x.2 := by
  obtain ⟨events, hh⟩ := h.history
  rw [hh, unannounced_append_env]

def announceSpec (d : Deployment) (classes : CharClasses) (runId : String) :
    Spec Call Call.Res (DB × Session.History runId) :=
  { step := fun x call answer y =>
      (Announcements x ∧ Drawn (.call call answer : Session.Label runId) ∧
        Attended x.2 (.call call answer)) ∧
          Serial.recorded (Call.step d.engine.policy (redact classes)) x call answer y
    rely := Unwatched
    guar := Forthcoming }

/-- Whatever a call does, what is requested gets announced. -/
theorem announcements_of_step {x y : DB × Session.History runId} {m : Mem} {op : Op} {answer : op.Res}
    (h : Announcements x) (hforth : Forthcoming x ⟨m, op⟩)
    (hs : Serial.recorded (Call.step d.engine.policy (redact classes)) x ⟨m, op⟩ answer y) :
    Announcements y := by
  obtain ⟨hstep, hh⟩ := hs
  have hop : op.step d.engine.policy (redact classes) x.1 answer y.1 := hstep
  have hgrow := events_of_step hop
  have hcommitted : op.accepted answer = true → ∀ tenantId approvalId,
      (tenantId, approvalId) ∈ unannounced x.2 → y.1.Announced tenantId runId approvalId := by
    intro haccepted tenantId approvalId hmem
    obtain ⟨run, events, heq⟩ := Op.eq_checkpoint_of_accepted haccepted
    cases heq
    obtain ⟨-, hid, ev, hev, hannounces⟩ := hforth.1.buffered _ hmem
    exact announced_of_stored hid hannounces (stored_of_checkpoint hop hev)
  have hlatest : ∀ tenantId stepId approvalId,
      y.1.latestId tenantId runId stepId = some approvalId →
        y.1.Announced tenantId runId approvalId ∨ (tenantId, approvalId) ∈ unannounced y.2 := by
    intro tenantId stepId approvalId hfound
    rcases latestId_of_step hop tenantId runId stepId with hsame | ⟨approvers, newId, heq⟩
    · rw [hsame] at hfound
      rcases h.latest tenantId stepId approvalId hfound with hann | hmem
      · exact Or.inl (hann.mono hgrow)
      · cases haccepted : op.accepted answer with
        | true => exact Or.inl (hcommitted haccepted tenantId approvalId hmem)
        | false =>
            rw [unannounced_of_rejected haccepted hh]
            exact Or.inr (List.mem_append_left _ hmem)
    · cases heq
      rw [latestId_of_createApproval hop hforth.2] at hfound
      cases hfound
      rw [unannounced_of_rejected rfl hh]
      exact Or.inr (List.mem_append_right _ (by simp [Op.requested]))
  refine ⟨hlatest, fun row' hrow' hstatus => ?_⟩
  cases hfind : x.1.runs.find? runId with
  | none =>
      rcases absent_of_step hop hfind with hnone | ⟨run, now, heq, hid, hnew⟩
      · rw [hnone] at hrow'
        cases hrow'
      · cases heq
        rw [hnew] at hrow'
        cases hrow'
        exact absurd hstatus hforth
  | some row =>
      rcases runRow_of_step hop hfind with hsame | ⟨run, events, now, rfl, hid, htenant, hwritten⟩ |
        ⟨tenantId, now, -, -, hcanceled⟩
      · rw [hsame] at hrow'
        cases hrow'
        obtain ⟨stepId, approvalId, hcursor, hfound, hann⟩ := h.waiting row' hfind hstatus
        refine ⟨stepId, approvalId, hcursor, ?_, hann.mono hgrow⟩
        rcases latestId_of_step hop row'.tenantId runId stepId with hsame | ⟨_, _, heq⟩
        · rw [hsame, hfound]
        · cases heq
          rw [hforth.2] at hfound
          cases hfound
      · rw [hwritten] at hrow'
        cases hrow'
        cases answer with
        | error e =>
            have hdb : y.1 = x.1 := same_of_checkpoint_error hop
            rw [hdb] at hwritten ⊢
            exact h.waiting _ hwritten hstatus
        | ok value =>
            have hwaiting : run.status = .waitingApproval := hstatus
            obtain ⟨stepId, approvalId, hcursor, hfound⟩ := hforth.2 hwaiting
            rw [← htenant] at hfound
            have hsame : y.1.latestId row.tenantId runId stepId =
                x.1.latestId row.tenantId runId stepId := by
              rcases latestId_of_step hop row.tenantId runId stepId with hsame | ⟨_, _, heq⟩
              · exact hsame
              · cases heq
            refine ⟨stepId, approvalId, hcursor, hsame.trans hfound, ?_⟩
            rcases h.latest _ _ _ hfound with hann | hmem
            · exact hann.mono hgrow
            · exact hcommitted rfl _ _ hmem
      · rw [hcanceled] at hrow'
        cases hrow'
        cases hstatus

theorem forthcoming_of_acting {x : DB × Session.History runId} {m : Mem} {op : Op} (hop : op.Acting) :
    Forthcoming x ⟨m, op⟩ := by
  cases op <;> trivial

theorem Op.Acting.requested {op : Op} (hop : op.Acting) (answer : op.Res) :
    op.requested runId answer = [] := by
  cases op <;> first | rfl | exact hop.elim

namespace Announcing

theorem grow {m m' : Mem} {x : DB × Session.History runId} (h : Announcing runId m x)
    (hid : m'.run.id = m.run.id) (htenant : m'.run.tenantId = m.run.tenantId)
    (hbuffer : m.buffer <+: m'.buffer) : Announcing runId m' x where
  id := hid.trans h.id
  stored := by rw [htenant]; exact h.stored
  buffered := by
    intro request hmem
    obtain ⟨howner, hdrawn, ev, hev, hannounces⟩ := h.buffered request hmem
    exact ⟨by rw [htenant]; exact howner, hdrawn, ev, hbuffer.subset hev, hannounces⟩

theorem memory {m m' : Mem} {x : DB × Session.History runId} (h : Announcing runId m x)
    (hsame : SameIdent m m') : Announcing runId m' x :=
  h.grow hsame.id hsame.tenantId hsame.buffer

theorem rely {m : Mem} {x y : DB × Session.History runId} (h : Announcing runId m x)
    (hrely : Unwatched x y) : Announcing runId m y where
  id := h.id
  stored := by
    obtain ⟨row, hrow, htenant⟩ := h.stored
    obtain ⟨row', hrow', hsame, -⟩ := hrely.kept.row row hrow
    exact ⟨row', hrow', hsame.tenantId.trans htenant⟩
  buffered := by rw [hrely.unannounced]; exact h.buffered

theorem call {m : Mem} {x y : DB × Session.History runId} {op : Op} {answer : op.Res}
    (h : Announcing runId m x) (hs : (announceSpec d classes runId).step x ⟨m, op⟩ answer y)
    (hop : op.Inner) (hfree : op.requested runId answer = []) : Announcing runId m y where
  id := h.id
  stored := by
    obtain ⟨row, hrow, htenant⟩ := h.stored
    exact ⟨row, find_of_inner hop hs.2.1 hrow, htenant⟩
  buffered := by
    rw [unannounced_of_rejected (hop.rejected answer) hs.2.2, hfree, List.append_nil]
    exact h.buffered

/-- A checkpoint of a run that is not waiting, or waits for an approval that it announces. -/
theorem checkpoint {m : Mem} {x : DB × Session.History runId} (h : Announcing runId m x)
    (hwaiting : m.run.status = .waitingApproval → ∃ stepId approvalId,
      m.run.cursorStep = some stepId ∧ x.1.latestId m.run.tenantId runId stepId = some approvalId) :
    Act.wp (announceSpec d classes runId) EngineM.checkpoint
      (fun _ m' y => m' = { m with buffer := [] } ∧ Announcing runId m' y)
      (fun e m' y => m' = m ∧ Announcing runId m y ∧ ∃ message, e = DB.tenantIsolation message) m x := by
  refine wp_checkpoint.mpr fun x₁ hrely => ?_
  have h₁ := h.rely hrely
  refine ⟨⟨h₁, fun hstatus => ?_⟩, fun answer y hs => ?_⟩
  · obtain ⟨stepId, approvalId, hcursor, hlatest⟩ := hwaiting hstatus
    exact ⟨stepId, approvalId, hcursor, (hrely.latest _ _).trans hlatest⟩
  · obtain ⟨-, hs, hh⟩ := hs
    cases answer with
    | ok value =>
        obtain ⟨row, hrow, htenant⟩ := h₁.stored
        obtain rfl := h₁.id
        obtain ⟨now, hrow'⟩ := row_of_checkpoint hs hrow
        refine ⟨rfl, rfl, ⟨_, hrow', htenant⟩, ?_⟩
        rw [unannounced_of_accepted hh]
        exact fun _ hmem => absurd hmem List.not_mem_nil
    | error e =>
        have hdb : y.1 = x₁.1 := same_of_checkpoint_error hs
        refine ⟨rfl, ⟨h₁.id, by rw [hdb]; exact h₁.stored, ?_⟩, isolation_of_checkpoint hs⟩
        rw [unannounced_of_rejected rfl hh]
        simpa [Op.requested] using h₁.buffered

end Announcing

/-- A driver that is not about to pause. -/
def Active (runId : String) (m : Mem) (x : DB × Session.History runId) : Prop :=
  Announcing runId m x ∧ m.run.status ≠ .waitingApproval

/-- After an exception that the engine goes on from the run is not left waiting. -/
def Stopped (runId : String) (e : Exc) (m : Mem) (x : DB × Session.History runId) : Prop :=
  Announcing runId m x ∧
    (e.isPolicyDenied = true ∨ e.isConnectorError = true → m.run.status ≠ .waitingApproval)

theorem Active.stopped {m : Mem} {x : DB × Session.History runId} (h : Active runId m x) (e : Exc) :
    Stopped runId e m x :=
  ⟨h.1, fun _ => h.2⟩

theorem Active.inPlace {m m' : Mem} {x : DB × Session.History runId} (h : Active runId m x)
    (hplace : InPlace m m') : Active runId m' x :=
  ⟨h.1.memory hplace.toSameIdent, by rw [hplace.status]; exact h.2⟩

theorem active_acting {op : Op} (hop : op.Acting) :
    Act.Keeps (announceSpec d classes runId) (Active runId) (perform op) :=
  Act.keeps_perform fun _ _ h _ hrely => ⟨forthcoming_of_acting hop, fun answer _ hs =>
    ⟨(h.1.rely hrely).call hs hop.inStep.inner (hop.requested answer), h.2⟩⟩

theorem active_checkpoint :
    Act.Keeps (announceSpec d classes runId) (Active runId) EngineM.checkpoint := by
  rintro m x ⟨h, hstatus⟩
  refine Act.wp_mono _ ?_ ?_ (h.checkpoint fun hwaiting => absurd hwaiting hstatus)
  · rintro - m' y ⟨rfl, h'⟩
    exact ⟨h', hstatus⟩
  · rintro e m' y ⟨rfl, h', -⟩
    exact ⟨h', hstatus⟩

/-- A driver that has set its run waiting for an approval stores that and pauses. -/
theorem pauses_checkpoint {m : Mem} {x : DB × Session.History runId} (h : Announcing runId m x)
    (hwaiting : ∃ stepId approvalId, m.run.cursorStep = some stepId ∧
      x.1.latestId m.run.tenantId runId stepId = some approvalId) (approvalId : String)
    {Q : Bool → Mem → DB × Session.History runId → Prop} :
    Act.wp (announceSpec d classes runId) (do
      EngineM.checkpoint
      throw (.paused approvalId)) Q (Stopped runId) m x := by
  refine (Act.wp_bind _ _).mpr (Act.wp_mono _ ?_ ?_ (h.checkpoint fun _ => hwaiting))
  · rintro - m' y ⟨-, h'⟩
    exact ⟨h', by rintro (hdenied | hconnector) <;> contradiction⟩
  · rintro e m' y ⟨rfl, h', message, rfl⟩
    exact ⟨h', by rintro (hdenied | hconnector) <;> contradiction⟩

theorem stopped_awaitAsync (step : Step) (approvers : List String) (tool : String) (args : Args) :
    Act.Leaves (announceSpec d classes runId) (Active runId) (Stopped runId)
      (WorkflowEngine.awaitAsync step approvers tool args) := by
  rintro m x ⟨h, hstatus⟩
  refine (wp_getRun_bind _).mpr ((Act.wp_perform_bind _ _).mpr fun x₁ hrely => ⟨trivial, fun found y hs => ?_⟩)
  have hy : Announcing runId m y := (h.rely hrely).call hs trivial rfl
  obtain ⟨⟨-, -, hattended⟩, ⟨hanswer, hdb⟩, -⟩ := hs
  have hlatest : y.1.latestId m.run.tenantId runId step.id = found.map Prod.fst := by
    rw [DB.latestId, hdb, hanswer, h.id]
  cases found with
  | none =>
      have hcursor : m.run.cursorStep = some step.id :=
        hattended.2 _ (Session.waitsAt?_of_pending (by rintro _ ⟨⟩))
      refine (Act.wp_perform_bind _ _).mpr fun x₂ hrely' => ⟨⟨h.id, ?_⟩, fun created z hs => ?_⟩
      · rw [hrely'.latest, hlatest]
        rfl
      · have hx₂ := hy.rely hrely'
        refine (Act.wp_ofExcept_bind _ _).mpr ?_
        cases created with
        | error e => exact ⟨hx₂.call hs trivial rfl, fun _ => hstatus⟩
        | ok approvalId =>
            obtain ⟨⟨-, hdrawn, -⟩, hcreate, hh⟩ := hs
            have hop : (Op.createApproval m.run.tenantId m.run.id step.id approvers).Inner := trivial
            obtain ⟨row, hrow, htenant⟩ := hx₂.stored
            have hnone : x₂.1.latestId m.run.tenantId m.run.id step.id = none := by
              rw [h.id, hrely'.latest, hlatest]
              rfl
            have hnew := latestId_of_createApproval hcreate hnone
            rw [h.id] at hnew
            refine (wp_modifyRun_bind _ _).mpr ((wp_emit_bind _ _ _ _ _ _).mpr ?_)
            refine pauses_checkpoint ?_ ?_ approvalId
            · refine ⟨h.id, ⟨row, find_of_inner hop hcreate hrow, htenant⟩, ?_⟩
              rw [unannounced_of_rejected rfl hh]
              intro request hmem
              rcases List.mem_append.mp hmem with hold | hadded
              · obtain ⟨howner, hid, ev, hev, hannounces⟩ := hx₂.buffered request hold
                exact ⟨howner, hid, ev, List.mem_append_left _ hev, hannounces⟩
              · obtain rfl : request = (m.run.tenantId, approvalId) := by
                  simpa [Op.requested, h.id] using hadded
                exact ⟨rfl, hdrawn.1 _ rfl, _, List.mem_append_right _ List.mem_cons_self, h.id, rfl, rfl,
                  approvers, tool, args, rfl⟩
            · exact ⟨step.id, approvalId, hcursor, hnew⟩
  | some found =>
      obtain ⟨approvalId, status⟩ := found
      dsimp only
      split
      · rename_i hpending
        have hcursor : m.run.cursorStep = some step.id := by
          refine hattended.2 _ (Session.waitsAt?_of_pending fun other hmem => ?_)
          cases hmem
          exact hpending
        have hwaiting : Announcing runId { m with run := { m.run with status := .waitingApproval } } y :=
          hy.memory ⟨rfl, rfl, rfl, rfl, rfl, rfl, List.prefix_rfl⟩
        exact (wp_modifyRun_bind _ _).mpr (pauses_checkpoint hwaiting ⟨step.id, approvalId, hcursor, hlatest⟩ approvalId)
      · exact (wp_emit_bind _ _ _ _ _ _).mpr
          ⟨hy.memory ⟨rfl, rfl, rfl, rfl, rfl, rfl, List.prefix_append _ _⟩, hstatus⟩

theorem announce_handlers {cfg : EngineConfig} (hasync : cfg.approvalFn = false) (wf : Workflow) :
    Handlers cfg wf (announceSpec d classes runId) (Active runId) (Stopped runId) := by
  refine handlers_inPlace (fun e _ _ h => h.stopped e) (fun _ _ _ hplace h => h.inPlace hplace)
    (fun _ hop => active_acting hop) wf fun step approvers tool args => ?_
  rw [WorkflowEngine.awaitApproval, if_neg (by simp [hasync])]
  exact stopped_awaitAsync step approvers tool args

/-- Failing a run, from wherever an exception has left it. -/
theorem active_failRun (reason detail : String) {m : Mem} {x : DB × Session.History runId}
    (h : Announcing runId m x) :
    Act.wp (announceSpec d classes runId) (WorkflowEngine.failRun reason detail)
      (fun _ => Active runId) (fun _ => Active runId) m x := by
  refine (wp_modifyRun_bind _ _).mpr ((wp_emit_bind _ _ _ _ _ _).mpr (active_checkpoint _ x ⟨?_, nofun⟩))
  exact h.memory ⟨rfl, rfl, rfl, rfl, rfl, rfl, List.prefix_append _ _⟩

/-- Compensation may end in a pause, which is swallowed. -/
theorem announcing_compensate {cfg : EngineConfig} (hasync : cfg.approvalFn = false) (wf : Workflow)
    (step : Step) {m : Mem} {x : DB × Session.History runId} (h : Active runId m x) :
    Act.wp (announceSpec d classes runId) (WorkflowEngine.compensate cfg wf step)
      (fun _ => Announcing runId) (fun _ => Announcing runId) m x := by
  unfold WorkflowEngine.compensate
  split
  · exact h.1
  · rename_i comp hcomp
    refine (wp_emit_bind _ _ _ _ _ _).mpr ((Act.wp_tryCatch _ _).mpr ((Act.wp_bind _ _).mpr ?_))
    refine Act.wp_mono _ (fun _ _ _ h' => h'.1) (fun e m' y h' => ?_)
      ((announce_handlers hasync wf).runStep (hasStep_of_compensation hcomp) _ x
        (h.inPlace ⟨⟨rfl, rfl, rfl, rfl, rfl, rfl, List.prefix_append _ _⟩, rfl, rfl⟩))
    exact h'.1.memory ⟨rfl, rfl, rfl, rfl, rfl, rfl, List.prefix_append _ _⟩

theorem announce_outline {cfg : EngineConfig} (hasync : cfg.approvalFn = false) (wf : Workflow) :
    Outline cfg wf (announceSpec d classes runId) (fun _ => Active runId) (fun _ => Active runId)
      (fun _ _ => Active runId) (fun _ => Stopped runId) (fun _ _ _ => True) where
  unknown := fun _ _ _ _ _ => trivial
  budget := fun _ _ _ _ _ _ h _ =>
    Act.wp_mono _ (fun _ _ _ _ => trivial) (fun _ _ _ _ => trivial) (active_failRun _ _ h.1)
  enter := by
    intro _ step m x _ h _
    refine (wp_modifyRun_bind _ _).mpr ((wp_emit_bind _ _ _ _ _ _).mpr ((Act.wp_perform _).mpr ?_))
    refine fun x₁ hrely => ⟨trivial, fun answer y hs => ⟨?_, h.2⟩⟩
    have hgrown : Announcing runId
        { run := { m.run with stepsUsed := m.run.stepsUsed + 1 }
          buffer := m.buffer ++ [⟨m.run.id, m.run.tenantId, "state_transition",
            .obj [("entering_step", .str step.id), ("type", .str step.nodeType.value)], some step.id,
            "system", 0⟩] } x := h.1.grow rfl rfl (List.prefix_append _ _)
    exact (hgrown.rely hrely).call hs trivial rfl
  run := fun step m x hstep _ h => (announce_handlers hasync wf).runStep hstep m x h
  retry := by
    intro step e attempt m x _ hconnector h
    have hactive : Active runId m x := ⟨h.1, h.2 (Or.inr hconnector)⟩
    have hplace : InPlace m { m with buffer := m.buffer ++ [⟨m.run.id, m.run.tenantId, "step_retry",
        WorkflowEngine.retryPayload step attempt e, some step.id, "system", 0⟩] } :=
      ⟨⟨rfl, rfl, rfl, rfl, rfl, rfl, List.prefix_append _ _⟩, rfl, rfl⟩
    exact ⟨hactive.inPlace hplace, (hactive.inPlace hplace).stopped e⟩
  exhausted := fun _ _ _ h => h.stopped _
  denied := fun _ _ _ _ _ _ h =>
    Act.wp_mono _ (fun _ _ _ _ => trivial) (fun _ _ _ _ => trivial) (active_failRun _ _ h.1)
  failed := by
    intro step e m x _ hconnector h
    refine (Act.wp_bind _ _).mpr (Act.wp_mono _ (fun _ m' y h' => ?_) (fun _ _ _ _ => trivial)
      (announcing_compensate hasync wf step ⟨h.1, h.2 (Or.inr hconnector)⟩))
    exact Act.wp_mono _ (fun _ _ _ _ => trivial) (fun _ _ _ _ => trivial) (active_failRun _ _ h')
  other := fun _ _ _ _ _ _ _ _ => trivial
  finish := by
    intro step next m x _ h
    refine (wp_modifyRun_bind _ _).mpr ?_
    split
    · refine (wp_modifyRun_bind _ _).mpr ((wp_modifyRun_bind _ _).mpr ((wp_getRun_bind _).mpr
        ((wp_emit_bind _ _ _ _ _ _).mpr ?_)))
      exact Act.wp_mono _ (fun _ _ _ h' => h') (fun _ _ _ _ => trivial)
        (active_checkpoint _ x ⟨h.1.grow rfl rfl (List.prefix_append _ _), nofun⟩)
    · exact Act.wp_mono _ (fun _ _ _ h' => h') (fun _ _ _ _ => trivial)
        (active_checkpoint _ x ⟨h.1.grow rfl rfl List.prefix_rfl, h.2⟩)

/-! ### Sessions -/

/-- No request is under way. -/
def NoRequest (x : DB × Session.History runId) : Prop := unannounced x.2 = []

theorem unannounced_of_service {h h' : Session.History runId} {m : Mem} {op : Op} {answer : op.Res}
    (hh : h' = h ++ [.call ⟨m, op⟩ answer]) (hop : op.Service) : unannounced h' = unannounced h := by
  have hrejected : op.accepted answer = false := by
    cases op <;> first | rfl | exact hop.elim
  have hfree : op.requested runId answer = [] := by
    cases op <;> first | rfl | exact hop.elim
  rw [unannounced_of_rejected hrejected hh, hfree, List.append_nil]

theorem announce_entry (hasync : d.engine.approvalFn = false) (attempt : Attempt runId) :
    Entry d (announceSpec d classes runId) NoRequest (Announcing runId) attempt.request where
  rely := fun x y hnone hrely => hrely.unannounced.trans hnone
  early := fun x m op answer y hnone hs hop _ => (unannounced_of_service hs.2.2 hop).trans hnone
  service := by
    intro x m op hop hwanted
    cases op with
    | insertRun run =>
        obtain ⟨-, -, -, hstatus⟩ := wanted_ident (hwanted run rfl)
        change run.status ≠ .waitingApproval
        rw [hstatus]
        nofun
    | checkpoint run events => exact hop.elim
    | createApproval tenantId owner stepId approvers => exact hop.elim
    | _ => trivial
  loaded := by
    rintro x m tenantId run y hnone - ⟨-, hload, hh⟩
    obtain ⟨hid, row, -, hrow, rfl⟩ := attempt.loaded hload
    refine ⟨hid, ⟨row, hrow, rfl⟩, ?_⟩
    rw [unannounced_of_service hh trivial, hnone]
    exact fun _ hmem => absurd hmem List.not_mem_nil
  created := by
    rintro x m run y hnone - hwanted ⟨-, hs, hh⟩
    obtain ⟨hid, -, now, hrow⟩ := attempt.inserted hwanted hs
    refine ⟨hid, ⟨_, hrow, rfl⟩, ?_⟩
    rw [unannounced_of_service hh trivial, hnone]
    exact fun _ hmem => absurd hmem List.not_mem_nil
  resolve := fun tenantId approvalId approved decidedBy note =>
    Act.keeps_perform fun m x h x₁ hrely =>
      ⟨trivial, fun answer y hs => (h.rely hrely).call hs trivial rfl⟩
  fired := fun m x payload h => h.grow rfl rfl (List.prefix_append _ _)
  resume := by
    rintro cfg wf m x hcfg - h
    have hsync : cfg.approvalFn = false := by
      rcases hcfg with rfl | rfl
      · exact hasync
      · rfl
    exact (announce_outline hsync wf).drives fun _ => ⟨h.grow rfl rfl List.prefix_rfl, nofun⟩

/-- What others do to the run changes neither its announcements nor the latest approvals. -/
theorem unwatched_of_outside {db db' : DB} {h : Session.History runId} {event : Outside}
    (hdrawn : Drawn (.env event : Session.Label runId))
    (henv : event.step d.engine.policy (redact classes) runId db db') :
    Unwatched (db, h) (db', h ++ [.env event]) := by
  cases event with
  | purge tenantId before => cases hdrawn.2
  | call op answer =>
      refine ⟨kept_of_outside henv, events_of_step henv.2, fun tenantId stepId => ?_,
        [.call op answer], rfl⟩
      rcases latestId_of_step henv.2 tenantId runId stepId with hsame | ⟨approvers, approvalId, heq⟩
      · exact hsame
      · cases heq
        exact absurd rfl henv.1

theorem Announcements.unwatched {x y : DB × Session.History runId} (h : Announcements x)
    (hrely : Unwatched x y) : Announcements y where
  latest := by
    intro tenantId stepId approvalId hfound
    rw [hrely.latest] at hfound
    rcases h.latest tenantId stepId approvalId hfound with hann | hmem
    · exact Or.inl (hann.mono hrely.grows)
    · rw [hrely.unannounced]
      exact Or.inr hmem
  waiting := by
    intro row' hrow' hstatus
    cases hfind : x.1.runs.find? runId with
    | none =>
        rw [hrely.kept.absent hfind] at hrow'
        cases hrow'
    | some row =>
        obtain ⟨row₁, hrow₁, hsame, hkept⟩ := hrely.kept.row row hfind
        obtain rfl : row₁ = row' := Option.some.inj (hrow₁.symm.trans hrow')
        rcases hkept with hkept | hcanceled
        · obtain ⟨stepId, approvalId, hcursor, hlatest, hann⟩ :=
            h.waiting row hfind (hkept ▸ hstatus)
          refine ⟨stepId, approvalId, hsame.cursorStep.trans hcursor, ?_, ?_⟩
          · rw [hrely.latest, hsame.tenantId]
            exact hlatest
          · rw [hsame.tenantId]
            exact hann.mono hrely.grows
        · rw [hcanceled] at hstatus
          cases hstatus

theorem Unwatched.trans {x y z : DB × Session.History runId} (h : Unwatched x y)
    (h' : Unwatched y z) : Unwatched x z where
  kept := h.kept.trans h'.kept
  grows := h.grows.trans h'.grows
  latest := fun tenantId stepId => (h'.latest tenantId stepId).trans (h.latest tenantId stepId)
  history := by
    obtain ⟨events, hh⟩ := h.history
    obtain ⟨events', hh'⟩ := h'.history
    exact ⟨events ++ events', by rw [hh', hh, List.map_append, List.append_assoc]⟩

theorem announce_discipline (hasync : d.engine.approvalFn = false) (classes : CharClasses)
    (runId : String) :
    Serial.Discipline (Call.step d.engine.policy (redact classes))
      (fun attempt : Attempt runId => attempt.request.program d)
      (fun db (event : Outside) db' => event.step d.engine.policy (redact classes) runId db db')
      (fun h label => Drawn label ∧ Attended h label) Announcements (announceSpec d classes runId)
      (fun _ => True) where
  allowed := fun _ _ _ _ hx _ hlabel hrec => ⟨⟨hx, hlabel⟩, hrec⟩
  refl := fun x _ => ⟨Kept.refl runId x.1, List.prefix_rfl, fun _ _ => rfl, [], (List.append_nil _).symm⟩
  trans := fun _ _ _ h h' => h.trans h'
  stable := fun _ _ _ _ => trivial
  call := fun _ _ _ _ hx hforth _ hrec => announcements_of_step hx hforth hrec
  env := by
    intro db h event db' hx hlabel henv
    have hrely : Unwatched (db, h) (db', h ++ [.env event]) := unwatched_of_outside hlabel.1 henv
    exact ⟨hx.unwatched hrely, hrely⟩
  start := by
    rintro db h attempt hx ⟨-, hnone, -⟩
    have hstarted : unannounced (h ++ [.start attempt]) = [] := by
      rw [unannounced, bill_append_singleton]
      rfl
    refine ⟨⟨fun tenantId stepId approvalId hfound => ?_, hx.waiting⟩,
      (announce_entry hasync attempt).program attempt.driver hstarted⟩
    refine Or.inl ((hx.latest tenantId stepId approvalId hfound).resolve_right ?_)
    have hempty : unannounced h = [] := hnone rfl
    rw [hempty]
    exact List.not_mem_nil

/-- **Announced approvals.** A run that waits for an approval announces it in its trace, in every
state of a session in which no attempt is abandoned between a request and its announcement and the
engine waits at the step of the cursor only. -/
theorem waiting_disclosed {db : DB} {labels : Session.History runId} {c : Session}
    (hasync : d.engine.approvalFn = false)
    (hrequests : ∀ row ∈ db.approvals.rows, row.runId ≠ runId)
    (hstatus : ∀ row, db.runs.find? runId = some row → row.status ≠ .waitingApproval)
    (hrun : Session.Run d (redact classes) runId (Session.idle db) labels c)
    (hdrawn : ∀ label ∈ labels, Drawn label) (hattended : Serial.Permitted Attended [] labels) :
    Disclosed runId c.shared := by
  have hnothing : ∀ tenantId stepId, db.latestId tenantId runId stepId = none := by
    intro tenantId stepId
    rw [latestId_eq, Option.map_eq_none_iff, List.filter_eq_nil_iff.mpr]
    · rfl
    · intro row hrow
      simp [hrequests row hrow]
  have hinit : Announcements (db, ([] : Session.History runId)) := by
    refine ⟨fun tenantId stepId approvalId hfound => ?_, fun row hrow hwaiting =>
      absurd hwaiting (hstatus row hrow)⟩
    rw [hnothing] at hfound
    cases hfound
  have hok : Serial.Permitted (fun h label => Drawn label ∧ Attended h label)
      ([] : Session.History runId) labels := fun before label after heq =>
    ⟨hdrawn label (by simp [heq]), hattended before label after heq⟩
  exact (hrun.good (announce_discipline hasync classes runId) hok (.idle hinit trivial)).inv.disclosed

/-! ### A request that nobody learns of -/

/-- The first approval is drawn as this one. -/
def World.drawing (approvalId : String) : World := { World.constant .null with newId := fun _ => approvalId }

def gatedFire : Attempt "run" :=
  { request := .orchestratorFire "acme" "run" (gatedWorkflow 1 payStep)
      (Dict.ofList [("id", .str "invoice")]) []
    driver := rfl
    run := rfl
    fresh := rfl }

def gatedResume : Attempt "run" :=
  { request := .runnerResume "acme" "run"
    driver := rfl
    run := rfl
    fresh := rfl }

abbrev playGated (moves : List (Serial.Move (Attempt "run") Outside)) : Session.History "run" × Session :=
  Session.play waitingDeployment (redact CharClasses.ascii) (.drawing "appr_000000000000") moves
    (Session.idle DB.empty)

/-- The fired run pauses at its gate. -/
def announced : Session.History "run" × Session :=
  playGated (.start gatedFire :: List.replicate 5 .call)

/-- The attempt that fired it ends before its first checkpoint, and a worker takes the run up. -/
def missed : Session.History "run" × Session :=
  playGated (.start gatedFire :: List.replicate 4 .call ++ .start gatedResume :: List.replicate 4 .call)

theorem playGated_run (moves : List (Serial.Move (Attempt "run") Outside))
    (hmoves : ∀ op answer, .env (.call op answer) ∉ moves) :
    Session.Run waitingDeployment (redact CharClasses.ascii) "run" (Session.idle DB.empty)
      (playGated moves).1 (playGated moves).2 :=
  Session.play_run _ _ _ moves hmoves _

theorem newId_zeros : NewId "appr" "appr_000000000000" :=
  ⟨List.replicate 12 '0', rfl, List.forall_iff_forall_mem.mp (by decide), rfl⟩

theorem drawn_playGated {moves : List (Serial.Move (Attempt "run") Outside)}
    (hids : ∀ approvalId ∈ (playGated moves).1.filterMap Session.drawn?, approvalId = "appr_000000000000")
    (hpurges : (playGated moves).1.any Session.purges = false) :
    ∀ label ∈ (playGated moves).1, Drawn label := by
  intro label hlabel
  refine ⟨fun approvalId hid => ?_, ?_⟩
  · rw [hids approvalId (List.mem_filterMap.mpr ⟨label, hlabel, hid⟩)]
    exact newId_zeros
  · simpa using List.any_eq_false.mp hpurges label hlabel

/-- A run that is fired and waits at its gate announces what it waits for. -/
theorem waiting_disclosed_announced : Disclosed "run" announced.2.shared :=
  waiting_disclosed (d := waitingDeployment) rfl (fun _ hrow => absurd hrow List.not_mem_nil)
    (fun _ hrow => by cases hrow) (playGated_run _ (by simp))
    (drawn_playGated (by decide +kernel) (by decide +kernel)) (by decide +kernel)

/-- A request that an attempt did not live to announce is never announced. -/
theorem waiting_undisclosed :
    Session.Run waitingDeployment (redact CharClasses.ascii) "run" (Session.idle DB.empty)
        missed.1 missed.2 ∧
      (∀ label ∈ missed.1, Drawn label) ∧ waitingDeployment.engine.approvalFn = false ∧
      ¬Disclosed "run" missed.2.shared := by
  refine ⟨playGated_run _ (by simp), drawn_playGated (by decide +kernel) (by decide +kernel), rfl,
    fun hdisclosed => ?_⟩
  have hstored : (missed.2.shared.runs.find? "run").map (fun row => (row.status, row.tenantId)) =
      some (.waitingApproval, "acme") := by decide +kernel
  have hsilent : missed.2.shared.events.rows.any (fun row => row.type = "approval_requested") = false := by
    decide +kernel
  obtain ⟨row, hrow, hcolumns⟩ := Option.map_eq_some_iff.mp hstored
  obtain ⟨hstatus, -⟩ := Prod.mk.inj hcolumns
  obtain ⟨stepId, approvalId, status, trace, -, -, htrace, ev, hev, htype, -⟩ := hdisclosed row hrow hstatus
  exact absurd htype (by simpa using List.any_eq_false.mp hsilent ev (mem_of_listEvents htrace hev))

end Bass
