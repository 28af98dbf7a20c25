import Bass.Proof.Isolation
import Bass.Proof.Ceiling
import Bass.Proof.Replay

/-!
# Passages through gates

An engine without an approval callback goes by the latest approval of the step it stands in, whenever that
was requested. A gate is passed on an approval of the same visit as long as the cursor comes to no step
that an approval has been requested for before; where it comes back to one, the old decision lets it
through.
-/

namespace Bass

open Interaction EngineM

variable {d : Deployment} {redact : Json → Json} {wf : Workflow} {runId : String}

/-! ### What a history says of the gates -/

/-- The approvals requested for the run, those of them requested since the cursor last moved, whether the
last policy decision in the visit required an approval, and the approvals found granted in the visit. An
approval is listed with its step. -/
structure GateLog where
  requested : List (String × String) := []
  current : List (String × String) := []
  required : Bool := false
  granted : List (String × String) := []

def GateLog.after (log : GateLog) : Session.Label runId → GateLog
  | .start _ => { log with required := false, granted := [] }
  | .call ⟨_, .stepSpan _⟩ _ => { log with required := false, granted := [] }
  | .call ⟨_, .policyCheck ..⟩ decision => { log with required := decision.effect = .requireApproval }
  | .call ⟨_, .createApproval _ _ stepId _⟩ (.ok approvalId) =>
      { log with
        requested := log.requested ++ [(stepId, approvalId)]
        current := log.current ++ [(stepId, approvalId)] }
  | .call ⟨_, .latestApproval _ _ stepId⟩ (some (approvalId, .approved)) =>
      { log with granted := log.granted ++ [(stepId, approvalId)] }
  | .call ⟨_, .checkpoint run _⟩ (.ok _) => if run.status = .running then { log with current := [] } else log
  | _ => log

def Session.gateLog (h : Session.History runId) : GateLog := h.foldl GateLog.after {}

theorem gateLog_append (h : Session.History runId) (label : Session.Label runId) :
    Session.gateLog (h ++ [label]) = (Session.gateLog h).after label := List.foldl_append

theorem gateLog_append_env (h : Session.History runId) (events : List Outside) :
    Session.gateLog (h ++ events.map Serial.Label.env) = Session.gateLog h := by
  induction events generalizing h with
  | nil => rw [List.map_nil, List.append_nil]
  | cons event events ih =>
      rw [List.map_cons, ← List.singleton_append, ← List.append_assoc, ih, gateLog_append]
      rfl

theorem visit_append_envs (h : Session.History runId) (events : List Outside) :
    Session.visit (h ++ events.map Serial.Label.env) = Session.visit h := by
  induction events generalizing h with
  | nil => rw [List.map_nil, List.append_nil]
  | cons event events ih =>
      rw [List.map_cons, ← List.singleton_append, ← List.append_assoc, ih, visit_append_env]

namespace GateLog

/-- The step is a gate: an approval step, or a tool step that the policy requires an approval for. -/
def Gates (log : GateLog) (step : Step) : Prop :=
  step.nodeType = .approval ∨ step.nodeType = .tool ∧ log.required = true

/-- An approval of the step was requested since the cursor came to it, and found granted in the visit. -/
def Licenses (log : GateLog) (stepId : String) : Prop :=
  ∃ approvalId, (stepId, approvalId) ∈ log.current ∧ (stepId, approvalId) ∈ log.granted

/-- What the policy required is there. -/
def Clear (log : GateLog) (stepId : String) : Prop := log.required = true → log.Licenses stepId

end GateLog

/-- A gate is only passed with a license: the cursor does not move on from it, and the tool of the step does
not act. -/
def Op.Passes (visit : Option (Mem × Step)) (log : GateLog) : Op → Prop
  | .checkpoint run _ => run.status = .running ∨ run.status = .succeeded →
      ∀ m₀ step, visit = some (m₀, step) → log.Gates step → log.Licenses step.id
  | .execute (.step stepId) _ _ => ∀ m₀ step, visit = some (m₀, step) → stepId = step.id → log.Clear step.id
  | _ => True

/-- The step that the cursor comes to. -/
def Session.arrival? (wf : Workflow) : Session.Label runId → Option Step
  | .call ⟨_, .checkpoint run _⟩ (.ok _) =>
      if run.status = .running then wf.steps.get? (run.cursorStep.getD wf.start) else none
  | _ => none

/-- The cursor comes to no step that an approval has been requested for. -/
def FirstArrival (wf : Workflow) (h : Session.History runId) (label : Session.Label runId) : Prop :=
  ∀ step ∈ Session.arrival? wf label, ∀ request ∈ (Session.gateLog h).requested, request.1 ≠ step.id

instance (wf : Workflow) (h : Session.History runId) (label : Session.Label runId) :
    Decidable (FirstArrival wf h label) :=
  inferInstanceAs (Decidable (∀ step ∈ Session.arrival? wf label,
    ∀ request ∈ (Session.gateLog h).requested, request.1 ≠ step.id))

/-! ### What the log keeps -/

/-- The cursor moves. -/
def Op.Moves (op : Op) : op.Res → Prop :=
  match op with
  | .checkpoint run _ => fun answer => run.status = .running ∧ answer = .ok ()
  | _ => fun _ => False

/-- The calls inside a step that say nothing about its gate. -/
def Op.Unlogged : Op → Prop
  | .getEffect .. | .recordEffect .. | .resolveApproval .. | .respond .. | .execute .. | .approvalFn .. => True
  | _ => False

theorem gateLog_of_unlogged {h h' : Session.History runId} {m : Mem} {op : Op} {answer : op.Res}
    (hh : h' = h ++ [.call ⟨m, op⟩ answer]) (hop : op.Unlogged) :
    Session.gateLog h' = Session.gateLog h := by
  rw [hh, gateLog_append]
  cases op <;> first | rfl | exact hop.elim

theorem requested_after (log : GateLog) (label : Session.Label runId) :
    log.requested ⊆ (log.after label).requested := by
  unfold GateLog.after
  split <;> first | exact List.subset_append_left _ _ | (split <;> exact List.Subset.refl _) | exact List.Subset.refl _

theorem current_after (log : GateLog) {m : Mem} {op : Op} {answer : op.Res} (hstays : ¬op.Moves answer) :
    log.current ⊆ (log.after (.call ⟨m, op⟩ answer : Session.Label runId)).current := by
  cases op with
  | createApproval =>
      cases answer with
      | ok approvalId => exact List.subset_append_left _ _
      | error e => exact List.Subset.refl _
  | latestApproval =>
      cases answer with
      | none => exact List.Subset.refl _
      | some found =>
          obtain ⟨approvalId, status⟩ := found
          cases status <;> exact List.Subset.refl _
  | checkpoint run events =>
      cases answer with
      | ok value =>
          change log.current ⊆ (if run.status = .running then { log with current := [] } else log).current
          rw [if_neg fun hrunning => hstays ⟨hrunning, rfl⟩]
          exact List.Subset.refl _
      | error e => exact List.Subset.refl _
  | _ => exact List.Subset.refl _

/-- Every approval of the run for the step is listed. -/
def RequestsIn (runId stepId : String) (listed : List (String × String)) (db : DB) : Prop :=
  ∀ row ∈ db.approvals.rows, row.runId = runId → row.stepId = stepId → (stepId, row.id) ∈ listed

section Requests

variable {stepId : String} {listed listed' : List (String × String)} {db db' : DB}

theorem RequestsIn.of_subjects (h : RequestsIn runId stepId listed db)
    (hsubjects : (db'.approvals.rows.filter fun row => row.runId = runId).map ApprovalRow.subject =
      (db.approvals.rows.filter fun row => row.runId = runId).map ApprovalRow.subject)
    (hlisted : listed ⊆ listed') : RequestsIn runId stepId listed' db' := by
  intro row hrow hrun hstep
  have hmem : row.subject ∈ (db'.approvals.rows.filter fun row => row.runId = runId).map ApprovalRow.subject :=
    List.mem_map_of_mem (List.mem_filter.mpr ⟨hrow, by simp [hrun]⟩)
  rw [hsubjects] at hmem
  obtain ⟨old, hold, hsame⟩ := List.mem_map.mp hmem
  obtain ⟨hid, hrest⟩ := Prod.mk.inj hsame
  obtain ⟨hrun', hrest⟩ := Prod.mk.inj hrest
  rw [← hid]
  exact hlisted (h old (List.mem_filter.mp hold).1 (hrun'.trans hrun) ((Prod.mk.inj hrest).2.trans hstep))

/-- What is requested in a call is listed after it. -/
theorem RequestsIn.of_step {policy : PolicyEngine} {op : Op} {answer : op.Res}
    (h : RequestsIn runId stepId listed db) (hlisted : listed ⊆ listed')
    (hcreated : ∀ tenantId owner stepId' approvers approvalId,
      (⟨op, answer⟩ : (op : Op) × op.Res) = ⟨.createApproval tenantId owner stepId' approvers, .ok approvalId⟩ →
        (stepId', approvalId) ∈ listed')
    (hs : op.step policy redact db answer db') : RequestsIn runId stepId listed' db' := by
  by_cases hop : ∃ tenantId stepId' approvers, op = .createApproval tenantId runId stepId' approvers
  · intro row hrow hrun hstep
    rcases approvals_cases hs with hsame | ⟨_, _, _, _, _, _, heq, hadded⟩ | ⟨_, _, _, _, _, _, rfl, -⟩
    · rw [hsame] at hrow
      exact hlisted (h row hrow hrun hstep)
    · rw [hadded] at hrow
      rcases List.mem_append.mp hrow with hold | hnew
      · exact hlisted (h row hold hrun hstep)
      · obtain rfl := List.mem_singleton.mp hnew
        have hlast := hcreated _ _ _ _ _ heq
        rwa [← hstep]
    · obtain ⟨_, _, _, heq⟩ := hop
      cases heq
  · refine h.of_subjects (approvals_of_step hs ?_) hlisted
    exact fun tenantId stepId' approvers heq => hop ⟨tenantId, stepId', approvers, heq⟩

end Requests

/-! ### The specification of an attempt -/

/-- Every approval of the step under the cursor was requested since the cursor came there. -/
def AtPlace (wf : Workflow) (cursor : Option String) (x : DB × Session.History runId) : Prop :=
  ∀ step, wf.steps.get? (cursor.getD wf.start) = some step →
    RequestsIn runId step.id (Session.gateLog x.2).current x.1

structure GateInv (wf : Workflow) (x : DB × Session.History runId) : Prop where
  workflow : OfWorkflow wf runId x.1
  requested : ∀ stepId, RequestsIn runId stepId (Session.gateLog x.2).requested x.1
  absent : x.1.runs.find? runId = none → (Session.gateLog x.2).requested = []
  place : ∀ row, x.1.runs.find? runId = some row → row.status.terminal = false → AtPlace wf row.cursorStep x

/-- What the driver owes. -/
def Minds (wf : Workflow) (x : DB × Session.History runId) (call : Call) : Prop :=
  call.op.Passes (Session.visit x.2) (Session.gateLog x.2) ∧
    match call.op with
    | .checkpoint run _ => run.id = runId ∧ (∃ row, x.1.runs.find? runId = some row) ∧ run.status ≠ .pending ∧
        (run.status = .waitingApproval → AtPlace wf run.cursorStep x)
    | .createApproval .. => ∃ row, x.1.runs.find? runId = some row
    | .insertRun run => run.workflowId = wf.id
    | _ => True

def gateSpec (d : Deployment) (redact : Json → Json) (wf : Workflow) (runId : String) :
    Spec Call Call.Res (DB × Session.History runId) :=
  { step := fun x call answer y => (GateInv wf x ∧ GateInv wf y) ∧
      Serial.recorded (Call.step d.engine.policy redact) x call answer y
    rely := fun x y => Kept runId x.1 y.1 ∧
      ∃ events : List Outside, y.2 = x.2 ++ events.map Serial.Label.env
    guar := Minds wf }

theorem created_after (log : GateLog) {m : Mem} {op : Op} {answer : op.Res} {tenantId owner stepId : String}
    {approvers : List String} {approvalId : String}
    (h : (⟨op, answer⟩ : (op : Op) × op.Res) = ⟨.createApproval tenantId owner stepId approvers, .ok approvalId⟩) :
    (stepId, approvalId) ∈ (log.after (.call ⟨m, op⟩ answer : Session.Label runId)).requested ∧
      (stepId, approvalId) ∈ (log.after (.call ⟨m, op⟩ answer : Session.Label runId)).current := by
  cases h
  exact ⟨List.mem_append_right _ List.mem_cons_self, List.mem_append_right _ List.mem_cons_self⟩

/-- As long as the cursor stays, so do the approvals that were requested since it came. -/
theorem AtPlace.of_step {policy : PolicyEngine} {x y : DB × Session.History runId} {cursor : Option String}
    {m : Mem} {op : Op} {answer : op.Res} (h : AtPlace wf cursor x) (hstays : ¬op.Moves answer)
    (hs : Serial.recorded (Call.step policy redact) x ⟨m, op⟩ answer y) : AtPlace wf cursor y := by
  intro step hget
  rw [hs.2, gateLog_append]
  exact (h step hget).of_step (current_after _ hstays)
    (fun _ _ _ _ _ heq => (created_after _ heq).2) hs.1

theorem AtPlace.rely {x y : DB × Session.History runId} {cursor : Option String} (h : AtPlace wf cursor x)
    (hrely : (gateSpec d redact wf runId).rely x y) : AtPlace wf cursor y := by
  obtain ⟨hkept, events, hh⟩ := hrely
  intro step hget
  rw [hh, gateLog_append_env]
  exact (h step hget).of_subjects hkept.approvals (List.Subset.refl _)

/-- A call by the rules keeps the invariant, if the cursor comes to a new step. -/
theorem gateInv_of_step {policy : PolicyEngine} {x y : DB × Session.History runId} {m : Mem} {op : Op}
    {answer : op.Res} (h : GateInv wf x) (hminds : Minds wf x ⟨m, op⟩)
    (harrival : FirstArrival wf x.2 (.call ⟨m, op⟩ answer))
    (hs : Serial.recorded (Call.step policy redact) x ⟨m, op⟩ answer y) : GateInv wf y := by
  have hop : op.step policy redact x.1 answer y.1 := hs.1
  have hlog : Session.gateLog y.2 = (Session.gateLog x.2).after (.call ⟨m, op⟩ answer : Session.Label runId) := by
    rw [hs.2, gateLog_append]
  have hrequested : ∀ stepId, RequestsIn runId stepId (Session.gateLog y.2).requested y.1 := by
    intro stepId
    rw [hlog]
    exact (h.requested stepId).of_step (requested_after _ _) (fun _ _ _ _ _ heq => (created_after _ heq).1) hop
  refine ⟨ofWorkflow_of_step h.workflow ?_ hop, hrequested, fun hnone => ?_, fun row' hrow' hopen => ?_⟩
  · rintro run rfl
    exact hminds.2
  · have hold : x.1.runs.find? runId = none := by
      rw [← Option.not_isSome_iff_eq_none]
      intro hsome
      have hkept := isSome_run_of_step hop hsome
      rw [hnone] at hkept
      cases hkept
    have hnothing := h.absent hold
    rw [hlog]
    cases op with
    | createApproval =>
        obtain ⟨row, hrow⟩ := hminds.2
        rw [hold] at hrow
        cases hrow
    | checkpoint =>
        obtain ⟨-, ⟨row, hrow⟩, -⟩ := hminds.2
        rw [hold] at hrow
        cases hrow
    | latestApproval =>
        cases answer with
        | none => exact hnothing
        | some found =>
            obtain ⟨approvalId, status⟩ := found
            cases status <;> exact hnothing
    | _ => exact hnothing
  · by_cases hmoves : op.Moves answer
    · cases op with
      | checkpoint run events =>
          obtain ⟨hrunning, rfl⟩ := hmoves
          obtain ⟨rfl, ⟨row, hrow⟩, -⟩ := hminds.2
          obtain ⟨now, hwritten⟩ := row_of_checkpoint hop hrow
          obtain rfl := Option.some.inj (hwritten.symm.trans hrow')
          intro step hget approval hmem hrun hstep
          change wf.steps.get? (run.cursorStep.getD wf.start) = some step at hget
          have harrived : step ∈ Session.arrival? wf (.call ⟨m, .checkpoint run events⟩ (.ok ()) : Session.Label run.id) := by
            rw [Session.arrival?, if_pos hrunning, hget]
            rfl
          have hlisted := (h.requested step.id).of_step (List.Subset.refl _) (by rintro _ _ _ _ _ ⟨⟩) hop approval hmem hrun hstep
          exact absurd rfl (harrival step harrived _ hlisted)
      | _ => exact hmoves.elim
    · cases hfind : x.1.runs.find? runId with
      | none =>
          intro step hget
          have hnothing := h.requested step.id
          rw [h.absent hfind] at hnothing
          rw [hlog]
          exact hnothing.of_step (List.nil_subset _) (fun _ _ _ _ _ heq => (created_after _ heq).2) hop
      | some row =>
          rcases runRow_of_step hop hfind with hsame | ⟨run, events, now, rfl, hid, -, hwritten⟩ |
            ⟨tenantId, now, rfl, -, hcanceled⟩
          · obtain rfl := Option.some.inj (hsame.symm.trans hrow')
            exact (h.place row hfind hopen).of_step hmoves hs
          · cases answer with
            | error e =>
                rw [same_of_checkpoint_error hop, hfind] at hrow'
                obtain rfl := Option.some.inj hrow'
                exact (h.place row hfind hopen).of_step hmoves hs
            | ok value =>
                obtain rfl := Option.some.inj (hwritten.symm.trans hrow')
                obtain ⟨-, -, hpending, hwaiting⟩ := hminds.2
                refine (hwaiting ?_).of_step hmoves hs
                change run.status.terminal = false at hopen
                have hstill : run.status ≠ .running := fun hrunning => hmoves ⟨hrunning, rfl⟩
                cases hstatus : run.status <;> simp_all [RunStatus.terminal]
          · obtain rfl := Option.some.inj (hcanceled.symm.trans hrow')
            cases hopen

/-! ### A driver of the run -/

structure GateDriver (wf : Workflow) (m : Mem) (x : DB × Session.History runId) : Prop where
  holds : Holds runId m x
  workflow : m.run.workflowId = wf.id
  place : AtPlace wf m.run.cursorStep x

/-- The driver stands in the step under the cursor. -/
structure GateVisit (wf : Workflow) (step : Step) (m : Mem) (x : DB × Session.History runId) : Prop
    extends GateDriver wf m x where
  here : wf.steps.get? (m.run.cursorStep.getD wf.start) = some step
  visit : ∃ m₀, Session.visit x.2 = some (m₀, step)

/-- The driver stands in the step, is not about to pause, and knows `P` of the gate. -/
structure Working (wf : Workflow) (step : Step) (P : GateLog → Prop) (m : Mem)
    (x : DB × Session.History runId) : Prop extends GateVisit wf step m x where
  running : m.run.status = .running
  known : P (Session.gateLog x.2)

/-- After an exception that the step is tried again for, the driver is as it was. -/
def Thrown (wf : Workflow) (step : Step) (P : GateLog → Prop) (e : Exc) (m : Mem)
    (x : DB × Session.History runId) : Prop :=
  GateVisit wf step m x ∧ (e.isConnectorError = true → Working wf step P m x)

section Visit

variable {cfg : EngineConfig} {step : Step} {P : GateLog → Prop} {m m' : Mem}
  {x y : DB × Session.History runId}

theorem GateDriver.rely (h : GateDriver wf m x) (hrely : (gateSpec d redact wf runId).rely x y) :
    GateDriver wf m y := by
  obtain ⟨hid, row, hrow⟩ := h.holds
  obtain ⟨row', hrow', -⟩ := hrely.1.row row hrow
  exact ⟨⟨hid, row', hrow'⟩, h.workflow, h.place.rely hrely⟩

theorem GateDriver.memory (h : GateDriver wf m x) (hid : m'.run.id = m.run.id)
    (hworkflow : m'.run.workflowId = m.run.workflowId) (hcursor : m'.run.cursorStep = m.run.cursorStep) :
    GateDriver wf m' x :=
  ⟨⟨hid.trans h.holds.1, h.holds.2⟩, hworkflow.trans h.workflow, by rw [hcursor]; exact h.place⟩

theorem GateVisit.rely (h : GateVisit wf step m x) (hrely : (gateSpec d redact wf runId).rely x y) :
    GateVisit wf step m y := by
  refine ⟨h.toGateDriver.rely hrely, h.here, ?_⟩
  obtain ⟨-, events, hh⟩ := hrely
  rw [hh, visit_append_envs]
  exact h.visit

theorem GateVisit.memory (h : GateVisit wf step m x) (hid : m'.run.id = m.run.id)
    (hworkflow : m'.run.workflowId = m.run.workflowId) (hcursor : m'.run.cursorStep = m.run.cursorStep) :
    GateVisit wf step m' x :=
  ⟨h.toGateDriver.memory hid hworkflow hcursor, by rw [hcursor]; exact h.here, h.visit⟩

theorem Op.InStep.not_moves {op : Op} (hop : op.InStep) (answer : op.Res) : ¬op.Moves answer := by
  cases op <;> first | exact id | exact hop.elim

theorem GateVisit.call {op : Op} {answer : op.Res} (h : GateVisit wf step m x) (hop : op.InStep)
    (hs : (gateSpec d redact wf runId).step x ⟨m, op⟩ answer y) : GateVisit wf step m y := by
  obtain ⟨hid, row, hrow⟩ := h.holds
  refine ⟨⟨⟨hid, row, find_of_inner hop.inner hs.2.1 hrow⟩, h.workflow, ?_⟩, h.here, ?_⟩
  · exact h.place.of_step (hop.not_moves answer) hs.2
  · rw [hs.2.2, visit_append_call _ answer]
    · exact h.visit
    · rintro step' rfl
      exact hop

theorem Working.rely (h : Working wf step P m x) (hrely : (gateSpec d redact wf runId).rely x y) :
    Working wf step P m y := by
  refine ⟨h.toGateVisit.rely hrely, h.running, ?_⟩
  obtain ⟨-, events, hh⟩ := hrely
  rw [hh, gateLog_append_env]
  exact h.known

theorem Working.inPlace (h : Working wf step P m x) (hplace : InPlace m m') : Working wf step P m' x :=
  ⟨h.toGateVisit.memory hplace.id hplace.workflowId hplace.cursorStep, hplace.status.trans h.running, h.known⟩

theorem Working.weaken {Q : GateLog → Prop} (h : Working wf step P m x) (hQ : ∀ log, P log → Q log) :
    Working wf step Q m x :=
  { h with known := hQ _ h.known }

theorem Working.thrown (h : Working wf step P m x) (e : Exc) : Thrown wf step P e m x :=
  ⟨h.toGateVisit, fun _ => h⟩

theorem Thrown.weaken {Q : GateLog → Prop} {e : Exc} (h : Thrown wf step P e m x) (hQ : ∀ log, P log → Q log) :
    Thrown wf step Q e m x :=
  ⟨h.1, fun hconnector => (h.2 hconnector).weaken hQ⟩

/-- A call that says nothing about the gate. -/
theorem working_unlogged {op : Op} (hop : op.InStep) (hunlogged : op.Unlogged)
    (hexecute : ∀ stepId name sent, op = .execute (.step stepId) name sent → stepId = step.id →
      ∀ log, P log → log.Clear step.id) :
    Act.Keeps (gateSpec d redact wf runId) (Working wf step P) (perform op) := by
  refine Act.keeps_perform fun m x h x₁ hrely => ⟨⟨?_, ?_⟩, fun answer y hs => ?_⟩
  · cases op with
    | execute caller name sent =>
        cases caller with
        | agent => trivial
        | step stepId =>
            intro m₀ step' hvisit hid
            obtain ⟨m₁, hvisit'⟩ := (h.toGateVisit.rely hrely).visit
            obtain ⟨rfl, rfl⟩ := Prod.mk.inj (Option.some.inj (hvisit'.symm.trans hvisit))
            exact hexecute stepId name sent rfl hid _ (h.rely hrely).known
    | checkpoint => exact hop.elim
    | _ => trivial
  · cases op <;> trivial
  · have h₁ := h.rely hrely
    refine ⟨h₁.toGateVisit.call hop hs, h₁.running, ?_⟩
    rw [gateLog_of_unlogged hs.2.2 hunlogged]
    exact h₁.known

/-- A call of an agent may be any but an execution of a tool step. -/
theorem working_plain {op : Op} (hop : op.Acting) (hplain : op.Plain) :
    Act.Keeps (gateSpec d redact wf runId) (Working wf step fun _ => True) (perform op) := by
  refine Act.keeps_perform fun m x h x₁ hrely => ⟨⟨?_, ?_⟩, fun answer y hs => ?_⟩
  · cases op with
    | execute caller name sent =>
        cases caller with
        | agent => trivial
        | step stepId => exact hplain.elim
    | checkpoint => exact hop.elim
    | _ => trivial
  · cases op <;> trivial
  · exact ⟨(h.toGateVisit.rely hrely).call hop.inStep hs, h.running, trivial⟩

theorem isConnectorError_of_createApproval {policy : PolicyEngine} {db db' : DB} {tenantId owner stepId : String}
    {approvers : List String} {e : Exc}
    (h : (Op.createApproval tenantId owner stepId approvers).step policy redact db (.error e) db') :
    e.isConnectorError = false := by
  obtain ⟨approvalId, now, hcommits⟩ := h
  rcases commits_map_cases hcommits with ⟨-, heq⟩ | ⟨e', herror, heq, -⟩
  · cases heq
  · obtain rfl := Except.error.inj heq
    unfold DB.createApproval at herror
    cases howns : db.assertOwns tenantId owner with
    | error e' =>
        obtain ⟨message, rfl⟩ := isolation_of_assertOwns howns
        simp only [howns, bind, Except.bind, Except.error.injEq] at herror
        rw [← herror]
        rfl
    | ok value =>
        simp only [howns, bind, Except.bind] at herror
        split at herror
        · cases herror
          rfl
        · cases herror

/-- A driver that has set its run waiting stores that and pauses. -/
theorem paused_checkpoint {Q : Bool → Mem → DB × Session.History runId → Prop} (h : GateVisit wf step m x)
    (hwaiting : m.run.status = .waitingApproval) (approvalId : String) :
    Act.wp (gateSpec d redact wf runId) (do
      EngineM.checkpoint
      throw (.paused approvalId)) Q
      (fun e m' y => GateVisit wf step m' y ∧ e.isConnectorError = false) m x := by
  refine (Act.wp_bind _ _).mpr (wp_checkpoint.mpr fun x₁ hrely => ?_)
  have h₁ := h.rely hrely
  refine ⟨⟨fun hmoves => ?_, h₁.holds.1, h₁.holds.2, ?_, fun _ => h₁.place⟩, fun answer y hs => ?_⟩
  · rw [hwaiting] at hmoves
    rcases hmoves with hmoves | hmoves <;> cases hmoves
  · rw [hwaiting]
    rintro ⟨⟩
  · have hstays : ¬(Op.checkpoint m.run m.buffer).Moves answer := fun hmoves =>
      absurd (hwaiting.symm.trans hmoves.1) (by decide)
    have hvisit : ∃ m₀, Session.visit y.2 = some (m₀, step) := by
      rw [hs.2.2, visit_append_call _ answer (by rintro step' ⟨⟩)]
      exact h₁.visit
    have hplace := h₁.place.of_step hstays hs.2
    obtain ⟨rfl, row, hrow⟩ := h₁.holds
    cases answer with
    | ok value =>
        obtain ⟨now, hrow'⟩ := row_of_checkpoint hs.2.1 hrow
        exact ⟨⟨⟨⟨rfl, _, hrow'⟩, h₁.workflow, hplace⟩, h₁.here, hvisit⟩, rfl⟩
    | error e =>
        obtain ⟨message, rfl⟩ := isolation_of_checkpoint hs.2.1
        have hdb : y.1 = x₁.1 := same_of_checkpoint_error hs.2.1
        exact ⟨⟨⟨⟨rfl, row, by rw [hdb]; exact hrow⟩, h₁.workflow, hplace⟩, h₁.here, hvisit⟩, rfl⟩

/-- A granted approval of the step was requested since the cursor came to it. -/
theorem licensed_awaitAsync {asked : Step} (approvers : List String) (tool : String) (args : Args)
    (h : Working wf step (fun _ => True) m x) :
    Act.wp (gateSpec d redact wf runId) (WorkflowEngine.awaitAsync asked approvers tool args)
      (fun granted => Working wf step fun log => granted = true → asked.id = step.id → log.Licenses step.id)
      (fun e m' y => GateVisit wf step m' y ∧ e.isConnectorError = false) m x := by
  refine (wp_getRun_bind _).mpr ((Act.wp_perform_bind _ _).mpr fun x₁ hrely => ⟨⟨trivial, trivial⟩, ?_⟩)
  intro found y hs
  have h₁ := h.toGateVisit.rely hrely
  have hop : (Op.latestApproval m.run.tenantId m.run.id asked.id).InStep := trivial
  have hy := h₁.call hop hs
  cases found with
  | none =>
      refine (Act.wp_perform_bind _ _).mpr fun x₂ hrely' => ?_
      have h₂ := hy.rely hrely'
      refine ⟨⟨trivial, h₂.holds.2⟩, fun created z hs' => (Act.wp_ofExcept_bind _ _).mpr ?_⟩
      have hop' : (Op.createApproval m.run.tenantId m.run.id asked.id approvers).InStep := trivial
      have hz := h₂.call hop' hs'
      cases created with
      | error e => exact ⟨hz, isConnectorError_of_createApproval hs'.2.1⟩
      | ok approvalId =>
          refine (wp_modifyRun_bind _ _).mpr ((wp_emit_bind _ _ _ _ _ _).mpr ?_)
          refine paused_checkpoint ?_ rfl approvalId
          exact hz.memory rfl rfl rfl
  | some found =>
      obtain ⟨approvalId, status⟩ := found
      dsimp only
      split
      · refine (wp_modifyRun_bind _ _).mpr (paused_checkpoint ?_ rfl approvalId)
        exact hy.memory rfl rfl rfl
      · refine (wp_emit_bind _ _ _ _ _ _).mpr ⟨hy.memory rfl rfl rfl, h.running, fun hgranted hid => ?_⟩
        obtain rfl : status = .approved := by simpa using hgranted
        obtain ⟨row, hmem, rfl, -, -, hrun, hstep⟩ := row_of_latestApproval hs.2.1.1.symm
        have hlisted := h₁.place step h₁.here row hmem (hrun.trans h₁.holds.1) (hstep.trans hid)
        refine ⟨row.id, ?_, ?_⟩
        · rw [hs.2.2, gateLog_append]
          exact current_after _ (hop.not_moves _) hlisted
        · rw [hs.2.2, gateLog_append, ← hid]
          exact List.mem_append_right _ List.mem_cons_self

/-- What the policy required is there, if `asked` is the step that the driver stands in. -/
def GateLog.ClearFor (asked step : Step) (log : GateLog) : Prop := asked.id = step.id → log.Clear step.id

section Handlers

variable (hasync : cfg.approvalFn = false)

include hasync

theorem licensed_awaitApproval {asked : Step} (approvers : List String) (tool : String) (args : Args)
    (h : Working wf step (fun _ => True) m x) :
    Act.wp (gateSpec d redact wf runId) (WorkflowEngine.awaitApproval cfg asked approvers tool args)
      (fun granted => Working wf step fun log => granted = true → asked.id = step.id → log.Licenses step.id)
      (fun e m' y => GateVisit wf step m' y ∧ e.isConnectorError = false) m x := by
  rw [WorkflowEngine.awaitApproval, if_neg (by simp [hasync])]
  exact licensed_awaitAsync approvers tool args h

/-- A step that gets past its gate has what the policy required. -/
theorem clear_gate {asked : Step} (tool : Tool) (name : String) (args : Args)
    (h : Working wf step (fun _ => True) m x) :
    Act.wp (gateSpec d redact wf runId) (WorkflowEngine.gate cfg asked tool name args)
      (fun _ => Working wf step (GateLog.ClearFor asked step))
      (fun e m' y => GateVisit wf step m' y ∧ e.isConnectorError = false) m x := by
  refine (wp_getRun_bind _).mpr ((Act.wp_perform_bind _ _).mpr fun x₁ hrely => ⟨⟨trivial, trivial⟩, ?_⟩)
  intro decision y hs
  have hop : (Op.policyCheck (WorkflowEngine.systemAgent name) tool args m.run.context).InStep := trivial
  have hy := (h.toGateVisit.rely hrely).call hop hs
  have hrequired : (Session.gateLog y.2).required = decide (decision.effect = .requireApproval) := by
    rw [hs.2.2, gateLog_append]
    rfl
  refine (wp_emit_bind _ _ _ _ _ _).mpr ?_
  cases heffect : decision.effect with
  | allow =>
      refine ⟨hy.memory rfl rfl rfl, h.running, fun _ hdemanded => ?_⟩
      rw [hrequired, heffect] at hdemanded
      cases hdemanded
  | deny => exact ⟨hy.memory rfl rfl rfl, rfl⟩
  | requireApproval =>
      refine (Act.wp_bind _ _).mpr (Act.wp_mono _ ?_ (fun _ _ _ h' => h')
        (licensed_awaitApproval hasync _ _ _ ⟨hy.memory rfl rfl rfl, h.running, trivial⟩))
      intro granted m' z h'
      split
      · rename_i hgranted
        exact h'.weaken fun log hlicensed hid _ => hlicensed hgranted hid
      · exact ⟨h'.toGateVisit, rfl⟩

theorem working_runTool {asked : Step} (hP : ∀ log, GateLog.ClearFor asked step log → P log) :
    Act.Leaves (gateSpec d redact wf runId) (Working wf step P) (Thrown wf step P)
      (WorkflowEngine.runTool cfg asked) := by
  have hthrown : ∀ e m x, Working wf step P m x → Thrown wf step P e m (x : DB × Session.History runId) :=
    fun e m x h => h.thrown e
  have hget : ∀ tenantId key, Act.Keeps (gateSpec d redact wf runId) (Working wf step P)
      (perform (.getEffect tenantId key)) := fun _ _ => working_unlogged trivial trivial (by rintro _ _ _ ⟨⟩)
  unfold WorkflowEngine.runTool
  split
  · exact Act.leaves_throw (hthrown _)
  · rename_i name _
    refine Act.leaves_bind ((Act.keeps_ofExcept _).leaves hthrown) fun tool => ?_
    refine Act.leaves_bind (keeps_getRun.leaves hthrown) fun run => ?_
    refine Act.leaves_bind ((Act.keeps_ofExcept _).leaves hthrown) fun args => ?_
    refine Act.leaves_bind ((keeps_cachedEffect hget _ _).leaves hthrown) fun cached => ?_
    split
    · have hact : Act.Keeps (gateSpec d redact wf runId) (Working wf step (GateLog.ClearFor asked step))
          (WorkflowEngine.act asked tool name args (ledgerKey run.id asked.id name)) := by
        refine keeps_act (fun m m' x hplace h => h.inPlace hplace) args (fun sent => ?_) fun _ _ _ => ?_
        · refine working_unlogged trivial trivial ?_
          rintro stepId name' sent' ⟨⟩ hid log hclear
          exact hclear hid
        · exact working_unlogged trivial trivial (by rintro _ _ _ ⟨⟩)
      intro m x h
      refine (Act.wp_bind _ _).mpr (Act.wp_mono _ ?_ ?_ (clear_gate hasync tool name args (h.weaken fun _ _ => trivial)))
      · intro _ m' y h'
        exact Act.wp_mono _ (fun _ _ _ h'' => h''.weaken hP) (fun e _ _ h'' => (h''.weaken hP).thrown e) (hact m' y h')
      · rintro e m' y ⟨h', hconnector⟩
        exact ⟨h', fun hraised => absurd (hconnector.symm.trans hraised) (by decide)⟩
    · intro m x h
      exact (wp_emit_bind _ _ _ _ _ _).mpr (h.inPlace
        ⟨⟨rfl, rfl, rfl, rfl, rfl, rfl, List.prefix_append _ _⟩, rfl, rfl⟩)

theorem working_handlers : Handlers cfg wf (gateSpec d redact wf runId) (Working wf step fun _ => True)
    (Thrown wf step fun _ => True) where
  raised := fun e _ _ h => h.thrown e
  emit := fun m x ev _ h => h.inPlace ⟨⟨rfl, rfl, rfl, rfl, rfl, rfl, List.prefix_append _ _⟩, rfl, rfl⟩
  output := fun _ _ _ m x output h => h.inPlace ⟨⟨rfl, rfl, rfl, rfl, rfl, rfl, List.prefix_rfl⟩, rfl, rfl⟩
  model := fun agent task scratch m x h =>
    Act.wp_mono _ (fun _ _ _ h' => booked_inPlace (fun _ _ _ hplace _ h'' => h''.inPlace hplace) h')
      (fun _ _ _ h' => h') (working_plain (show (Op.respond agent task scratch).Acting from trivial) trivial m x h)
  execCall := fun agent _ call => (keeps_execCall (fun _ _ _ hplace _ h => h.inPlace hplace)
    (fun _ hop hplain => working_plain hop hplain) agent call).leaves fun e _ _ h => h.thrown e
  await := by
    intro asked approvers tool args m x h
    refine Act.wp_mono _ (fun _ _ _ h' => h'.weaken fun _ _ => trivial) ?_
      (licensed_awaitApproval hasync approvers tool args h)
    rintro e m' y ⟨h', hconnector⟩
    exact ⟨h', fun hraised => absurd (hconnector.symm.trans hraised) (by decide)⟩
  tool := fun _ _ _ => working_runTool hasync fun _ _ => trivial

end Handlers

end Visit

/-! ### The engine -/

/-- At the head of the loop the next step is the one under the cursor. -/
def GateHead (wf : Workflow) (next : Option String) (m : Mem) (x : DB × Session.History runId) : Prop :=
  ∀ key, next = some key →
    GateDriver wf m x ∧ m.run.status = .running ∧ m.run.cursorStep.getD wf.start = key

/-- What is known of a tool step that has not been passed. -/
def GateLog.Unpassed (step : Step) (log : GateLog) : Prop := step.nodeType = .tool → log.Clear step.id

/-- The step has been passed, with a license if it is a gate. -/
def GateLog.Passed (step : Step) (log : GateLog) : Prop := log.Gates step → log.Licenses step.id

section Loop

variable {cfg : EngineConfig} {step : Step} {m : Mem} {x : DB × Session.History runId}

theorem passed_runStep (hasync : cfg.approvalFn = false) (hstep : wf.HasStep step)
    (h : Working wf step (GateLog.Unpassed step) m x) :
    Act.wp (gateSpec d redact wf runId) (WorkflowEngine.runStep cfg step)
      (fun _ => Working wf step (GateLog.Passed step)) (Thrown wf step (GateLog.Unpassed step)) m x := by
  have hother : step.nodeType ≠ .tool → step.nodeType ≠ .approval →
      Act.wp (gateSpec d redact wf runId) (WorkflowEngine.runStep cfg step)
        (fun _ => Working wf step (GateLog.Passed step)) (Thrown wf step (GateLog.Unpassed step)) m x := by
    intro htool happroval
    refine Act.wp_mono _ (fun _ _ _ h' => h'.weaken fun log _ hgates => ?_)
      (fun _ _ _ h' => h'.weaken fun log _ hnode => absurd hnode htool)
      ((working_handlers hasync).runStep hstep m x (h.weaken fun _ _ => trivial))
    exact hgates.elim (fun hnode => absurd hnode happroval) fun hgate => absurd hgate.1 htool
  cases hnode : step.nodeType with
  | tool =>
      have hfor : ∀ log, GateLog.ClearFor step step log → GateLog.ClearFor step step log := fun _ h => h
      have hrun : Act.Leaves (gateSpec d redact wf runId) (Working wf step (GateLog.ClearFor step step))
          (Thrown wf step (GateLog.ClearFor step step)) (WorkflowEngine.runTool cfg step) := working_runTool hasync hfor
      rw [WorkflowEngine.runStep, hnode]
      refine Act.wp_mono _ (fun _ _ _ h' => h'.weaken fun log hclear hgates => ?_)
        (fun _ _ _ h' => h'.weaken fun log hclear _ => hclear rfl)
        (hrun m x (h.weaken fun log hclear _ => hclear hnode))
      rcases hgates with happroval | ⟨-, hrequired⟩
      · rw [hnode] at happroval
        cases happroval
      · exact hclear rfl hrequired
  | approval =>
      rw [WorkflowEngine.runStep, hnode]
      refine (Act.wp_bind _ _).mpr (Act.wp_mono _ ?_ ?_
        (licensed_awaitApproval hasync step.approvers "" Table.empty (h.weaken fun _ _ => trivial)))
      · intro granted m' y h'
        split
        · rename_i hgranted
          exact h'.weaken fun log hlicensed _ => hlicensed hgranted rfl
        · exact ⟨h'.toGateVisit, fun hraised => by cases hraised⟩
      · rintro e m' y ⟨h', hconnector⟩
        exact ⟨h', fun hraised => absurd (hconnector.symm.trans hraised) (by decide)⟩
  | _ => exact hother (by rw [hnode]; rintro ⟨⟩) (by rw [hnode]; rintro ⟨⟩)

theorem gate_failRun (reason detail : String) (h : GateDriver wf m x) :
    Act.wp (gateSpec d redact wf runId) (WorkflowEngine.failRun reason detail) (fun _ _ _ => True)
      (fun _ _ _ => True) m x := by
  refine (wp_modifyRun_bind _ _).mpr ((wp_emit_bind _ _ _ _ _ _).mpr (wp_checkpoint.mpr ?_))
  intro x₁ hrely
  have h₁ := h.rely hrely
  refine ⟨⟨fun hmoves => ?_, h₁.holds.1, h₁.holds.2, ?_, ?_⟩, fun answer y _ => by cases answer <;> trivial⟩
  · rcases hmoves with hmoves | hmoves <;> cases hmoves
  · rintro ⟨⟩
  · rintro ⟨⟩

theorem gate_compensate (hasync : cfg.approvalFn = false) (h : Working wf step (fun _ => True) m x) :
    Act.wp (gateSpec d redact wf runId) (WorkflowEngine.compensate cfg wf step)
      (fun _ => GateVisit wf step) (fun _ => GateVisit wf step) m x := by
  unfold WorkflowEngine.compensate
  split
  · exact h.toGateVisit
  · rename_i comp hcomp
    refine (wp_emit_bind _ _ _ _ _ _).mpr ((Act.wp_tryCatch _ _).mpr ((Act.wp_bind _ _).mpr ?_))
    refine Act.wp_mono _ (fun _ _ _ h' => h'.toGateVisit) (fun e m' y h' => ?_)
      ((working_handlers hasync).runStep (hasStep_of_compensation hcomp) _ x (h.inPlace ?_))
    · exact (wp_emit _ _ _ _ _).mpr (h'.1.memory rfl rfl rfl)
    · exact ⟨⟨rfl, rfl, rfl, rfl, rfl, rfl, List.prefix_append _ _⟩, rfl, rfl⟩

theorem gate_advance (next : Option String) (h : Working wf step (GateLog.Passed step) m x) :
    Act.wp (gateSpec d redact wf runId) (WorkflowEngine.advance next) (fun _ => GateHead wf next)
      (fun _ _ _ => True) m x := by
  have hpasses : ∀ {x₁ : DB × Session.History runId} (run : Run) (events : List Event),
      (gateSpec d redact wf runId).rely x x₁ →
        (Op.checkpoint run events).Passes (Session.visit x₁.2) (Session.gateLog x₁.2) := by
    intro x₁ run events hrely _ m₀ step' hvisit hgates
    have h₁ := h.rely hrely
    obtain ⟨m₁, hvisit'⟩ := h₁.visit
    obtain ⟨rfl, rfl⟩ := Prod.mk.inj (Option.some.inj (hvisit'.symm.trans hvisit))
    exact h₁.known hgates
  refine (wp_modifyRun_bind _ _).mpr ?_
  cases next with
  | some key =>
      refine wp_checkpoint.mpr fun x₁ hrely => ?_
      have h₁ := h.toGateDriver.rely hrely
      have hrunning : m.run.status = .running := h.running
      refine ⟨⟨hpasses _ _ hrely, h₁.holds.1, h₁.holds.2, ?_, fun hwaiting => ?_⟩, fun answer y hs => ?_⟩
      · rw [show ({ m.run with cursorStep := some key } : Run).status = .running from hrunning]
        rintro ⟨⟩
      · cases hrunning.symm.trans hwaiting
      · cases answer with
        | error e => trivial
        | ok value =>
            rintro _ ⟨⟩
            obtain ⟨hid, row, hrow⟩ := h₁.holds
            subst hid
            obtain ⟨now, hrow'⟩ := row_of_checkpoint hs.2.1 hrow
            refine ⟨⟨⟨rfl, _, hrow'⟩, h₁.workflow, hs.1.2.place _ hrow' ?_⟩, hrunning, rfl⟩
            change m.run.status.terminal = false
            rw [hrunning]
            rfl
  | none =>
      refine (wp_modifyRun_bind _ _).mpr ((wp_modifyRun_bind _ _).mpr ?_)
      refine (wp_getRun_bind _).mpr ((wp_emit_bind _ _ _ _ _ _).mpr (wp_checkpoint.mpr ?_))
      intro x₁ hrely
      have h₁ := h.toGateDriver.rely hrely
      refine ⟨⟨hpasses _ _ hrely, h₁.holds.1, h₁.holds.2, ?_, ?_⟩, fun answer y _ => ?_⟩
      · rintro ⟨⟩
      · rintro ⟨⟩
      · cases answer with
        | ok value => exact nofun
        | error e => trivial

theorem gate_outline (hasync : cfg.approvalFn = false) (d : Deployment) (redact : Json → Json) (wf : Workflow)
    (runId : String) :
    Outline cfg wf (gateSpec d redact wf runId) (GateHead wf)
      (fun step => Working wf step (GateLog.Unpassed step)) (fun step _ => Working wf step (GateLog.Passed step))
      (fun step => Thrown wf step (GateLog.Unpassed step)) (fun _ _ _ => True) where
  unknown := fun _ _ _ _ _ => trivial
  budget := fun _ _ _ m x _ h _ => gate_failRun _ _ (h _ rfl).1
  enter := by
    intro key step m x hget h _
    obtain ⟨hdriver, hrunning, hcursor⟩ := h key rfl
    refine (wp_modifyRun_bind _ _).mpr ((wp_emit_bind _ _ _ _ _ _).mpr ((Act.wp_perform _).mpr ?_))
    refine fun x₁ hrely => ⟨⟨trivial, trivial⟩, fun answer y hs => ?_⟩
    have h₁ := hdriver.rely hrely
    have hop : (Op.stepSpan step).Inner := trivial
    obtain ⟨hid, row, hrow⟩ := h₁.holds
    refine ⟨⟨⟨⟨hid, row, find_of_inner hop hs.2.1 hrow⟩, h₁.workflow, ?_⟩, by rw [← hcursor] at hget; exact hget, ?_⟩, hrunning, ?_⟩
    · exact h₁.place.of_step id hs.2
    · exact ⟨_, by rw [hs.2.2, visit_append]; rfl⟩
    · intro _ hrequired
      rw [hs.2.2, gateLog_append] at hrequired
      cases hrequired
  run := fun step m x hstep _ h => passed_runStep hasync hstep h
  retry := by
    rintro step e attempt m x _ hconnector ⟨hvisit, h⟩
    have hemitted : Working wf step (GateLog.Unpassed step) { m with buffer := m.buffer ++ [⟨m.run.id,
        m.run.tenantId, "step_retry", WorkflowEngine.retryPayload step attempt e, some step.id, "system", 0⟩] } x :=
      (h hconnector).inPlace ⟨⟨rfl, rfl, rfl, rfl, rfl, rfl, List.prefix_append _ _⟩, rfl, rfl⟩
    exact ⟨hemitted, hemitted.thrown e⟩
  exhausted := fun step m x h => h.thrown _
  denied := fun step e m x _ _ h => gate_failRun _ _ h.1.toGateDriver
  failed := by
    rintro step e m x _ hconnector ⟨-, h⟩
    refine (Act.wp_bind _ _).mpr (Act.wp_mono _ (fun _ m' y h' => ?_) (fun _ _ _ _ => trivial)
      (gate_compensate hasync ((h hconnector).weaken fun _ _ => trivial)))
    exact gate_failRun _ _ h'.toGateDriver
  other := fun _ _ _ _ _ _ _ _ => trivial
  finish := fun step next m x _ h => gate_advance next h

end Loop

/-! ### Sessions -/

/-- An attempt that has the run in memory. -/
structure GateHolder (wf : Workflow) (m : Mem) (x : DB × Session.History runId) : Prop where
  holds : Holds runId m x
  workflow : m.run.workflowId = wf.id
  place : m.run.status.terminal = false → AtPlace wf m.run.cursorStep x

theorem gate_entry (attempt : Attempt runId) (hasync : d.engine.approvalFn = false)
    (hdrives : ∀ wf', attempt.request.definition d wf.id = some wf' → wf' = wf) :
    Entry d (gateSpec d redact wf runId) (fun _ => True) (GateHolder wf) attempt.request where
  rely := fun _ _ _ _ => trivial
  early := fun _ _ _ _ _ _ _ _ _ => trivial
  service := by
    intro x m op hop hwanted
    cases op with
    | insertRun run =>
        obtain ⟨wf', hwf', hworkflow, -⟩ := wanted_definition (hwanted run rfl) wf.id
        obtain rfl := hdrives wf' hwf'
        exact ⟨trivial, hworkflow⟩
    | execute | checkpoint | createApproval => exact hop.elim
    | _ => exact ⟨trivial, trivial⟩
  loaded := by
    rintro x m tenantId run y - - ⟨⟨-, hinv⟩, hload, hh⟩
    obtain ⟨hid, row, hrow, hrow', rfl⟩ := attempt.loaded hload
    exact ⟨⟨hid, row, hrow'⟩, hinv.workflow row hrow', hinv.place row hrow'⟩
  created := by
    rintro x m run y - - hwanted ⟨⟨-, hinv⟩, hs, hh⟩
    obtain ⟨hid, -, now, hrow'⟩ := attempt.inserted hwanted hs
    exact ⟨⟨hid, _, hrow'⟩, hinv.workflow _ hrow', hinv.place _ hrow'⟩
  resolve := by
    intro tenantId approvalId approved decidedBy note
    refine Act.keeps_perform fun m x h x₁ hrely => ⟨⟨trivial, trivial⟩, fun answer y hs => ?_⟩
    have hop : (Op.resolveApproval tenantId approvalId approved decidedBy note).InStep := trivial
    obtain ⟨hid, row, hrow⟩ := h.holds
    obtain ⟨row₁, hrow₁, -⟩ := hrely.1.row row hrow
    refine ⟨⟨hid, row₁, find_of_inner hop.inner hs.2.1 hrow₁⟩, h.workflow, fun hopen => ?_⟩
    exact ((h.place hopen).rely hrely).of_step (hop.not_moves answer) hs.2
  fired := fun m x payload h => ⟨h.holds, h.workflow, h.place⟩
  resume := by
    rintro cfg wf' m x hcfg hwf' h
    rw [h.workflow] at hwf'
    obtain rfl := hdrives wf' hwf'
    have hasync' : cfg.approvalFn = false := by
      rcases hcfg with rfl | rfl
      · exact hasync
      · rfl
    refine (gate_outline hasync' d redact wf' runId).drives fun hstatus => ?_
    rintro _ ⟨⟩
    exact ⟨⟨h.holds, h.workflow, h.place hstatus⟩, rfl, rfl⟩

theorem gate_discipline (hasync : d.engine.approvalFn = false) (redact : Json → Json) (wf : Workflow)
    (runId : String) :
    Serial.Discipline (Call.step d.engine.policy redact)
      (fun attempt : Attempt runId => attempt.request.program d)
      (fun db (event : Outside) db' => event.step d.engine.policy redact runId db db')
      (fun h label => Driven d wf h label ∧ FirstArrival wf h label) (GateInv wf)
      (gateSpec d redact wf runId) (fun _ => True) where
  allowed := fun _ _ _ _ hx hy _ hrec => ⟨⟨hx, hy⟩, hrec⟩
  refl := fun x _ => ⟨Kept.refl runId x.1, [], (List.append_nil _).symm⟩
  trans := by
    rintro x y z ⟨hkept, events, hh⟩ ⟨hkept', events', hh'⟩
    exact ⟨hkept.trans hkept', events ++ events', by rw [hh', hh, List.map_append, List.append_assoc]⟩
  stable := fun _ _ _ _ => trivial
  call := fun _ _ _ _ hinv hminds hok hrec => gateInv_of_step hinv hminds hok.2 hrec
  env := by
    intro db h event db' hinv _ henv
    have hkept := kept_of_outside henv
    have hrely : (gateSpec d redact wf runId).rely (db, h) (db', h ++ [.env event]) := ⟨hkept, [event], rfl⟩
    have hlog : Session.gateLog (h ++ [.env event]) = Session.gateLog h := gateLog_append_env h [event]
    refine ⟨⟨ofWorkflow_of_kept hinv.workflow hkept, fun stepId => ?_, fun hnone => ?_, fun row' hrow' hopen => ?_⟩, hrely⟩
    · rw [hlog]
      exact (hinv.requested stepId).of_subjects hkept.approvals (List.Subset.refl _)
    · rw [hlog]
      cases hfind : db.runs.find? runId with
      | none => exact hinv.absent hfind
      | some row =>
          obtain ⟨row', hrow', -⟩ := hkept.row row hfind
          rw [hnone] at hrow'
          cases hrow'
    · cases hfind : db.runs.find? runId with
      | none =>
          rw [hkept.absent hfind] at hrow'
          cases hrow'
      | some row =>
          obtain ⟨row'', hrow'', hsame, hstatus⟩ := hkept.row row hfind
          obtain rfl := Option.some.inj (hrow''.symm.trans hrow')
          rw [hsame.cursorStep]
          refine (hinv.place row hfind ?_).rely hrely
          rcases hstatus with hstatus | hcanceled
          · rw [← hstatus]
            exact hopen
          · rw [hcanceled] at hopen
            cases hopen
  start := by
    rintro db h attempt hinv ⟨hdriven, -⟩
    have hlog : (Session.gateLog (h ++ [.start attempt])).requested = (Session.gateLog h).requested ∧
        (Session.gateLog (h ++ [.start attempt])).current = (Session.gateLog h).current := by
      rw [gateLog_append]
      exact ⟨rfl, rfl⟩
    refine ⟨⟨hinv.workflow, fun stepId => ?_, fun hnone => ?_, fun row hrow hopen step hget => ?_⟩, ?_⟩
    · rw [hlog.1]
      exact hinv.requested stepId
    · rw [hlog.1]
      exact hinv.absent hnone
    · rw [hlog.2]
      exact hinv.place row hrow hopen step hget
    · exact (gate_entry attempt hasync hdriven).program attempt.driver trivial

/-- Every gate is passed with a license. -/
def Session.Licensed (h : Session.History runId) : Prop :=
  ∀ before call answer after, h = before ++ .call call answer :: after →
    call.op.Passes (Session.visit before) (Session.gateLog before)

/-- **Passages are licensed.** Where the cursor comes to no step that an approval has been requested for, it
passes a gate, and the tool of one acts, only on an approval that was requested since it came there. -/
theorem passages_licensed {db : DB} {labels : Session.History runId} {c : Session}
    (hasync : d.engine.approvalFn = false) (hworkflow : OfWorkflow wf runId db)
    (hnew : ∀ row ∈ db.approvals.rows, row.runId ≠ runId)
    (hrun : Session.Run d redact runId (Session.idle db) labels c) (hdrives : Session.Drives d wf labels)
    (harrivals : Serial.Permitted (FirstArrival wf) [] labels) : Session.Licensed labels := by
  have hok : Serial.Permitted (fun h label => Driven d wf h label ∧ FirstArrival wf h label)
      ([] : Session.History runId) labels := by
    intro before label after heq
    refine ⟨?_, harrivals before label after heq⟩
    cases label with
    | start attempt => exact hdrives attempt (by simp [heq])
    | _ => trivial
  have hnone : ∀ stepId listed, RequestsIn runId stepId listed db :=
    fun stepId listed row hrow hid => absurd hid (hnew row hrow)
  have hstart : GateInv wf (db, ([] : Session.History runId)) :=
    ⟨hworkflow, fun stepId => hnone stepId _, fun _ => rfl, fun _ _ _ step _ => hnone step.id _⟩
  rintro before call answer after rfl
  obtain ⟨s, s', -, hminds, -⟩ := hrun.guaranteed (gate_discipline hasync redact wf runId) hok (.idle hstart trivial)
  exact hminds.1

/-! ### A gate that is come back to -/

/-- A payment behind a gate. -/
def loopWorkflow (next : Option String) : Workflow := gatedWorkflow 1 { payStep with next := next }

def loopDeployment (next : Option String) : Deployment :=
  { payDeployment with workflowsById := Dict.ofList [("payments", loopWorkflow next)] }

/-- The run waits at its gate, and goes on for `n` calls when it has been approved. -/
def approvedSession (next : Option String) (n : Nat) : Session.History "run" × Session :=
  Session.play (loopDeployment next) id { World.constant .null with newId := fun _ => "approval" }
    (.start (resumeAttempt "run") :: List.replicate 5 .call ++
      .start approveAttempt :: List.replicate n .call) (Session.idle (DB.withRun "run" "payments"))

theorem approvedSession_run (next : Option String) (n : Nat) : Session.Run (loopDeployment next) id "run"
    (Session.idle (DB.withRun "run" "payments")) (approvedSession next n).1 (approvedSession next n).2 :=
  Session.play_run (loopDeployment next) id _ _ (by simp) _

theorem approvedSession_drives (next : Option String) (n : Nat) :
    Session.Drives (loopDeployment next) (loopWorkflow next) (approvedSession next n).1 := by
  intro attempt hmem wf' hwf'
  have hattempt : attempt = resumeAttempt "run" ∨ attempt = approveAttempt := by
    simpa [List.mem_replicate] using Serial.start_of_mem_play hmem
  rcases hattempt with rfl | rfl <;> cases hwf' <;> rfl

theorem workflow_withRun (next : Option String) : OfWorkflow (loopWorkflow next) "run" (DB.withRun "run" "payments") := by
  intro row hrow
  cases hrow
  rfl

/-- The gate is passed once, on its approval. -/
theorem passages_licensed_approved : Session.Licensed (approvedSession none 11).1 :=
  have hasync : (loopDeployment none).engine.approvalFn = false := rfl
  passages_licensed hasync (workflow_withRun none) (fun _ hrow => absurd hrow List.not_mem_nil)
    (approvedSession_run none 11) (approvedSession_drives none 11) (by decide +kernel)

/-- The cursor comes from a gate to another step with a license. -/
theorem Session.Licensed.of_arrival {before after : Session.History runId} {label : Session.Label runId} {m₀ : Mem}
    {step : Step} (h : Session.Licensed (before ++ label :: after)) (harrival : (Session.arrival? wf label).isSome)
    (hvisit : Session.visit before = some (m₀, step)) (hgate : step.nodeType = .approval) :
    (Session.gateLog before).Licenses step.id := by
  unfold Session.arrival? at harrival
  split at harrival
  · split at harrival
    · rename_i hrunning
      exact h before _ _ after rfl (Or.inl hrunning) m₀ step hvisit (Or.inl hgate)
    · cases harrival
  · cases harrival

/-- The gate is passed twice, on one approval. -/
theorem passages_unlicensed_again : ¬Session.Licensed (approvedSession (some "gate") 14).1 := by
  have hcurrent : (Session.gateLog ((approvedSession (some "gate") 14).1.take 20)).current = [] := by decide +kernel
  have hvisit : (Session.visit ((approvedSession (some "gate") 14).1.take 20)).map (fun visit => visit.2.nodeType) =
      some .approval := by decide +kernel
  have harrival : ((approvedSession (some "gate") 14).1.drop 20).head?.all (fun label =>
      (Session.arrival? (loopWorkflow (some "gate")) label).isSome) = true := by decide +kernel
  have hlength : (approvedSession (some "gate") 14).1.length = 21 := by decide +kernel
  have hsplit := (List.take_append_drop 20 (approvedSession (some "gate") 14).1).symm
  generalize (approvedSession (some "gate") 14).1 = labels at hcurrent hvisit harrival hlength hsplit ⊢
  obtain ⟨⟨m₀, step⟩, hat, hgate⟩ := Option.map_eq_some_iff.mp hvisit
  intro hlicensed
  cases hdrop : labels.drop 20 with
  | nil =>
      have hshort := List.drop_eq_nil_iff.mp hdrop
      omega
  | cons label after =>
      rw [hdrop] at harrival hsplit
      rw [hsplit] at hlicensed
      obtain ⟨approvalId, hnothing, -⟩ := hlicensed.of_arrival harrival hat hgate
      rw [hcurrent] at hnothing
      exact List.not_mem_nil hnothing

end Bass
