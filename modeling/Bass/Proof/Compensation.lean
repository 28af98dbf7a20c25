import Bass.Proof.StepCalls
import Bass.Proof.Ceiling

/-!
# Giving up for good

The compensation of a failed step acts before the failure is committed. While no attempt is abandoned in
between, a run whose compensation has acted ends as failed; the decision to give up is not stored
anywhere else, so an attempt that is abandoned there leaves the run to the next one as if nothing had
happened.
-/

namespace Bass

open Interaction EngineM

variable {d : Deployment} {redact : Json → Json} {runId : String} {wf : Workflow}

/-! ### Where a step leads -/

/-- The step may be followed by the one under the key `goto`. -/
def Step.Leads (step : Step) (goto : String) : Prop :=
  step.next = some goto ∨ ∃ predicate, (predicate, goto) ∈ step.branches

/-- The keys that a drive from the start can come to. -/
inductive Workflow.Reaches (wf : Workflow) : String → Prop where
  | start : Workflow.Reaches wf wf.start
  | follow {key goto : String} {step : Step} (hreached : Workflow.Reaches wf key)
      (hget : wf.steps.get? key = some step) (hleads : step.Leads goto) : Workflow.Reaches wf goto

theorem mem_of_chooseBranch {context : Context} {goto : String}
    {branches : List (Option (Context → Except Exc Bool) × String)}
    (h : WorkflowEngine.chooseBranch context branches = .ok (some goto)) :
    ∃ predicate, (predicate, goto) ∈ branches := by
  induction branches with
  | nil => cases h
  | cons arm rest ih =>
      obtain ⟨predicate, target⟩ := arm
      cases predicate with
      | none =>
          cases h
          exact ⟨none, List.mem_cons_self⟩
      | some predicate =>
          unfold WorkflowEngine.chooseBranch at h
          cases hpredicate : predicate context with
          | error e =>
              rw [hpredicate] at h
              cases h
          | ok holds =>
              cases holds with
              | true =>
                  rw [hpredicate] at h
                  cases h
                  exact ⟨some predicate, List.mem_cons_self⟩
              | false =>
                  rw [hpredicate] at h
                  obtain ⟨other, hmem⟩ := ih h
                  exact ⟨other, List.mem_cons_of_mem _ hmem⟩

section Returns

variable {σ α β : Type} {S : Spec Call Call.Res σ} {P : β → Prop}

/-- Whatever the code returns satisfies `P`. -/
def Returns (S : Spec Call Call.Res σ) (P : β → Prop) (x : EngineM β) : Prop :=
  ∀ m s, Act.wp { S with guar := fun _ _ => True } x (fun value _ _ => P value) (fun _ _ _ => True) m s

theorem returns_pure {value : β} (h : P value) : Returns S P (pure value) := fun _ _ => h

theorem returns_throw (e : Exc) : Returns S P (throw e) := fun _ _ => trivial

theorem returns_bind {x : EngineM α} {f : α → EngineM β} (hf : ∀ value, Returns S P (f value)) :
    Returns S P (x >>= f) := by
  intro m s
  exact (Act.wp_bind _ _).mpr (Act.wp_mono _ (fun value m' s' _ => hf value m' s') (fun _ _ _ h => h)
    (Act.wp_of_guar (fun _ _ => trivial) x m s))

theorem returns_ofExcept_bind {x : Except Exc α} {f : α → EngineM β}
    (hf : ∀ value, x = .ok value → Returns S P (f value)) : Returns S P (Act.ofExcept x >>= f) := by
  intro m s
  refine (Act.wp_ofExcept_bind _ _).mpr ?_
  cases x with
  | ok value => exact hf value rfl m s
  | error e => trivial

/-- A step goes on to where it leads. -/
theorem leads_runStep (cfg : EngineConfig) (step : Step) :
    Returns S (fun next => ∀ goto, next = some goto → step.Leads goto)
      (WorkflowEngine.runStep cfg step) := by
  have hnext : Returns S (fun next => ∀ goto, next = some goto → step.Leads goto) (pure step.next) :=
    returns_pure fun goto h => Or.inl h
  unfold WorkflowEngine.runStep
  split
  · unfold WorkflowEngine.runAgent
    split
    · exact returns_throw _
    · refine returns_bind fun run => returns_bind fun args => returns_bind fun output => ?_
      exact returns_bind fun _ => hnext
  · unfold WorkflowEngine.runTool
    split
    · exact returns_throw _
    · refine returns_bind fun tool => returns_bind fun run => returns_bind fun args => ?_
      refine returns_bind fun cached => ?_
      split
      · refine returns_bind fun _ => returns_bind fun answer => returns_bind fun result => ?_
        refine returns_bind fun run => ?_
        split
        · exact returns_bind fun _ => returns_bind fun _ => returns_bind fun _ => returns_bind fun _ => hnext
        · exact returns_bind fun _ => returns_bind fun _ => returns_bind fun _ => hnext
      · exact returns_bind fun _ => returns_bind fun _ => hnext
  · refine returns_bind fun run => returns_ofExcept_bind fun choice hchoice => ?_
    cases choice with
    | none => exact hnext
    | some goto =>
        refine returns_bind fun _ => returns_pure ?_
        rintro _ ⟨⟩
        exact Or.inr (mem_of_chooseBranch hchoice)
  · refine returns_bind fun granted => ?_
    split
    · exact hnext
    · exact returns_throw _
  · exact returns_pure (by rintro _ ⟨⟩)
  · exact returns_throw _

end Returns

/-! ### Compensations in the ledger -/

/-- The ids of the steps that some step names as its compensation. -/
def Workflow.compensators (wf : Workflow) : List String :=
  wf.steps.rows.filterMap fun entry => (WorkflowEngine.compensation wf entry.2).map Step.id

/-- Compensating steps are reached through `compensate_with` only. -/
def Workflow.Separate (wf : Workflow) : Prop :=
  ∀ key step, wf.Reaches key → wf.steps.get? key = some step → step.id ∉ wf.compensators

/-- The ledger holds an effect of a compensating step of the run. -/
def Compensated (wf : Workflow) (runId : String) (db : DB) : Prop :=
  ∃ row ∈ db.toolEffects.rows, row.runId = runId ∧ ∃ stepId ∈ wf.compensators, row.stepId = some stepId

/-- A compensation has recorded its effect and the failure is not committed yet. -/
def undoingAfter (wf : Workflow) (undoing : Bool) : Session.Label runId → Bool
  | .call ⟨_, .recordEffect _ _ _ stepId _ _⟩ _ => undoing || stepId ∈ wf.compensators
  | .call ⟨_, .checkpoint run _⟩ (.ok _) => undoing && run.status ≠ .failed
  | _ => undoing

def undoing (wf : Workflow) (h : Session.History runId) : Bool := h.foldl (undoingAfter wf) false

theorem undoing_append (h : Session.History runId) (label : Session.Label runId) :
    undoing wf (h ++ [label]) = undoingAfter wf (undoing wf h) label := by
  rw [undoing, List.foldl_append]
  rfl

theorem undoing_append_env (h : Session.History runId) (events : List Outside) :
    undoing wf (h ++ events.map Serial.Label.env) = undoing wf h := by
  induction events generalizing h with
  | nil => rw [List.map_nil, List.append_nil]
  | cons event rest ih =>
      rw [List.map_cons, ← List.singleton_append, ← List.append_assoc, ih, undoing_append]
      rfl

theorem Kept.compensated {db db' : DB} (h : Kept runId db db') (hdone : Compensated wf runId db') :
    Compensated wf runId db := by
  obtain ⟨row, hmem, hrun, hstep⟩ := hdone
  exact ⟨row, h.effects row hmem hrun, hrun, hstep⟩

theorem compensated_of_step {policy : PolicyEngine} {db db' : DB} {op : Op} {answer : op.Res}
    (hs : op.step policy redact db answer db') (hdone : Compensated wf runId db') :
    Compensated wf runId db ∨ ∃ tenantId key owner stepId tool result,
      op = .recordEffect tenantId key owner stepId tool result ∧ stepId ∈ wf.compensators := by
  obtain ⟨row, hmem, hrun, stepId, hcomp, hstep⟩ := hdone
  rcases effects_of_step hs with hsame | ⟨tenantId, key, owner, stepId', tool, result, now, hop, hinsert⟩
  · rw [hsame] at hmem
    exact Or.inl ⟨row, hmem, hrun, stepId, hcomp, hstep⟩
  · rw [hinsert] at hmem
    rcases Table.mem_insert hmem with hold | rfl
    · exact Or.inl ⟨row, hold, hrun, stepId, hcomp, hstep⟩
    · cases hstep
      exact Or.inr ⟨tenantId, key, owner, stepId, tool, result, hop, hcomp⟩

/-! ### The specification of an attempt -/

/-- What holds of the run at every point of a session: it is of the workflow, its stored cursor is one
that a drive can come to, and once a compensation has acted it has not succeeded, and either has ended or
is being given up. -/
structure InHand (wf : Workflow) (x : DB × Session.History runId) : Prop where
  workflow : OfWorkflow wf runId x.1
  place : ∀ row, x.1.runs.find? runId = some row → wf.Reaches (row.cursorStep.getD wf.start)
  stored : Compensated wf runId x.1 → ∀ row, x.1.runs.find? runId = some row → row.status ≠ .succeeded
  ended : Compensated wf runId x.1 → undoing wf x.2 = true ∨
    ∃ row, x.1.runs.find? runId = some row ∧ row.status.terminal = true

/-- What the driver owes: after a compensation it commits no success, and nothing but the failure ends the
giving up. -/
def Careful (wf : Workflow) (x : DB × Session.History runId) (call : Call) : Prop :=
  match call.op with
  | .checkpoint run _ => run.id = runId ∧ (∃ row, x.1.runs.find? runId = some row) ∧
      wf.Reaches (run.cursorStep.getD wf.start) ∧
      (Compensated wf runId x.1 →
        run.status = .failed ∨ run.status ≠ .succeeded ∧ undoing wf x.2 = true)
  | .insertRun run => run.workflowId = wf.id ∧ run.status = .pending ∧ run.cursorStep = some wf.start
  | .recordEffect .. => ∀ row, x.1.runs.find? runId = some row → row.status ≠ .succeeded
  | _ => True

def undoSpec (d : Deployment) (redact : Json → Json) (wf : Workflow) (runId : String) :
    Spec Call Call.Res (DB × Session.History runId) :=
  { step := fun x call answer y => InHand wf x ∧
      Serial.recorded (Call.step d.engine.policy redact) x call answer y
    rely := fun x y => Kept runId x.1 y.1 ∧
      ∃ events : List Outside, y.2 = x.2 ++ events.map Serial.Label.env
    guar := Careful wf }

/-- After a compensation the giving up goes on, or the run has ended. -/
theorem ended_of_step {x : DB × Session.History runId} {db' : DB} {after : Bool} {m : Mem} {op : Op}
    {answer : op.Res} (h : InHand wf x) (hcareful : Careful wf x ⟨m, op⟩)
    (hs : op.step d.engine.policy redact x.1 answer db')
    (hafter : after =
      undoingAfter wf (undoing wf x.2) (.call ⟨m, op⟩ answer : Session.Label runId))
    (hdone : Compensated wf runId x.1) :
    after = true ∨ ∃ row, db'.runs.find? runId = some row ∧ row.status.terminal = true := by
  by_cases hop : ∃ run events, op = .checkpoint run events
  · obtain ⟨run, events, rfl⟩ := hop
    cases answer with
    | error e =>
        obtain rfl := same_of_checkpoint_error hs
        rw [hafter]
        exact h.ended hdone
    | ok value =>
        obtain ⟨rfl, ⟨row, hrow⟩, -, hgiven⟩ := hcareful
        by_cases hfailed : run.status = .failed
        · obtain ⟨now, hrow'⟩ := row_of_checkpoint hs hrow
          refine Or.inr ⟨_, hrow', ?_⟩
          change run.status.terminal = true
          rw [hfailed]
          rfl
        · left
          obtain ⟨-, hundoing⟩ := (hgiven hdone).resolve_left hfailed
          rw [hafter]
          simp [undoingAfter, hundoing, hfailed]
  · rcases h.ended hdone with hundoing | ⟨row, hrow, hterminal⟩
    · left
      rw [hafter, hundoing]
      cases op <;> first | rfl | exact absurd ⟨_, _, rfl⟩ hop
    · right
      rcases runRow_of_step hs hrow with hsame | ⟨run, events, now, rfl, -⟩ | ⟨tenantId, now, rfl, -, hnew⟩
      · exact ⟨row, hsame, hterminal⟩
      · exact absurd ⟨run, events, rfl⟩ hop
      · exact ⟨_, hnew, rfl⟩

/-- A careful call leaves the run in hand. -/
theorem inHand_of_step {x y : DB × Session.History runId} {call : Call} {answer : call.Res}
    (h : InHand wf x) (hcareful : Careful wf x call)
    (hs : Serial.recorded (Call.step d.engine.policy redact) x call answer y) : InHand wf y := by
  obtain ⟨m, op⟩ := call
  obtain ⟨hs, hh⟩ := hs
  have hafter : undoing wf y.2 =
      undoingAfter wf (undoing wf x.2) (.call ⟨m, op⟩ answer : Session.Label runId) := by
    rw [hh, undoing_append]
  refine ⟨ofWorkflow_of_step h.workflow ?_ hs, fun row' hrow' => ?_, fun hdone row' hrow' => ?_,
    fun hdone => ?_⟩
  · rintro run rfl
    exact hcareful.1
  · rcases runRow_cases hs hrow' with hsame | ⟨run, now, rfl, rfl⟩ | ⟨run, events, now, row, rfl, -, rfl⟩ |
      ⟨tenantId, now, row, rfl, hrow, rfl⟩
    · exact h.place row' hsame
    · change wf.Reaches (run.cursorStep.getD wf.start)
      rw [hcareful.2.2]
      exact .start
    · exact hcareful.2.2.1
    · exact h.place row hrow
  · rcases compensated_of_step hs hdone with hbefore | ⟨tenantId, key, owner, stepId, tool, result, rfl, -⟩
    · rcases runRow_cases hs hrow' with hsame | ⟨run, now, rfl, rfl⟩ | ⟨run, events, now, row, rfl, -, rfl⟩ |
        ⟨tenantId, now, row, rfl, -, rfl⟩
      · exact h.stored hbefore row' hsame
      · change run.status ≠ .succeeded
        rw [hcareful.2.1]
        exact nofun
      · rcases hcareful.2.2.2 hbefore with hfailed | ⟨hopen, -⟩
        · change run.status ≠ .succeeded
          rw [hfailed]
          exact nofun
        · exact hopen
      · exact nofun
    · obtain ⟨now, hdb⟩ := hs
      rw [hdb] at hrow'
      exact hcareful row' hrow'
  · rcases compensated_of_step hs hdone with hbefore | ⟨tenantId, key, owner, stepId, tool, result, rfl, hcomp⟩
    · exact ended_of_step h hcareful hs hafter hbefore
    · left
      rw [hafter]
      simp [undoingAfter, hcomp]

/-- The rest of the world leaves the run in hand. -/
theorem inHand_of_kept {x y : DB × Session.History runId} (h : InHand wf x) (hkept : Kept runId x.1 y.1)
    (hundoing : undoing wf y.2 = undoing wf x.2) : InHand wf y := by
  have hrow : ∀ row', y.1.runs.find? runId = some row' → ∃ row, x.1.runs.find? runId = some row ∧
      SameProgress row row' ∧ (row'.status = row.status ∨ row'.status = .canceled) := by
    intro row' hrow'
    cases hfind : x.1.runs.find? runId with
    | none =>
        rw [hkept.absent hfind] at hrow'
        cases hrow'
    | some row =>
        obtain ⟨row'', hrow'', hsame, hstatus⟩ := hkept.row row hfind
        obtain rfl := Option.some.inj (hrow''.symm.trans hrow')
        exact ⟨row, rfl, hsame, hstatus⟩
  refine ⟨ofWorkflow_of_kept h.workflow hkept, fun row' hrow' => ?_, fun hdone row' hrow' => ?_,
    fun hdone => ?_⟩
  · obtain ⟨row, hold, hsame, -⟩ := hrow row' hrow'
    rw [hsame.cursorStep]
    exact h.place row hold
  · obtain ⟨row, hold, -, hstatus | hcanceled⟩ := hrow row' hrow'
    · rw [hstatus]
      exact h.stored (hkept.compensated hdone) row hold
    · rw [hcanceled]
      exact nofun
  · rw [hundoing]
    refine (h.ended (hkept.compensated hdone)).imp_right ?_
    rintro ⟨row, hold, hterminal⟩
    obtain ⟨row', hrow', -, hstatus | hcanceled⟩ := hkept.row row hold
    · exact ⟨row', hrow', by rw [hstatus]; exact hterminal⟩
    · exact ⟨row', hrow', by rw [hcanceled]; rfl⟩

/-! ### A driver of the run -/

/-- The driver is at a step it can come to, of a run that has not succeeded, and knows `A` of the
compensations. -/
structure Driving (wf : Workflow) (A : DB × Session.History runId → Prop) (m : Mem)
    (x : DB × Session.History runId) : Prop where
  holds : Holds runId m x
  workflow : m.run.workflowId = wf.id
  place : wf.Reaches (m.run.cursorStep.getD wf.start)
  status : m.run.status.terminal = false
  stored : ∀ row, x.1.runs.find? runId = some row → row.status ≠ .succeeded
  acted : A x

/-- No compensation has acted. -/
def Unacted (wf : Workflow) (x : DB × Session.History runId) : Prop := ¬Compensated wf runId x.1

/-- A compensation that has acted is part of a giving up. -/
def Undoing (wf : Workflow) (x : DB × Session.History runId) : Prop :=
  Compensated wf runId x.1 → undoing wf x.2 = true

/-- What a driver may know of the compensations: that those that have acted are part of a giving up. -/
structure Known (wf : Workflow) (A : DB × Session.History runId → Prop) : Prop where
  covered : ∀ x, A x → Undoing wf x
  mono : ∀ x y, A x → (Compensated wf runId y.1 → Compensated wf runId x.1) →
    (undoing wf x.2 = true → undoing wf y.2 = true) → A y

theorem known_unacted (wf : Workflow) : Known wf (@Unacted runId wf) where
  covered := fun _ hA hdone => absurd hdone hA
  mono := fun _ _ hA hback _ hdone => hA (hback hdone)

theorem known_undoing (wf : Workflow) : Known wf (@Undoing runId wf) where
  covered := fun _ hA => hA
  mono := fun _ _ hA hback hforth hdone => hforth (hA (hback hdone))

namespace Driving

variable {A : DB × Session.History runId → Prop} {m m' : Mem} {x y : DB × Session.History runId}

theorem awaits (h : Driving wf A m x) (hawaits : Awaits m m') : Driving wf A m' x where
  holds := ⟨hawaits.id.trans h.holds.1, h.holds.2⟩
  workflow := hawaits.workflowId.trans h.workflow
  place := by rw [hawaits.cursorStep]; exact h.place
  status := by
    rcases hawaits.status with hsame | hwaiting | hrunning
    · rw [hsame]
      exact h.status
    · rw [hwaiting]
      rfl
    · rw [hrunning]
      rfl
  stored := h.stored
  acted := h.acted

theorem inPlace (h : Driving wf A m x) (hplace : InPlace m m') : Driving wf A m' x where
  holds := ⟨hplace.id.trans h.holds.1, h.holds.2⟩
  workflow := hplace.workflowId.trans h.workflow
  place := by rw [hplace.cursorStep]; exact h.place
  status := by rw [hplace.status]; exact h.status
  stored := h.stored
  acted := h.acted

theorem rely (hA : Known wf A) (h : Driving wf A m x)
    (hrely : (undoSpec d redact wf runId).rely x y) : Driving wf A m y := by
  obtain ⟨hkept, events, hh⟩ := hrely
  obtain ⟨hm, row, hrow⟩ := h.holds
  obtain ⟨row', hrow', -, hstatus⟩ := hkept.row row hrow
  refine ⟨⟨hm, row', hrow'⟩, h.workflow, h.place, h.status, fun row'' hrow'' => ?_, ?_⟩
  · obtain rfl := Option.some.inj (hrow'.symm.trans hrow'')
    rcases hstatus with hsame | hcanceled
    · rw [hsame]
      exact h.stored row hrow
    · rw [hcanceled]
      exact nofun
  · refine hA.mono x y h.acted hkept.compensated fun hundoing => ?_
    rw [hh, undoing_append_env]
    exact hundoing

/-- A call inside a step that leaves what is known of the compensations leaves the driver at it. -/
theorem call {op : Op} {answer : op.Res} (h : Driving wf A m x) (hop : op.Inner)
    (hs : (undoSpec d redact wf runId).step x ⟨m, op⟩ answer y) (hA : A y) : Driving wf A m y := by
  obtain ⟨-, hs, -⟩ := hs
  obtain ⟨hm, row, hrow⟩ := h.holds
  have hrow' := find_of_inner hop hs hrow
  refine ⟨⟨hm, row, hrow'⟩, h.workflow, h.place, h.status, fun row'' hrow'' => ?_, hA⟩
  obtain rfl := Option.some.inj (hrow'.symm.trans hrow'')
  exact h.stored row hrow

end Driving

theorem RunStatus.ne_of_open {status : RunStatus} (h : status.terminal = false) :
    status ≠ .failed ∧ status ≠ .succeeded := by
  constructor <;> rintro rfl <;> cases h

theorem careful_of_inner {x : DB × Session.History runId} {m : Mem} {op : Op} (hop : op.Inner)
    (hstored : ∀ row, x.1.runs.find? runId = some row → row.status ≠ .succeeded) :
    Careful wf x ⟨m, op⟩ := by
  cases op <;> trivial

section Calls

variable {A : DB × Session.History runId → Prop} {P : Call → Prop}

/-- Calls inside a step keep the driver at it if they keep what it knows of the compensations. -/
theorem driving_perform (hA : Known wf A) {op : Op} (hop : op.Inner)
    (hcall : ∀ m x y (answer : op.Res), P ⟨m, op⟩ → A x →
      Serial.recorded (Call.step d.engine.policy redact) x ⟨m, op⟩ answer y → A y) :
    Act.Keeps ((undoSpec d redact wf runId).assuming P) (Driving wf A) (perform op) := by
  refine Act.keeps_perform fun m x h x₁ hrely => ?_
  have h₁ : Driving wf A m x₁ := @Driving.rely d redact runId wf A m x x₁ hA h hrely
  refine ⟨fun _ => careful_of_inner hop h₁.stored, fun answer y hs => ?_⟩
  exact h₁.call hop hs.2 (hcall m x₁ y answer hs.1 h₁.acted hs.2.2)

/-- A checkpoint of a run that goes on. -/
theorem driving_checkpoint (hA : Known wf A) :
    Act.Keeps (undoSpec d redact wf runId) (Driving wf A) EngineM.checkpoint := by
  refine keeps_checkpoint_call fun m x h x₁ hrely => ?_
  have h₁ : Driving wf A m x₁ := @Driving.rely d redact runId wf A m x x₁ hA h hrely
  obtain ⟨hfailed, hsucceeded⟩ := RunStatus.ne_of_open h₁.status
  refine ⟨⟨h₁.holds.1, h₁.holds.2, h₁.place, fun hdone =>
    Or.inr ⟨hsucceeded, hA.covered x₁ h₁.acted hdone⟩⟩, fun answer y hs => ?_⟩
  obtain ⟨-, hs, hh⟩ := hs
  have hacted : A y := by
    refine hA.mono x₁ y h₁.acted (fun hdone => ?_) fun hundoing => ?_
    · rcases compensated_of_step hs hdone with hbefore | ⟨_, _, _, _, _, _, heq, -⟩
      · exact hbefore
      · cases heq
    · rw [hh, undoing_append]
      cases answer with
      | ok value => simp [undoingAfter, hundoing, hfailed]
      | error e => exact hundoing
  have hkept : Driving wf A m y := by
    obtain ⟨hm, row, hrow⟩ := h₁.holds
    cases answer with
    | ok value =>
        subst hm
        obtain ⟨now, hrow'⟩ := row_of_checkpoint hs hrow
        refine ⟨⟨rfl, _, hrow'⟩, h₁.workflow, h₁.place, h₁.status, fun row'' hrow'' => ?_, hacted⟩
        obtain rfl := Option.some.inj (hrow'.symm.trans hrow'')
        exact hsucceeded
    | error e =>
        have hdb : y.1 = x₁.1 := same_of_checkpoint_error hs
        exact ⟨⟨hm, row, by rw [hdb]; exact hrow⟩, h₁.workflow, h₁.place, h₁.status,
          by rw [hdb]; exact h₁.stored, hacted⟩
  exact ⟨hkept, hkept.holds, hkept.workflow, hkept.place, hkept.status, hkept.stored, hkept.acted⟩

theorem driving_handlers (cfg : EngineConfig) (hA : Known wf A)
    (hcall : ∀ m x y (op : Op) (answer : op.Res), op.Inner → P ⟨m, op⟩ → A x →
      Serial.recorded (Call.step d.engine.policy redact) x ⟨m, op⟩ answer y → A y) :
    Handlers cfg wf ((undoSpec d redact wf runId).assuming P) (Driving wf A) fun _ => Driving wf A := by
  have hperform : ∀ op : Op, op.Inner →
      Act.Keeps ((undoSpec d redact wf runId).assuming P) (Driving wf A) (perform op) :=
    fun op hop => driving_perform hA hop fun m x y answer => hcall m x y op answer hop
  have hawait : ∀ step approvers tool args, Act.Keeps ((undoSpec d redact wf runId).assuming P)
      (Driving wf A) (WorkflowEngine.awaitApproval cfg step approvers tool args) :=
    keeps_awaitApproval (fun m m' x ha h => h.awaits ha) (fun op hop => hperform op hop.plain.inner)
      (savedIn_of_keeps ((driving_checkpoint hA).assuming P) _)
  exact handlers_inPlace (fun _ _ _ h => h) (fun m m' x hplace h => h.inPlace hplace)
    (fun op hop => hperform op hop.inStep.inner) wf hawait

/-- A step keeps the driver at it if the calls it makes do. -/
theorem driving_runStep (cfg : EngineConfig) (hA : Known wf A) {step : Step} (hstep : wf.HasStep step)
    (hcall : ∀ m x y (op : Op) (answer : op.Res), op.Inner → op.Of cfg step → A x →
      Serial.recorded (Call.step d.engine.policy redact) x ⟨m, op⟩ answer y → A y) :
    Act.Keeps (undoSpec d redact wf runId) (Driving wf A) (WorkflowEngine.runStep cfg step) := by
  intro m x h
  have hkept := (driving_handlers (P := fun call => call.op.Of cfg step) cfg hA hcall).runStep hstep m x h
  have hdriver := performs_driver cfg (Op.Of cfg step) m.run.tenantId m.run.id
  have hcalls := hdriver.runStep performs_awaitApproval m () ⟨rfl, rfl⟩
  exact Prog.wp_of_assuming _ hkept (Prog.wp_calls_mono (fun call hP => hP.1) _ hcalls)

end Calls

/-- A step that is no compensation leaves the ledger without one. -/
theorem unacted_runStep (cfg : EngineConfig) {step : Step} (hstep : wf.HasStep step)
    (hmain : step.id ∉ wf.compensators) :
    Act.Keeps (undoSpec d redact wf runId) (Driving wf (Unacted wf)) (WorkflowEngine.runStep cfg step) := by
  refine driving_runStep cfg (known_unacted wf) hstep fun m x y op answer _ hof hbefore hs hdone => ?_
  rcases compensated_of_step hs.1 hdone with hold | ⟨tenantId, key, owner, stepId, tool, result, rfl, hcomp⟩
  · exact hbefore hold
  · obtain ⟨rfl, -⟩ := hof
    exact hmain hcomp

/-- A compensation acts only while the run is being given up. -/
theorem undoing_runStep (cfg : EngineConfig) {step : Step} (hstep : wf.HasStep step) :
    Act.Keeps (undoSpec d redact wf runId) (Driving wf (Undoing wf)) (WorkflowEngine.runStep cfg step) := by
  refine driving_runStep cfg (known_undoing wf) hstep fun m x y op answer hop _ hbefore hs hdone => ?_
  obtain ⟨hs, hh⟩ := hs
  rw [hh, undoing_append]
  rcases compensated_of_step hs hdone with hold | ⟨tenantId, key, owner, stepId, tool, result, rfl, hcomp⟩
  · have hundoing := hbefore hold
    cases op <;> simp_all [undoingAfter, Op.Inner]
  · simp [undoingAfter, hcomp]

/-! ### Failing and finishing -/

/-- Whatever is known of the compensations, the run can be marked as failed. -/
theorem driving_failRun {A : DB × Session.History runId → Prop} (hA : Known wf A) (reason detail : String)
    {m : Mem} {x : DB × Session.History runId} (h : Driving wf A m x) :
    Act.wp (undoSpec d redact wf runId) (WorkflowEngine.failRun reason detail) (fun _ _ _ => True)
      (fun _ _ _ => True) m x := by
  refine (wp_modifyRun_bind _ _).mpr ((wp_emit_bind _ _ _ _ _ _).mpr (wp_checkpoint.mpr ?_))
  intro x₁ hrely
  have h₁ : Driving wf A m x₁ := @Driving.rely d redact runId wf A m x x₁ hA h hrely
  refine ⟨⟨h₁.holds.1, h₁.holds.2, h₁.place, fun _ => Or.inl rfl⟩, fun answer y _ => ?_⟩
  cases answer <;> trivial

/-- The compensation of the step that failed opens the giving up. -/
theorem driving_compensate (cfg : EngineConfig) (step : Step) {m : Mem} {x : DB × Session.History runId}
    (h : Driving wf (Unacted wf) m x) :
    Act.wp (undoSpec d redact wf runId) (WorkflowEngine.compensate cfg wf step)
      (fun _ => Driving wf (Undoing wf)) (fun _ => Driving wf (Undoing wf)) m x := by
  have hemit : ∀ type payload stepId actor, Act.Keeps (undoSpec d redact wf runId)
      (Driving wf (Undoing wf)) (emit type payload stepId 0 actor) :=
    fun _ _ _ _ => Act.keeps_modify fun m x h => h.awaits (awaits_emit rfl)
  have hkeeps : Act.Keeps (undoSpec d redact wf runId) (Driving wf (Undoing wf))
      (WorkflowEngine.compensate cfg wf step) := by
    unfold WorkflowEngine.compensate
    split
    · exact Act.keeps_pure _
    · rename_i comp hcomp
      refine Act.keeps_bind (hemit _ _ _ _) fun _ => Act.keeps_tryCatch ?_ fun e => hemit _ _ _ _
      exact Act.keeps_bind (undoing_runStep cfg (hasStep_of_compensation hcomp)) fun _ => Act.keeps_pure _
  exact hkeeps m x { h with acted := (known_unacted wf).covered x h.acted }

/-- At the head of the loop: the next step is one that the drive can come to. -/
def Heading (wf : Workflow) (next : Option String) (m : Mem) (x : DB × Session.History runId) : Prop :=
  ∀ key, next = some key → wf.Reaches key ∧ Driving wf (Unacted wf) m x

/-- Standing a step that the drive has come to. -/
def Standing (wf : Workflow) (step : Step) (m : Mem) (x : DB × Session.History runId) : Prop :=
  (∃ key, wf.Reaches key ∧ wf.steps.get? key = some step) ∧ Driving wf (Unacted wf) m x

/-- After a step that leads where the drive can come to. -/
def Onward (wf : Workflow) (next : Option String) (m : Mem) (x : DB × Session.History runId) : Prop :=
  (∀ key, next = some key → wf.Reaches key) ∧ Driving wf (Unacted wf) m x

theorem undo_advance (next : Option String) {m : Mem} {x : DB × Session.History runId}
    (h : Onward wf next m x) :
    Act.wp (undoSpec d redact wf runId) (WorkflowEngine.advance next) (fun _ => Heading wf next)
      (fun _ _ _ => True) m x := by
  obtain ⟨hplace, h⟩ := h
  refine (wp_modifyRun_bind _ _).mpr ?_
  cases next with
  | some key =>
      have hmoved : Driving wf (Unacted wf) { m with run := { m.run with cursorStep := some key } } x :=
        { h with place := hplace key rfl }
      refine Act.wp_mono _ (fun _ m' x' h' key' heq => ?_) (fun _ _ _ _ => trivial)
        (driving_checkpoint (known_unacted wf) _ x hmoved)
      exact ⟨hplace key' heq, h'⟩
  | none =>
      refine (wp_modifyRun_bind _ _).mpr ((wp_modifyRun_bind _ _).mpr ?_)
      refine (wp_getRun_bind _).mpr ((wp_emit_bind _ _ _ _ _ _).mpr (wp_checkpoint.mpr ?_))
      intro x₁ hrely
      have h₁ : Driving wf (Unacted wf) m x₁ :=
        @Driving.rely d redact runId wf (Unacted wf) m x x₁ (known_unacted wf) h hrely
      refine ⟨⟨h₁.holds.1, h₁.holds.2, .start, fun hdone => absurd hdone h₁.acted⟩, fun answer y _ => ?_⟩
      cases answer with
      | ok value => exact nofun
      | error e => trivial

theorem unacted_of_step {x y : DB × Session.History runId} {op : Op} {answer : op.Res}
    (h : Unacted wf x) (hop : ∀ tenantId key owner stepId tool result,
      op ≠ .recordEffect tenantId key owner stepId tool result)
    (hs : op.step d.engine.policy redact x.1 answer y.1) : Unacted wf y := by
  intro hdone
  rcases compensated_of_step hs hdone with hbefore | ⟨tenantId, key, owner, stepId, tool, result, heq, -⟩
  · exact h hbefore
  · exact hop _ _ _ _ _ _ heq

theorem driving_span (step : Step) : Act.Keeps (undoSpec d redact wf runId)
    (Driving wf (Unacted wf)) (perform (.stepSpan step)) := by
  refine Act.keeps_perform fun m x h x₁ hrely => ?_
  have h₁ : Driving wf (Unacted wf) m x₁ :=
    @Driving.rely d redact runId wf (Unacted wf) m x x₁ (known_unacted wf) h hrely
  have hop : (Op.stepSpan step).Inner := trivial
  refine ⟨trivial, fun answer y hs => h₁.call hop hs (unacted_of_step h₁.acted ?_ hs.2.1)⟩
  exact fun _ _ _ _ _ _ heq => nomatch heq

theorem undo_outline (cfg : EngineConfig) (d : Deployment) (redact : Json → Json) (runId : String)
    (hseparate : wf.Separate) :
    Outline cfg wf (undoSpec d redact wf runId) (Heading wf) (Standing wf)
      (fun _ => Onward wf) (fun step _ => Standing wf step) (fun _ _ _ => True) where
  unknown := fun _ _ _ _ _ => trivial
  budget := fun _ _ violation m x _ h _ =>
    driving_failRun (known_unacted wf) "budget exceeded" violation (h _ rfl).2
  enter := by
    intro stepId step m x hget h _
    obtain ⟨hplace, h⟩ := h stepId rfl
    refine (wp_modifyRun_bind _ _).mpr ((wp_emit_bind _ _ _ _ _ _).mpr ?_)
    refine Act.wp_mono _ (fun _ m' x' h' => ⟨⟨stepId, hplace, hget⟩, h'⟩) (fun _ _ _ _ => trivial)
      (driving_span step _ x ?_)
    exact ⟨h.holds, h.workflow, h.place, h.status, h.stored, h.acted⟩
  run := by
    rintro step m x hstep - ⟨⟨key, hreached, hget⟩, h⟩
    have hleads := leads_runStep (S := undoSpec d redact wf runId) cfg step m x
    refine Act.wp_mono _ (fun next m' x' h' => ⟨fun goto heq => ?_, h'.1⟩)
      (fun e m' x' h' => ⟨⟨key, hreached, hget⟩, h'.1⟩)
      (Act.wp_and _ (unacted_runStep cfg hstep (hseparate key step hreached hget) m x h) hleads)
    exact .follow hreached hget (h'.2 goto heq)
  retry := by
    rintro step e attempt m x _ _ ⟨hinside, h⟩
    have hemitted : Driving wf (Unacted wf) { m with buffer := m.buffer ++ [⟨m.run.id, m.run.tenantId,
        "step_retry", WorkflowEngine.retryPayload step attempt e, some step.id, "system", 0⟩] } x :=
      h.awaits (awaits_emit rfl)
    exact ⟨⟨hinside, hemitted⟩, hinside, hemitted⟩
  exhausted := fun _ _ _ h => h
  denied := fun _ e m x _ _ h => driving_failRun (known_unacted wf) "policy denied" e.str h.2
  failed := by
    rintro step e m x _ _ ⟨-, h⟩
    refine (Act.wp_bind _ _).mpr (Act.wp_mono _ (fun _ m' x' h' => ?_) (fun _ _ _ _ => trivial)
      (driving_compensate cfg step h))
    exact driving_failRun (known_undoing wf) "step failed" e.str h'
  other := fun _ _ _ _ _ _ _ _ => trivial
  finish := fun _ next m x _ h => undo_advance next h

/-! ### Sessions -/

/-- An attempt that has the run in memory: if the run goes on, no compensation of it has acted. -/
structure InCharge (wf : Workflow) (m : Mem) (x : DB × Session.History runId) : Prop where
  holds : Holds runId m x
  workflow : m.run.workflowId = wf.id
  place : wf.Reaches (m.run.cursorStep.getD wf.start)
  opened : m.run.status.terminal = false →
    Unacted wf x ∧ ∀ row, x.1.runs.find? runId = some row → row.status ≠ .succeeded

theorem InCharge.driving {m : Mem} {x : DB × Session.History runId} (h : InCharge wf m x)
    (hopen : m.run.status.terminal = false) : Driving wf (Unacted wf) m x :=
  ⟨h.holds, h.workflow, h.place, hopen, (h.opened hopen).2, (h.opened hopen).1⟩

theorem inCharge_resolve (tenantId approvalId : String) (approved : Bool) (decidedBy note : String) :
    Act.Keeps (undoSpec d redact wf runId) (InCharge wf)
      (perform (.resolveApproval tenantId approvalId approved decidedBy note)) := by
  refine Act.keeps_perform fun m x h x₁ hrely => ⟨trivial, fun answer y hs => ?_⟩
  have hop : (Op.resolveApproval tenantId approvalId approved decidedBy note).Inner := trivial
  have hkept := hrely.1
  obtain ⟨hm, row, hrow⟩ := h.holds
  obtain ⟨row₁, hrow₁, -, -⟩ := hkept.row row hrow
  refine ⟨⟨hm, row₁, find_of_inner hop hs.2.1 hrow₁⟩, h.workflow, h.place, fun hopen => ?_⟩
  have h₁ : Driving wf (Unacted wf) m x₁ := @Driving.rely d redact runId wf (Unacted wf) m x x₁
    (known_unacted wf) (h.driving hopen) hrely
  have hdone : Driving wf (Unacted wf) m y := by
    refine h₁.call hop hs (unacted_of_step h₁.acted ?_ hs.2.1)
    exact fun _ _ _ _ _ _ heq => nomatch heq
  exact ⟨hdone.acted, hdone.stored⟩

/-- No giving up is under way. -/
def Unopened (wf : Workflow) (x : DB × Session.History runId) : Prop := undoing wf x.2 = false

theorem undoing_of_service {h h' : Session.History runId} {m : Mem} {op : Op} {answer : op.Res}
    (hh : h' = h ++ [.call ⟨m, op⟩ answer]) (hop : op.Service) : undoing wf h' = undoing wf h := by
  rw [hh, undoing_append]
  cases op <;> first | rfl | exact hop.elim

theorem undo_entry (attempt : Attempt runId) (hseparate : wf.Separate)
    (hdrives : ∀ wf', attempt.request.definition d wf.id = some wf' → wf' = wf) :
    Entry d (undoSpec d redact wf runId) (Unopened wf) (InCharge wf) attempt.request where
  rely := by
    rintro x y hunopened ⟨-, events, hh⟩
    rw [Unopened, hh, undoing_append_env]
    exact hunopened
  early := by
    rintro x m op answer y hunopened ⟨-, -, hh⟩ hop -
    rw [Unopened, undoing_of_service hh hop]
    exact hunopened
  service := by
    intro x m op hop hwanted
    cases op with
    | insertRun run =>
        obtain ⟨wf', hwf', hworkflow, hcursor⟩ := wanted_definition (hwanted run rfl) wf.id
        obtain rfl := hdrives wf' hwf'
        exact ⟨hworkflow, (wanted_ident (hwanted run rfl)).2.2.2, hcursor⟩
    | checkpoint run events => exact hop.elim
    | recordEffect tenantId key owner stepId tool result => exact hop.elim
    | _ => trivial
  loaded := by
    rintro x m tenantId run y hunopened - ⟨hinhand, hload, hh⟩
    obtain ⟨hid, row, hrow, hrow', rfl⟩ := attempt.loaded hload
    refine ⟨⟨hid, row, hrow'⟩, hinhand.workflow row hrow, hinhand.place row hrow, fun hopen => ⟨?_, ?_⟩⟩
    · intro hdone
      rw [hload.2] at hdone
      rcases hinhand.ended hdone with hundoing | ⟨row', hold, hterminal⟩
      · rw [Unopened, hundoing] at hunopened
        cases hunopened
      · obtain rfl := Option.some.inj (hrow.symm.trans hold)
        exact absurd (hterminal.symm.trans hopen) (by decide)
    · intro row' hfound
      obtain rfl := Option.some.inj (hrow'.symm.trans hfound)
      exact (RunStatus.ne_of_open hopen).2
  created := by
    rintro x m run y hunopened - hwanted ⟨hinhand, hs, hh⟩
    obtain ⟨-, -, -, hpending⟩ := wanted_ident hwanted
    obtain ⟨hid, hnew, now, hrow'⟩ := attempt.inserted hwanted hs
    obtain ⟨wf', hwf', hworkflow, hcursor⟩ := wanted_definition hwanted wf.id
    obtain rfl := hdrives wf' hwf'
    refine ⟨⟨hid, _, hrow'⟩, hworkflow, ?_, fun _ => ⟨?_, fun row hrow => ?_⟩⟩
    · change wf'.Reaches (run.cursorStep.getD wf'.start)
      rw [hcursor]
      exact .start
    · have hop : ∀ tenantId key owner stepId tool result,
          Op.insertRun run ≠ .recordEffect tenantId key owner stepId tool result :=
        fun _ _ _ _ _ _ heq => nomatch heq
      refine unacted_of_step (x := x) (fun hdone => ?_) hop hs
      rcases hinhand.ended hdone with hundoing | ⟨row, hold, -⟩
      · rw [Unopened, hundoing] at hunopened
        cases hunopened
      · rw [hnew] at hold
        cases hold
    · obtain rfl := Option.some.inj (hrow'.symm.trans hrow)
      change run.status ≠ .succeeded
      rw [hpending]
      exact nofun
  resolve := inCharge_resolve
  fired := fun m x payload h => ⟨h.holds, h.workflow, h.place, h.opened⟩
  resume := by
    rintro cfg wf' m x - hwf' h
    rw [h.workflow] at hwf'
    obtain rfl := hdrives wf' hwf'
    refine (undo_outline cfg d redact runId hseparate).drives fun hstatus => ?_
    rintro _ ⟨⟩
    exact ⟨h.place, { h.driving hstatus with status := rfl }⟩

/-- No attempt begins while a compensation has acted and the failure is not committed. -/
def Concluding (wf : Workflow) (h : Session.History runId) : Session.Label runId → Prop
  | .start _ => undoing wf h = false
  | _ => True

instance (wf : Workflow) (h : Session.History runId) (label : Session.Label runId) :
    Decidable (Concluding wf h label) :=
  match label with
  | .start _ => inferInstanceAs (Decidable (undoing wf h = false))
  | .call _ _ | .env _ => .isTrue trivial

theorem undo_discipline (d : Deployment) (redact : Json → Json) (wf : Workflow) (runId : String)
    (hseparate : wf.Separate) :
    Serial.Discipline (Call.step d.engine.policy redact)
      (fun attempt : Attempt runId => attempt.request.program d)
      (fun db (event : Outside) db' => event.step d.engine.policy redact runId db db')
      (fun h label => Driven d wf h label ∧ Concluding wf h label) (InHand wf)
      (undoSpec d redact wf runId) (fun _ => True) where
  allowed := fun _ _ _ _ hx _ _ hrec => ⟨hx, hrec⟩
  refl := fun x _ => ⟨Kept.refl runId x.1, [], (List.append_nil _).symm⟩
  trans := by
    rintro x y z ⟨hkept, events, hh⟩ ⟨hkept', events', hh'⟩
    exact ⟨hkept.trans hkept', events ++ events', by rw [hh', hh, List.map_append, List.append_assoc]⟩
  stable := fun _ _ _ _ => trivial
  call := fun _ _ _ _ hinhand hcareful _ hrec => inHand_of_step hinhand hcareful hrec
  env := by
    intro db h event db' hinhand _ henv
    have hkept := kept_of_outside henv
    exact ⟨inHand_of_kept hinhand hkept (undoing_append_env h [event]), hkept, [event], rfl⟩
  start := by
    rintro db h attempt hinhand ⟨hdriven, hconcluding⟩
    have hsame : undoing wf (h ++ [.start attempt]) = undoing wf h := undoing_append h _
    refine ⟨inHand_of_kept hinhand (Kept.refl runId db) hsame, ?_⟩
    exact (undo_entry attempt hseparate hdriven).program attempt.driver (hsame.trans hconcluding)

/-- **Giving up is for good.** Unless an attempt is abandoned between a compensation and the commit of the
failure, a run whose compensation has acted never succeeds, and is being given up or has failed or was
canceled. -/
theorem compensated_not_succeeded {db : DB} {labels : Session.History runId} {c : Session}
    (hseparate : wf.Separate) (hworkflow : OfWorkflow wf runId db)
    (hplace : ∀ row, db.runs.find? runId = some row → wf.Reaches (row.cursorStep.getD wf.start))
    (hclean : ¬Compensated wf runId db)
    (hrun : Session.Run d redact runId (Session.idle db) labels c)
    (hdrives : Session.Drives d wf labels)
    (hconcluding : Serial.Permitted (Concluding wf) [] labels) :
    (∀ row, c.shared.runs.find? runId = some row → row.status = .succeeded →
        ¬Compensated wf runId c.shared) ∧
      (Compensated wf runId c.shared → undoing wf labels = true ∨
        ∃ row, c.shared.runs.find? runId = some row ∧ (row.status = .failed ∨ row.status = .canceled)) := by
  have hok : Serial.Permitted (fun h label => Driven d wf h label ∧ Concluding wf h label)
      ([] : Session.History runId) labels := by
    intro before label after heq
    refine ⟨?_, hconcluding before label after heq⟩
    cases label with
    | start attempt => exact hdrives attempt (by simp [heq])
    | _ => trivial
  have hstart : InHand wf (db, ([] : Session.History runId)) :=
    ⟨hworkflow, hplace, fun hdone => absurd hdone hclean, fun hdone => absurd hdone hclean⟩
  have hinhand : InHand wf (c.shared, labels) :=
    (hrun.good (undo_discipline d redact wf runId hseparate) hok (.idle hstart trivial)).inv
  refine ⟨fun row hrow hsucceeded hdone => hinhand.stored hdone row hrow hsucceeded, fun hdone => ?_⟩
  refine (hinhand.ended hdone).imp_right ?_
  rintro ⟨row, hrow, hterminal⟩
  refine ⟨row, hrow, ?_⟩
  have hopen := hinhand.stored hdone row hrow
  cases hstatus : row.status <;> simp_all [RunStatus.terminal]

/-! ### A payment that is refunded and then made -/

def refundTool : Tool := { payTool with name := "refund" }

def refundingStep : Step :=
  { id := "refund"
    nodeType := .tool
    tool := some "refund" }

/-- One payment, to be refunded if it fails. -/
def refundWorkflow : Workflow :=
  { payWorkflow with
    steps := Dict.ofList
      [("pay", { payStep with maxAttempts := 1, compensateWith := some "refund" }), ("refund", refundingStep)] }

def refundDeployment : Deployment :=
  { payDeployment with
    engine :=
      { payDeployment.engine with
        tools :=
          { tools := Dict.ofList [("pay", payTool), ("refund", refundTool)]
            connectors := ["bank"]
            named := by decide
            connected := by decide } }
    workflowsById := Dict.ofList [("payments", refundWorkflow)]
    workflowsByName := Dict.ofList [("payments", refundWorkflow)] }

/-- The bank declines payments and makes refunds. -/
def World.declining : World :=
  { World.constant (.int 7) with
    execute := fun tool _ =>
      if tool = "pay" then .error (.bass .connectorError "declined") else .ok (.int 7)
    raises := by
      intro tool args e h
      split at h
      · cases h
        rfl
      · cases h }

/-- The payment is declined and refunded, and the attempt goes on for `calls` calls. -/
def refundedSession (calls : Nat) : Session.History "run" × Session :=
  Session.play refundDeployment id World.declining
    (.start (resumeAttempt "run") :: List.replicate calls .call) (Session.idle (DB.withRun "run" "payments"))

/-- Another attempt, when the bank accepts payments. -/
def repaidSession (calls : Nat) : Session.History "run" × Session :=
  let later := Session.play refundDeployment id (World.constant (.int 7))
    (.start (resumeAttempt "run") :: List.replicate 7 .call) (refundedSession calls).2
  ((refundedSession calls).1 ++ later.1, later.2)

theorem repaidSession_run (calls : Nat) : Session.Run refundDeployment id "run"
    (Session.idle (DB.withRun "run" "payments")) (repaidSession calls).1 (repaidSession calls).2 :=
  (Session.play_run refundDeployment id _ _ (by simp) _).append
    (Session.play_run refundDeployment id _ _ (by simp) _)

theorem repaidSession_drives (calls : Nat) :
    Session.Drives refundDeployment refundWorkflow (repaidSession calls).1 := by
  intro attempt hmem wf' hwf'
  have hattempt : attempt = resumeAttempt "run" := by
    rcases List.mem_append.mp hmem with hfirst | hlater
    · simpa [List.mem_replicate] using Serial.start_of_mem_play hfirst
    · simpa [List.mem_replicate] using Serial.start_of_mem_play hlater
  subst hattempt
  cases hwf'
  rfl

theorem refundWorkflow_separate : refundWorkflow.Separate := by
  have hreached : ∀ key, refundWorkflow.Reaches key → key = "pay" := by
    intro key h
    induction h with
    | start => rfl
    | follow _ hget hleads ih =>
        subst ih
        cases hget
        rcases hleads with hnext | ⟨predicate, hmem⟩
        · cases hnext
        · cases hmem
  intro key step h hget
  obtain rfl := hreached key h
  cases hget
  decide

/-- The failure is committed after the refund, and the later attempt finds it. -/
theorem compensated_not_succeeded_refunded :
    (∀ row, (repaidSession 10).2.shared.runs.find? "run" = some row → row.status = .succeeded →
        ¬Compensated refundWorkflow "run" (repaidSession 10).2.shared) ∧
      (Compensated refundWorkflow "run" (repaidSession 10).2.shared →
        undoing refundWorkflow (repaidSession 10).1 = true ∨
          ∃ row, (repaidSession 10).2.shared.runs.find? "run" = some row ∧
            (row.status = .failed ∨ row.status = .canceled)) := by
  refine compensated_not_succeeded refundWorkflow_separate ?_ ?_ ?_ (repaidSession_run 10)
    (repaidSession_drives 10) (by decide +kernel)
  · intro row hrow
    cases hrow
    rfl
  · intro row hrow
    cases hrow
    exact .start
  · rintro ⟨row, hmem, -⟩
    cases hmem

/-- The attempt is abandoned after the refund is recorded, and the next one makes the payment. -/
theorem compensated_and_succeeded :
    refundWorkflow.Separate ∧
      Session.Run refundDeployment id "run" (Session.idle (DB.withRun "run" "payments"))
        (repaidSession 9).1 (repaidSession 9).2 ∧
      Compensated refundWorkflow "run" (repaidSession 9).2.shared ∧
      ∃ row, (repaidSession 9).2.shared.runs.find? "run" = some row ∧ row.status = .succeeded := by
  refine ⟨refundWorkflow_separate, repaidSession_run 9, ?_, _, rfl, rfl⟩
  exact ⟨_, List.mem_cons_self, rfl, "refund", by decide, rfl⟩

end Bass
