import Bass.Proof.Recording

/-!
# The cost ceiling

The budget is consulted at the head of the loop, so it bounds what a run has cost when it enters a
step. What the last step costs is not checked by anyone: a run that succeeds is within its budget if
the steps that may be the last ones are free.
-/

namespace Bass

open Interaction EngineM

variable {d : Deployment} {redact : Json → Json} {runId : String} {tools : ToolRegistry}
  {wf : Workflow}

/-! ### The entry into the last step -/

def Session.entersStep : Session.Label runId → Bool
  | .call ⟨_, .stepSpan _⟩ _ => true
  | _ => false

/-- The history before the last step was entered. -/
def Session.beforeEntry (h : Session.History runId) : Session.History runId :=
  (h.reverse.dropWhile fun label => !Session.entersStep label).tail.reverse

theorem beforeEntry_enter (h : Session.History runId) {label : Session.Label runId}
    (hlabel : Session.entersStep label = true) : Session.beforeEntry (h ++ [label]) = h := by
  simp [Session.beforeEntry, hlabel]

theorem beforeEntry_other (h : Session.History runId) {label : Session.Label runId}
    (hlabel : Session.entersStep label = false) :
    Session.beforeEntry (h ++ [label]) = Session.beforeEntry h := by
  simp [Session.beforeEntry, hlabel]

theorem beforeEntry_append_env (h : Session.History runId) (events : List Outside) :
    Session.beforeEntry (h ++ events.map Serial.Label.env) = Session.beforeEntry h := by
  induction events generalizing h with
  | nil => rw [List.map_nil, List.append_nil]
  | cons event events ih =>
      rw [List.map_cons, ← List.singleton_append, ← List.append_assoc, ih, beforeEntry_other h rfl]

/-- What the run had cost when the last step was entered. -/
def costAtEntry (tools : ToolRegistry) (c₀ : ℚ) (h : Session.History runId) : ℚ :=
  total tools c₀ (Session.beforeEntry h)

theorem Op.InStep.entersStep {op : Op} (hop : op.InStep) (m : Mem) (answer : op.Res) :
    Session.entersStep (.call ⟨m, op⟩ answer : Session.Label runId) = false := by
  cases op <;> first | rfl | exact hop.elim

/-! ### The step that ends the run -/

/-- The graph may end at the step. -/
def Step.canEnd (step : Step) : Bool := step.nodeType = .terminate || step.next.isNone

/-- The step that the attempt under way entered last. -/
def Session.lastStep? (h : Session.History runId) : Option Step :=
  h.foldl (fun entered label => match label with
    | .start _ => none
    | .call ⟨_, .stepSpan step⟩ _ => some step
    | _ => entered) none

theorem lastStep?_start (h : Session.History runId) (attempt : Attempt runId) :
    Session.lastStep? (h ++ [.start attempt]) = none := by
  simp [Session.lastStep?]

theorem lastStep?_enter (h : Session.History runId) (m : Mem) (step : Step) (answer : Unit) :
    Session.lastStep? (h ++ [.call ⟨m, .stepSpan step⟩ answer]) = some step := by
  simp [Session.lastStep?]

theorem lastStep?_call (h : Session.History runId) {m : Mem} {op : Op} {answer : op.Res}
    (hop : Session.entersStep (.call ⟨m, op⟩ answer : Session.Label runId) = false) :
    Session.lastStep? (h ++ [.call ⟨m, op⟩ answer]) = Session.lastStep? h := by
  cases op with
  | stepSpan step => cases hop
  | _ => simp [Session.lastStep?]

theorem lastStep?_append_env (h : Session.History runId) (events : List Outside) :
    Session.lastStep? (h ++ events.map Serial.Label.env) = Session.lastStep? h := by
  induction events generalizing h with
  | nil => rw [List.map_nil, List.append_nil]
  | cons event events ih =>
      rw [List.map_cons, ← List.singleton_append, ← List.append_assoc, ih]
      simp [Session.lastStep?]

section Last

variable {cfg : EngineConfig} {S : Spec Call Call.Res (DB × Session.History runId)} {m : Mem}
  {x : DB × Session.History runId}

/-- A step that returns no next one may be the last one. -/
theorem canEnd_runStep (step : Step) :
    Act.wp { S with guar := fun _ _ => True } (WorkflowEngine.runStep cfg step)
      (fun next _ _ => next = none → step.canEnd = true) (fun _ _ _ => True) m x := by
  have hany : ∀ {α : Type} (code : EngineM α) (m : Mem) (x : DB × Session.History runId),
      Act.wp { S with guar := fun _ _ => True } code (fun _ _ _ => True) (fun _ _ _ => True) m x :=
    fun code m x => Act.wp_of_guar (fun _ _ => trivial) code m x
  have hnext : step.next = none → step.canEnd = true := by
    intro hnone
    simp [Step.canEnd, hnone]
  -- whatever comes before the last return is irrelevant
  have hthen : ∀ {α : Type} (code : EngineM α) (rest : α → EngineM (Option String)),
      (∀ value m x, Act.wp { S with guar := fun _ _ => True } (rest value)
        (fun next _ _ => next = none → step.canEnd = true) (fun _ _ _ => True) m x) →
      ∀ m x, Act.wp { S with guar := fun _ _ => True } (code >>= rest)
        (fun next _ _ => next = none → step.canEnd = true) (fun _ _ _ => True) m x :=
    fun code rest hrest m x => (Act.wp_bind _ _).mpr
      (Act.wp_mono _ (fun value m' x' _ => hrest value m' x') (fun _ _ _ h => h) (hany code m x))
  have hreturn : ∀ m x, Act.wp { S with guar := fun _ _ => True } (return step.next : EngineM (Option String))
      (fun next _ _ => next = none → step.canEnd = true) (fun _ _ _ => True) m x := fun _ _ => hnext
  unfold WorkflowEngine.runStep
  cases htype : step.nodeType with
  | agent =>
      dsimp only
      unfold WorkflowEngine.runAgent
      split
      · trivial
      · refine hthen _ _ (fun run => hthen _ _ fun args => hthen _ _ fun output => ?_) m x
        exact hthen _ _ fun _ => hreturn
  | tool =>
      dsimp only
      unfold WorkflowEngine.runTool
      split
      · trivial
      · refine hthen _ _ (fun tool => hthen _ _ fun run => hthen _ _ fun args => hthen _ _ fun cached => ?_) m x
        intro m x
        split
        · refine hthen _ _ (fun _ => hthen _ _ fun answer => hthen _ _ fun result => hthen _ _ fun run => ?_) m x
          intro m x
          split
          · exact hthen _ _ (fun _ => hthen _ _ fun _ => hthen _ _ fun _ => hthen _ _ fun _ => hreturn) m x
          · exact hthen _ _ (fun _ => hthen _ _ fun _ => hthen _ _ fun _ => hreturn) m x
        · exact hthen _ _ (fun _ => hthen _ _ fun _ => hreturn) m x
  | branch =>
      refine hthen _ _ (fun run => hthen _ _ fun choice => ?_) m x
      cases choice with
      | none => exact hreturn
      | some goto =>
          refine hthen _ _ fun _ m x => (Act.wp_pure _).mpr fun hnone => ?_
          cases hnone
  | approval =>
      refine hthen _ _ (fun granted m x => ?_) m x
      split
      · exact hnext
      · trivial
  | terminate => exact fun _ => by simp [Step.canEnd, htype]
  | other name => trivial

/-- A checkpoint ends the run successfully only in a step that may be the last one. -/
def Ends (x : DB × Session.History runId) (call : Call) : Prop :=
  match call.op with
  | .checkpoint run _ => run.status = .succeeded →
      ∃ step, Session.lastStep? x.2 = some step ∧ step.canEnd = true
  | _ => True

/-- All that matters is what the attempt has called. -/
def lastSpec (runId : String) : Spec Call Call.Res (DB × Session.History runId) :=
  { step := fun x call answer y => y.2 = x.2 ++ [.call call answer]
    rely := fun x y => ∃ events : List Outside, y.2 = x.2 ++ events.map Serial.Label.env
    guar := Ends }

/-- The driver is in the step, and has not ended the run. -/
structure InLast (step : Step) (m : Mem) (x : DB × Session.History runId) : Prop where
  entered : Session.lastStep? x.2 = some step
  status : m.run.status ≠ .succeeded

variable {step : Step}

theorem InLast.rely {y : DB × Session.History runId} (h : InLast step m x) (hrely : (lastSpec runId).rely x y) :
    InLast step m y := by
  obtain ⟨events, hh⟩ := hrely
  exact ⟨by rw [hh, lastStep?_append_env]; exact h.entered, h.status⟩

theorem InLast.call {y : DB × Session.History runId} {op : Op} {answer : op.Res} (h : InLast step m x)
    (hop : ∀ step, op ≠ .stepSpan step) (hs : (lastSpec runId).step x ⟨m, op⟩ answer y) : InLast step m y := by
  have hother : Session.entersStep (.call ⟨m, op⟩ answer : Session.Label runId) = false := by
    cases op <;> first | rfl | exact absurd rfl (hop _)
  have hh : y.2 = x.2 ++ [.call ⟨m, op⟩ answer] := hs
  exact ⟨by rw [hh, lastStep?_call _ hother]; exact h.entered, h.status⟩

theorem InLast.inPlace {m' : Mem} (h : InLast step m x) (hplace : InPlace m m') : InLast step m' x :=
  ⟨h.entered, by rw [hplace.status]; exact h.status⟩

theorem InLast.awaits {m' : Mem} (h : InLast step m x) (hawaits : Awaits m m') : InLast step m' x := by
  refine ⟨h.entered, ?_⟩
  rcases hawaits.status with hsame | hwaiting | hrunning
  · rw [hsame]
    exact h.status
  · rw [hwaiting]
    nofun
  · rw [hrunning]
    nofun

theorem inLast_perform {op : Op} (hop : op.InStep) : Act.Keeps (lastSpec runId) (InLast step) (perform op) := by
  refine Act.keeps_perform fun m x h x₁ hrely => ⟨by cases op <;> trivial, fun answer y hs => ?_⟩
  exact (h.rely hrely).call (by rintro step rfl; exact hop) hs

theorem inLast_checkpoint : Act.Keeps (lastSpec runId) (InLast step) EngineM.checkpoint := by
  refine keeps_checkpoint_call fun m x h x₁ hrely => ?_
  refine ⟨fun hsucceeded => absurd hsucceeded h.status, fun answer y hs => ?_⟩
  have hkept := (h.rely hrely).call (fun _ heq => by cases heq) hs
  exact ⟨hkept, hkept.entered, hkept.status⟩

theorem inLast_handlers (cfg : EngineConfig) (wf : Workflow) (step : Step) :
    Handlers cfg wf (lastSpec runId) (InLast step) fun _ => InLast step :=
  handlers_inPlace (fun _ _ _ h => h) (fun _ _ _ hplace h => h.inPlace hplace)
    (fun _ hop => inLast_perform hop.inStep) wf (keeps_awaitApproval (fun _ _ _ hawaits h => h.awaits hawaits)
      (fun _ hop => inLast_perform hop.plain.inStep) (savedIn_of_keeps inLast_checkpoint _))

theorem last_failRun {reason detail : String} :
    Act.wp (lastSpec runId) (WorkflowEngine.failRun reason detail) (fun _ _ _ => True) (fun _ _ _ => True) m x := by
  refine (wp_modifyRun_bind _ _).mpr ((wp_emit_bind _ _ _ _ _ _).mpr (wp_checkpoint.mpr fun _ _ => ⟨nofun, ?_⟩))
  intro answer _ _
  cases answer <;> trivial

theorem last_outline (cfg : EngineConfig) (wf : Workflow) : Outline cfg wf (lastSpec runId)
    (fun next m _ => next ≠ none → m.run.status ≠ .succeeded) InLast
    (fun step next m x => InLast step m x ∧ (next = none → step.canEnd = true)) (fun step _ => InLast step)
    (fun _ _ _ => True) where
  unknown := fun _ _ _ _ _ => trivial
  budget := fun _ _ _ _ _ _ _ _ => last_failRun
  enter := by
    intro name step m x _ hhead _
    refine (wp_modifyRun_bind _ _).mpr ((wp_emit_bind _ _ _ _ _ _).mpr ((Act.wp_perform _).mpr fun x₁ _ => ?_))
    refine ⟨trivial, fun answer y hs => ⟨?_, hhead nofun⟩⟩
    have hh : y.2 = x₁.2 ++ [.call _ answer] := hs
    rw [hh, lastStep?_enter]
  run := fun step m x hstep _ h =>
    Act.wp_mono _ (fun _ _ _ h' => h') (fun _ _ _ h' => h'.1)
      (Act.wp_and _ ((inLast_handlers cfg wf step).runStep hstep m x h) (canEnd_runStep step))
  retry := fun _ _ _ m x _ _ h => ⟨⟨h.entered, h.status⟩, h.entered, h.status⟩
  exhausted := fun _ _ _ h => h
  denied := fun _ _ _ _ _ _ _ => last_failRun
  failed := by
    intro step e m x _ _ h
    have hcompensate : Act.Keeps (lastSpec runId) (InLast step) (WorkflowEngine.compensate cfg wf step) := by
      unfold WorkflowEngine.compensate
      split
      · exact Act.keeps_pure _
      · rename_i comp hcomp
        refine Act.keeps_bind (fun m x h => ⟨h.entered, h.status⟩) fun _ => ?_
        refine Act.keeps_tryCatch ?_ fun e m x h => ⟨h.entered, h.status⟩
        exact Act.keeps_bind ((inLast_handlers cfg wf step).runStep (hasStep_of_compensation hcomp)) fun _ =>
          Act.keeps_pure _
    exact (Act.wp_bind _ _).mpr (Act.wp_mono _ (fun _ _ _ _ => last_failRun) (fun _ _ _ _ => trivial)
      (hcompensate m x h))
  other := fun _ _ _ _ _ _ _ _ => trivial
  finish := by
    rintro step next m x - ⟨h, hend⟩
    refine (wp_modifyRun_bind _ _).mpr ?_
    cases next with
    | none =>
        refine (wp_modifyRun_bind _ _).mpr ((wp_modifyRun_bind _ _).mpr ((wp_getRun_bind _).mpr
          ((wp_emit_bind _ _ _ _ _ _).mpr (wp_checkpoint.mpr fun x₁ hrely => ⟨fun _ => ?_, ?_⟩))))
        · exact ⟨step, (h.rely hrely).entered, hend rfl⟩
        · intro answer _ _
          cases answer with
          | ok value => exact fun hne => absurd rfl hne
          | error e => trivial
    | some name =>
        refine wp_checkpoint.mpr fun x₁ _ => ⟨fun hsucceeded => absurd hsucceeded h.status, ?_⟩
        intro answer _ _
        cases answer with
        | ok value => exact fun _ => h.status
        | error e => trivial

theorem last_discipline (d : Deployment) (redact : Json → Json) (runId : String) :
    Serial.Discipline (Call.step d.engine.policy redact)
      (fun attempt : Attempt runId => attempt.request.program d)
      (fun db (event : Outside) db' => event.step d.engine.policy redact runId db db')
      (fun _ _ => True) (fun _ => True) (lastSpec runId) (fun _ => True) where
  allowed := fun _ _ _ _ _ _ _ hrec => hrec.2
  refl := fun _ _ => ⟨[], (List.append_nil _).symm⟩
  trans := by
    rintro x y z ⟨events, hh⟩ ⟨events', hh'⟩
    exact ⟨events ++ events', by rw [hh', hh, List.map_append, List.append_assoc]⟩
  stable := fun _ _ _ _ => trivial
  call := fun _ _ _ _ _ _ _ _ => trivial
  env := fun _ _ event _ _ _ _ => ⟨trivial, [event], rfl⟩
  start := by
    intro db h attempt _ _
    have hentry : Entry d (lastSpec runId) (fun _ => True) (fun _ _ => True) attempt.request :=
      { rely := fun _ _ _ _ => trivial
        early := fun _ _ _ _ _ _ _ _ _ => trivial
        service := by
          intro x m op hop _
          cases op <;> trivial
        loaded := fun _ _ _ _ _ _ _ _ => trivial
        created := fun _ _ _ _ _ _ _ _ => trivial
        resolve := fun _ _ _ _ _ => Act.keeps_perform fun _ _ _ _ _ => ⟨trivial, fun _ _ _ => trivial⟩
        fired := fun _ _ _ _ => trivial
        resume := fun cfg wf m x _ _ _ => (last_outline cfg wf).drives fun _ _ => nofun }
    exact ⟨trivial, hentry.program attempt.driver trivial⟩

end Last

/-- A call costs nothing where it is made in a step that the graph may end at. -/
def FreeLast (tools : ToolRegistry) (h : Session.History runId) : Session.Label runId → Prop
  | .call call answer => ∀ step ∈ Session.lastStep? h, step.canEnd = true →
      totalCost tools (call.op.charge tools answer) ≤ 0
  | _ => True

instance (tools : ToolRegistry) (h : Session.History runId) (label : Session.Label runId) :
    Decidable (FreeLast tools h label) :=
  match label with
  | .call call answer => inferInstanceAs (Decidable (∀ step ∈ Session.lastStep? h, step.canEnd = true →
      totalCost tools (call.op.charge tools answer) ≤ 0))
  | .start _ | .env _ => .isTrue trivial

/-- A step that may be the last one has then added nothing. -/
theorem total_le_costAtEntry (c₀ : ℚ) {h : Session.History runId} {step : Step}
    (hfree : Serial.Permitted (FreeLast tools) [] h) (hstep : Session.lastStep? h = some step)
    (hend : step.canEnd = true) : total tools c₀ h ≤ costAtEntry tools c₀ h := by
  induction h using List.reverseRecOn with
  | nil => cases hstep
  | append_singleton h label ih =>
      cases label with
      | start attempt =>
          rw [lastStep?_start] at hstep
          cases hstep
      | env event =>
          have hsame := lastStep?_append_env h [event]
          rw [List.map_singleton] at hsame
          rw [hsame] at hstep
          have htotal : total tools c₀ (h ++ [.env event]) = total tools c₀ h := total_append_env c₀ h [event]
          rw [htotal, costAtEntry, beforeEntry_other h rfl]
          exact ih hfree.left hstep
      | call call answer =>
          obtain ⟨m, op⟩ := call
          cases henters : Session.entersStep (.call ⟨m, op⟩ answer : Session.Label runId) with
          | true =>
              cases op with
              | stepSpan entered =>
                  rw [costAtEntry, beforeEntry_enter h rfl, total_of_rejected rfl rfl]
                  simp [Op.charge]
              | _ => cases henters
          | false =>
              rw [lastStep?_call h henters] at hstep
              have hbefore := ih hfree.left hstep
              rw [costAtEntry, beforeEntry_other h henters]
              have hcharge : totalCost tools (op.charge tools answer) ≤ 0 := by
                have hlabel := hfree h (.call ⟨m, op⟩ answer) [] rfl
                rw [List.nil_append] at hlabel
                exact hlabel step hstep hend
              cases haccepted : op.accepted answer with
              | true =>
                  obtain ⟨run, events, heq⟩ := Op.eq_checkpoint_of_accepted haccepted
                  cases heq
                  rw [(total_of_accepted rfl).1]
                  exact hbefore
              | false =>
                  rw [total_of_rejected haccepted rfl]
                  calc
                    total tools c₀ h + totalCost tools (op.charge tools answer) ≤ total tools c₀ h + 0 := by
                      gcongr
                    _ = total tools c₀ h := add_zero _
                    _ ≤ costAtEntry tools c₀ h := hbefore

/-! ### The specification of an attempt -/

/-- A run that succeeds was within its budget when it entered its last step. -/
def Ceiled (tools : ToolRegistry) (c₀ : ℚ) (wf : Workflow) (x : DB × Session.History runId)
    (call : Call) : Prop :=
  match call.op with
  | .checkpoint run _ => run.status = .succeeded → costAtEntry tools c₀ x.2 ≤ wf.budgetUsd
  | .insertRun run => run.workflowId = wf.id ∧ run.status = .pending
  | _ => True

def ceilingSpec (d : Deployment) (redact : Json → Json) (wf : Workflow) (runId : String) (c₀ : ℚ) :
    Spec Call Call.Res (DB × Session.History runId) :=
  { step := fun x call answer y =>
      OfWorkflow wf runId x.1 ∧ (chargeSpec d redact runId c₀).step x call answer y
    rely := (chargeSpec d redact runId c₀).rely
    guar := fun x call =>
      (chargeSpec d redact runId c₀).guar x call ∧ Ceiled d.engine.tools c₀ wf x call }

/-- The driver's run is one of the workflow. -/
def Assigned (wf : Workflow) (m : Mem) (_ : DB × Session.History runId) : Prop :=
  m.run.workflowId = wf.id

/-- The same, inside a step that was entered within budget. -/
def Within (tools : ToolRegistry) (c₀ : ℚ) (wf : Workflow) (m : Mem)
    (x : DB × Session.History runId) : Prop :=
  m.run.workflowId = wf.id ∧ costAtEntry tools c₀ x.2 ≤ wf.budgetUsd

/-- What the driver knows at the head of the loop, and with `Within` inside a step. -/
abbrev Counting (tools : ToolRegistry) (c₀ : ℚ) (K : Mem → DB × Session.History runId → Prop) :
    Mem → DB × Session.History runId → Prop :=
  Metered (fun m x => Holds runId m x ∧ K m x) (spent tools c₀)

theorem ceiled_of_inStep {c₀ : ℚ} {x : DB × Session.History runId} {m : Mem} {op : Op}
    (hop : op.InStep) : Ceiled tools c₀ wf x ⟨m, op⟩ := by
  cases op <;> trivial

theorem within_rely {c₀ : ℚ} {m : Mem} {x y : DB × Session.History runId}
    (h : Within d.engine.tools c₀ wf m x) (hrely : (ceilingSpec d redact wf runId c₀).rely x y) :
    Within d.engine.tools c₀ wf m y := by
  obtain ⟨-, events, hh⟩ := hrely
  refine ⟨h.1, ?_⟩
  rw [hh, costAtEntry, beforeEntry_append_env]
  exact h.2

theorem assigned_meter (d : Deployment) (redact : Json → Json) (c₀ : ℚ) :
    Meter d.engine.tools (ceilingSpec d redact wf runId c₀)
      (fun m x => Holds runId m x ∧ Assigned wf m x) (spent d.engine.tools c₀) :=
  (charge_meter c₀).strengthen (fun _ _ _ _ hs => hs.2) (fun _ _ h => h)
    (fun _ _ _ hop hguar => ⟨hguar, ceiled_of_inStep hop⟩)
    (fun _ _ _ _ hworkflow hK => hworkflow.trans hK) (fun _ _ _ hK _ => hK)
    (fun _ _ _ _ _ _ hK _ => hK)

theorem within_meter (c₀ : ℚ) :
    Meter d.engine.tools (ceilingSpec d redact wf runId c₀)
      (fun m x => Holds runId m x ∧ Within d.engine.tools c₀ wf m x) (spent d.engine.tools c₀) := by
  refine (charge_meter c₀).strengthen (fun _ _ _ _ hs => hs.2) (fun _ _ h => h)
    (fun _ _ _ hop hguar => ⟨hguar, ceiled_of_inStep hop⟩)
    (fun _ _ _ _ hworkflow hK => ⟨hworkflow.trans hK.1, hK.2⟩) (fun _ _ _ hK h => within_rely hK h) ?_
  rintro m x op answer y hop hK ⟨-, -, -, hh⟩
  refine ⟨hK.1, ?_⟩
  rw [hh, costAtEntry, beforeEntry_other _ (hop.entersStep m answer)]
  exact hK.2

/-- A checkpoint may be made wherever it does not end the run, and inside a step in any case. -/
theorem ceiling_checkpoint {c₀ : ℚ} {K : Mem → DB × Session.History runId → Prop}
    (hrely : ∀ m x y, K m x → (ceilingSpec d redact wf runId c₀).rely x y → K m y)
    (hkept : ∀ m x op answer y, K m x → (∀ step, op ≠ .stepSpan step) →
      (ceilingSpec d redact wf runId c₀).step x ⟨m, op⟩ answer y → K m y)
    (hbuffer : ∀ m x, K m x → K { m with buffer := [] } x) {m : Mem} {x : DB × Session.History runId}
    (hm : Counting d.engine.tools c₀ K m x)
    (hceiled : ∀ y, K m y → Ceiled d.engine.tools c₀ wf y ⟨m, .checkpoint m.run m.buffer⟩) :
    Act.wp (ceilingSpec d redact wf runId c₀) EngineM.checkpoint
      (fun _ => Counting d.engine.tools c₀ K) (fun _ => Counting d.engine.tools c₀ K) m x := by
  obtain ⟨⟨hholds, hK⟩, hcost⟩ := hm
  refine wp_checkpoint.mpr fun x₁ h₁ => ?_
  have hK₁ := hrely m x x₁ hK h₁
  obtain ⟨hguar, hrest⟩ := wp_checkpoint.mp (charge_checkpoint c₀ m x ⟨hholds, hcost⟩) x₁ h₁
  refine ⟨⟨hguar, hceiled x₁ hK₁⟩, fun answer y hs => ?_⟩
  have hK' := hkept m x₁ _ answer y hK₁ nofun hs
  have hmetered := hrest answer y hs.2
  cases answer with
  | ok value => exact ⟨⟨hmetered.1, hbuffer m y hK'⟩, hmetered.2⟩
  | error e => exact ⟨⟨hmetered.1, hK'⟩, hmetered.2⟩

theorem within_checkpoint (c₀ : ℚ) :
    Act.Keeps (ceilingSpec d redact wf runId c₀)
      (Counting d.engine.tools c₀ (Within d.engine.tools c₀ wf)) EngineM.checkpoint := by
  have hrely : ∀ m x y, Within d.engine.tools c₀ wf m x →
      (ceilingSpec d redact wf runId c₀).rely x y → Within d.engine.tools c₀ wf m y :=
    fun _ _ _ => within_rely
  have hkept : ∀ m x op answer y, Within d.engine.tools c₀ wf m x → (∀ step, op ≠ .stepSpan step) →
      (ceilingSpec d redact wf runId c₀).step x ⟨m, op⟩ answer y →
        Within d.engine.tools c₀ wf m y := by
    rintro m x op answer y hK hop ⟨-, -, -, hh⟩
    refine ⟨hK.1, ?_⟩
    have hother : Session.entersStep (.call ⟨m, op⟩ answer : Session.Label runId) = false := by
      cases op <;> first | rfl | exact absurd rfl (hop _)
    rw [hh, costAtEntry, beforeEntry_other _ hother]
    exact hK.2
  intro m x hm
  exact ceiling_checkpoint hrely hkept (fun _ _ hK => hK) hm fun y hK _ => hK.2

theorem assigned_failed (c₀ : ℚ) :
    SavedIn (ceilingSpec d redact wf runId c₀) (Counting d.engine.tools c₀ (Assigned wf)) .failed := by
  intro m x hm hstatus
  refine ceiling_checkpoint (fun _ _ _ hK _ => hK) (fun _ _ _ _ _ hK _ _ => hK) (fun _ _ hK => hK)
    hm (fun y _ hsucceeded => ?_)
  rw [hstatus] at hsucceeded
  cases hsucceeded

/-- Entering a step within budget. -/
theorem ceiling_span {c₀ : ℚ} (step : Step) {m : Mem} {x : DB × Session.History runId}
    (hm : Counting d.engine.tools c₀ (Assigned wf) m x) (hbudget : m.run.costUsd ≤ wf.budgetUsd) :
    Act.wp (ceilingSpec d redact wf runId c₀) (perform (.stepSpan step))
      (fun _ => Counting d.engine.tools c₀ (Within d.engine.tools c₀ wf))
      (fun _ => Counting d.engine.tools c₀ (Assigned wf)) m x := by
  obtain ⟨⟨hholds, hworkflow⟩, hcost⟩ := hm
  refine (Act.wp_perform _).mpr fun x₁ h₁ => ?_
  obtain ⟨hguar, hrest⟩ := charge_span c₀ step m x ⟨hholds, hcost⟩ x₁ h₁
  refine ⟨⟨hguar, trivial⟩, fun answer y hs => ?_⟩
  obtain ⟨hholds', hcost'⟩ := hrest answer y hs.2
  refine ⟨⟨hholds', hworkflow, ?_⟩, hcost'⟩
  obtain ⟨-, -, -, hh⟩ := hs
  obtain ⟨-, events, hh₁⟩ := h₁
  calc
    costAtEntry d.engine.tools c₀ y.2 = total d.engine.tools c₀ x₁.2 := by
      rw [costAtEntry, hh, beforeEntry_enter _ rfl]
    _ = total d.engine.tools c₀ x.2 := by rw [hh₁, total_append_env]
    _ = m.run.costUsd := hcost.symm
    _ ≤ wf.budgetUsd := hbudget

theorem Counting.assigned {c₀ : ℚ} {m : Mem} {x : DB × Session.History runId}
    (h : Counting tools c₀ (Within tools c₀ wf) m x) : Counting tools c₀ (Assigned wf) m x :=
  ⟨⟨h.1.1, h.1.2.1⟩, h.2⟩

theorem Budget.costUsd_le_of_check {budget : Budget} {run : Run} (h : budget.check run = none) :
    run.costUsd ≤ budget.maxUsd := by
  unfold check at h
  split at h
  · cases h
  · rename_i hcost
    exact not_lt.mp hcost

theorem ceiling_outline (c₀ : ℚ) {cfg : EngineConfig} (htools : cfg.tools = d.engine.tools) :
    Outline cfg wf (ceilingSpec d redact wf runId c₀)
      (fun _ => Counting d.engine.tools c₀ (Assigned wf))
      (fun _ => Counting d.engine.tools c₀ (Within d.engine.tools c₀ wf))
      (fun _ _ => Counting d.engine.tools c₀ (Within d.engine.tools c₀ wf))
      (fun _ _ => Counting d.engine.tools c₀ (Within d.engine.tools c₀ wf))
      (fun _ => Counting d.engine.tools c₀ (Assigned wf)) := by
  have hassigned : Meter cfg.tools (ceilingSpec d redact wf runId c₀)
      (fun m x => Holds runId m x ∧ Assigned wf m x) (spent d.engine.tools c₀) := by
    rw [htools]
    exact assigned_meter d redact c₀
  have hwithin : Meter cfg.tools (ceilingSpec d redact wf runId c₀)
      (fun m x => Holds runId m x ∧ Within d.engine.tools c₀ wf m x) (spent d.engine.tools c₀) := by
    rw [htools]
    exact within_meter c₀
  have hwalk : StepWalk cfg wf (ceilingSpec d redact wf runId c₀)
      (Counting d.engine.tools c₀ (Within d.engine.tools c₀ wf)) :=
    metered_step hwithin wf (within_checkpoint c₀)
  have hfailRun : ∀ reason detail m x, Counting d.engine.tools c₀ (Assigned wf) m x →
      Act.wp (ceilingSpec d redact wf runId c₀) (WorkflowEngine.failRun reason detail)
        (fun _ => Counting d.engine.tools c₀ (Assigned wf))
        (fun _ => Counting d.engine.tools c₀ (Assigned wf)) m x := by
    intro reason detail m x hm
    refine (wp_modifyRun_bind _ _).mpr ((wp_emit_bind _ _ _ _ _ _).mpr (assigned_failed c₀ _ x ?_ rfl))
    refine metered_quiet hassigned m _ x ?_ hm
    exact ⟨⟨⟨rfl, rfl, rfl, rfl, rfl, rfl, List.prefix_append _ _⟩, rfl⟩, rfl, [_], rfl, by simp⟩
  have hover : ∀ {α : Type} {code : EngineM α} {m : Mem} {x : DB × Session.History runId},
      Act.wp (ceilingSpec d redact wf runId c₀) code
        (fun _ => Counting d.engine.tools c₀ (Within d.engine.tools c₀ wf))
        (fun _ => Counting d.engine.tools c₀ (Within d.engine.tools c₀ wf)) m x →
      Act.wp (ceilingSpec d redact wf runId c₀) code
        (fun _ => Counting d.engine.tools c₀ (Assigned wf))
        (fun _ => Counting d.engine.tools c₀ (Assigned wf)) m x :=
    Act.wp_mono _ (fun _ _ _ => Counting.assigned) (fun _ _ _ => Counting.assigned)
  exact
    { unknown := fun _ _ _ _ hm => hm
      budget := fun _ _ _ m x _ hm _ => hfailRun _ _ m x hm
      enter := by
        intro stepId step m x _ hm hcheck
        refine (wp_modifyRun_bind _ _).mpr ((wp_emit_bind _ _ _ _ _ _).mpr ?_)
        have hcount : Counting d.engine.tools c₀ (Assigned wf)
            { m with run := { m.run with stepsUsed := m.run.stepsUsed + 1 } } x :=
          hm.memory hassigned (sameBill_of_run rfl rfl rfl) rfl
        refine ceiling_span step ?_ (Budget.costUsd_le_of_check hcheck)
        exact metered_quiet hassigned _ _ x (quiet_emit rfl) hcount
      run := fun step m x hstep _ hm => hwalk.runStep hstep m x hm
      retry := by
        intro step e attempt m x _ _ hm
        exact Act.wp_mono _ (fun _ _ _ hm' => ⟨hm', hm'⟩) (fun _ _ _ hm' => hm')
          (keeps_free_emit hwalk.quiet _ _ _ _ m x hm)
      exhausted := fun _ _ _ hm => hm
      denied := fun _ _ m x _ _ hm => hover (hwalk.failRun _ _ m x hm)
      failed := fun step _ m x _ _ hm =>
        hover (Act.keeps_bind (hwalk.compensate step) (fun _ => hwalk.failRun _ _) m x hm)
      other := fun _ _ _ _ _ _ _ hm => hm.assigned
      finish := fun _ next m x _ hm => hover (hwalk.advance (within_checkpoint c₀) next m x hm) }

/-! ### Sessions -/

theorem ceiling_entry (c₀ : ℚ) (attempt : Attempt runId)
    (hdrives : ∀ wf', attempt.request.definition d wf.id = some wf' → wf' = wf) :
    Entry d (ceilingSpec d redact wf runId c₀) (Unspent d.engine.tools)
      (Counting d.engine.tools c₀ (Assigned wf)) attempt.request where
  rely := (charge_entry d redact c₀ attempt).rely
  early := fun x m op answer y hunspent hs hop hnew =>
    (charge_entry d redact c₀ attempt).early x m op answer y hunspent hs.2 hop hnew
  service := by
    intro x m op hop hwanted
    refine ⟨(charge_entry d redact c₀ attempt).service x m op hop hwanted, ?_⟩
    cases op with
    | insertRun run =>
        obtain ⟨wf', hwf', hworkflow, -⟩ := wanted_definition (hwanted run rfl) wf.id
        rw [hdrives wf' hwf'] at hworkflow
        exact ⟨hworkflow, (wanted_ident (hwanted run rfl)).2.2.2⟩
    | checkpoint run events => exact hop.elim
    | _ => trivial
  loaded := by
    intro x m tenantId run y hunspent hbuffer hs
    obtain ⟨hholds, hcost⟩ := (charge_entry d redact c₀ attempt).loaded x m tenantId run y hunspent hbuffer hs.2
    refine ⟨⟨hholds, ?_⟩, hcost⟩
    obtain ⟨hof, -, hload, -⟩ := hs
    obtain ⟨-, row, hrow, -, rfl⟩ := attempt.loaded hload
    exact hof row hrow
  created := by
    intro x m run y hunspent hbuffer hwanted hs
    obtain ⟨hholds, hcost⟩ := (charge_entry d redact c₀ attempt).created x m run y hunspent hbuffer hwanted hs.2
    refine ⟨⟨hholds, ?_⟩, hcost⟩
    obtain ⟨wf', hwf', hworkflow, -⟩ := wanted_definition hwanted wf.id
    rw [hdrives wf' hwf'] at hworkflow
    exact hworkflow
  resolve := by
    intro tenantId approvalId approved decidedBy note
    exact metered_perform (assigned_meter d redact c₀) trivial fun _ => rfl
  fired := by
    intro m x payload hm
    have hmeter : Meter d.engine.tools (ceilingSpec d redact wf runId c₀)
        (fun m x => Holds runId m x ∧ Assigned wf m x) (spent d.engine.tools c₀) := assigned_meter d redact c₀
    exact metered_quiet hmeter m _ x (quiet_emit rfl) hm
  resume := by
    rintro cfg wf' m x hcfg hwf' hm
    rw [hm.1.2] at hwf'
    obtain rfl := hdrives wf' hwf'
    have htools : cfg.tools = d.engine.tools := by rcases hcfg with rfl | rfl <;> rfl
    exact (ceiling_outline c₀ htools).drives fun _ =>
      hm.memory (assigned_meter d redact c₀) (sameBill_of_run rfl rfl rfl) rfl

/-- Every attempt drives the run with the definition `wf`. -/
def Driven (d : Deployment) (wf : Workflow) (_ : Session.History runId) : Session.Label runId → Prop
  | .start attempt => ∀ wf', attempt.request.definition d wf.id = some wf' → wf' = wf
  | _ => True

theorem ceiling_discipline (d : Deployment) (redact : Json → Json) (wf : Workflow) (runId : String)
    (c₀ : ℚ) :
    Serial.Discipline (Call.step d.engine.policy redact)
      (fun attempt : Attempt runId => attempt.request.program d)
      (fun db (event : Outside) db' => event.step d.engine.policy redact runId db db')
      (Driven d wf) (fun x => Priced d.engine.tools c₀ x ∧ OfWorkflow wf runId x.1)
      (ceilingSpec d redact wf runId c₀) (fun _ => True) where
  allowed := fun _ _ _ _ hx _ _ hrec => ⟨hx.2, hx.1, hrec⟩
  refl := fun x hx => (charge_discipline d redact runId c₀).refl x hx.1
  trans := (charge_discipline d redact runId c₀).trans
  stable := fun _ _ _ _ => trivial
  call := by
    rintro x call answer y ⟨hpriced, hof⟩ ⟨hcharged, hceiled⟩ _ hrec
    refine ⟨priced_of_step hpriced hcharged hrec, ofWorkflow_of_step hof ?_ hrec.1⟩
    rintro run hop
    rw [Ceiled, hop] at hceiled
    exact hceiled.1
  env := by
    rintro db h event db' ⟨hpriced, hof⟩ - henv
    obtain ⟨hpriced', hrely⟩ :=
      (charge_discipline d redact runId c₀).env db h event db' hpriced trivial henv
    exact ⟨⟨hpriced', ofWorkflow_of_kept hof hrely.1⟩, hrely⟩
  start := by
    rintro db h attempt ⟨hpriced, hof⟩ hdriven
    obtain ⟨hpriced', -⟩ := (charge_discipline d redact runId c₀).start db h attempt hpriced trivial
    refine ⟨⟨hpriced', hof⟩, (ceiling_entry c₀ attempt hdriven).program attempt.driver ?_⟩
    rw [Unspent, costBill, bill_append_singleton]
    rfl

/-- A stored run that succeeded cost no more than its budget. -/
def Solvent (wf : Workflow) (runId : String) (db : DB) : Prop :=
  ∀ row, db.runs.find? runId = some row → row.status = .succeeded → row.costUsd ≤ wf.budgetUsd

/-- A checkpoint that ends the run successfully. -/
def Session.succeeds : Session.Label runId → Bool
  | .call ⟨_, .checkpoint run _⟩ (.ok _) => run.status = .succeeded
  | _ => false

/-- The step that a checkpoint ends successfully added nothing to the cost. -/
def Unraised (tools : ToolRegistry) (c₀ : ℚ) (h : Session.History runId) (label : Session.Label runId) : Prop :=
  Session.succeeds label = true → total tools c₀ h ≤ costAtEntry tools c₀ h

theorem solvent_of_kept {db db' : DB} (h : Solvent wf runId db) (hkept : Kept runId db db') :
    Solvent wf runId db' := by
  intro row' hrow' hstatus
  cases hfind : db.runs.find? runId with
  | none =>
      rw [hkept.absent hfind] at hrow'
      cases hrow'
  | some row =>
      obtain ⟨row'', hrow'', hsame, hold⟩ := hkept.row row hfind
      obtain rfl : row'' = row' := Option.some.inj (hrow''.symm.trans hrow')
      rcases hold with hold | hcanceled
      · rw [hsame.costUsd]
        exact h row hfind (hold.symm.trans hstatus)
      · rw [hstatus] at hcanceled
        cases hcanceled

theorem solvent_of_step {c₀ : ℚ} {x y : DB × Session.History runId} {call : Call}
    {answer : call.Res} (h : Solvent wf runId x.1)
    (hguar : (ceilingSpec d redact wf runId c₀).guar x call)
    (hunraised : Unraised d.engine.tools c₀ x.2 (.call call answer))
    (hs : call.op.step d.engine.policy redact x.1 answer y.1) : Solvent wf runId y.1 := by
  obtain ⟨m, op⟩ := call
  obtain ⟨hcharged, hceiled⟩ := hguar
  intro row' hrow' hstatus
  cases hfind : x.1.runs.find? runId with
  | none =>
      rcases absent_of_step hs hfind with hnone | ⟨run, now, heq, -, hnew⟩
      · rw [hnone] at hrow'
        cases hrow'
      · cases heq
        obtain rfl := Option.some.inj (hnew.symm.trans hrow')
        have hpending : run.status = .pending := hceiled.2
        rw [show (run.newRow now).status = run.status from rfl, hpending] at hstatus
        cases hstatus
  | some row =>
      rcases runRow_of_step hs hfind with hsame | ⟨run, events, now, rfl, hid, -, hnew⟩ |
        ⟨tenantId, now, rfl, -, hnew⟩
      · exact h row' (hfind.trans (hsame.symm.trans hrow')) hstatus
      · cases answer with
        | error e =>
            rw [same_of_checkpoint_error hs] at hrow'
            exact h row' hrow' hstatus
        | ok value =>
            obtain rfl := Option.some.inj (hnew.symm.trans hrow')
            obtain ⟨-, -, hcost⟩ := hcharged
            have hsucceeded : run.status = .succeeded := hstatus
            change run.costUsd ≤ wf.budgetUsd
            rw [hcost]
            exact (hunraised (decide_eq_true hsucceeded)).trans (hceiled hsucceeded)
      · obtain rfl := Option.some.inj (hnew.symm.trans hrow')
        cases hstatus

theorem solvent_discipline (d : Deployment) (redact : Json → Json) (wf : Workflow) (runId : String)
    (c₀ : ℚ) :
    Serial.Discipline (Call.step d.engine.policy redact)
      (fun attempt : Attempt runId => attempt.request.program d)
      (fun db (event : Outside) db' => event.step d.engine.policy redact runId db db')
      (fun h label => Driven d wf h label ∧ Unraised d.engine.tools c₀ h label)
      (fun x => (Priced d.engine.tools c₀ x ∧ OfWorkflow wf runId x.1) ∧ Solvent wf runId x.1)
      (ceilingSpec d redact wf runId c₀) (fun _ => True) :=
  (ceiling_discipline d redact wf runId c₀).strengthen (fun _ _ h => h.1)
    (fun _ _ _ _ _ hW hguar hlabel hrec => solvent_of_step hW hguar hlabel.2 hrec.1)
    (fun _ _ _ _ _ hW henv => solvent_of_kept hW (kept_of_outside henv)) fun _ _ _ hW => hW

/-- **The cost ceiling.** If nothing is charged in the steps that the graph may end at, a run stored as
succeeded cost no more than its budget. -/
theorem succeeded_within_budget {db : DB} {labels : Session.History runId} {c : Session}
    (hworkflow : OfWorkflow wf runId db) (hsolvent : Solvent wf runId db)
    (hrun : Session.Run d redact runId (Session.idle db) labels c)
    (hdrives : Session.Drives d wf labels)
    (hfree : Serial.Permitted (FreeLast d.engine.tools) [] labels) :
    Solvent wf runId c.shared := by
  have hok : Serial.Permitted (fun h label => Driven d wf h label ∧
      Unraised d.engine.tools (db.costOf runId) h label) ([] : Session.History runId) labels := by
    intro before label after heq
    refine ⟨?_, fun hsucceeds => ?_⟩
    · cases label with
      | start attempt => exact hdrives attempt (by simp [heq])
      | _ => trivial
    · subst heq
      cases label with
      | start | env => cases hsucceeds
      | call call answer =>
          obtain ⟨_, _, -, hends, -⟩ := hrun.guaranteed (last_discipline d redact runId)
            (fun _ _ _ _ => trivial) (.idle trivial trivial)
          obtain ⟨m, op⟩ := call
          cases op with
          | checkpoint run events =>
              cases answer with
              | error e => cases hsucceeds
              | ok value =>
                  obtain ⟨step, hstep, hend⟩ := hends (of_decide_eq_true hsucceeds)
                  exact total_le_costAtEntry _ hfree.left hstep hend
          | _ => cases hsucceeds
  have hpriced : Priced d.engine.tools (db.costOf runId) (db, ([] : Session.History runId)) := by
    simp [Priced]
  exact (hrun.good (solvent_discipline d redact wf runId (db.costOf runId)) hok
    (.idle ⟨⟨hpriced, hworkflow⟩, hsolvent⟩ trivial)).inv.2

/-! ### A last step that is too expensive -/

/-- A workflow that pays, and then stops without another charge. -/
def closingWorkflow : Workflow :=
  { name := "payments"
    steps := Dict.ofList [("pay", { payStep with next := some "stop" }),
      ("stop", { id := "stop", nodeType := .terminate })]
    start := "pay"
    id := "payments" }

def closingDeployment : Deployment :=
  { pricedDeployment 1 with
    workflowsById := Dict.ofList [("payments", closingWorkflow)]
    workflowsByName := Dict.ofList [("payments", closingWorkflow)] }

/-- The attempt that paid is lost before its checkpoint, and another one takes over. -/
def closingSession : Session.History "run" × Session :=
  Session.play closingDeployment id (World.constant (.int 7))
    (.start (resumeAttempt "run") :: List.replicate 4 .call ++
      .start (resumeAttempt "run") :: List.replicate 9 .call)
    (Session.idle (DB.withRun "run" "payments"))

theorem closingSession_run : Session.Run closingDeployment id "run"
    (Session.idle (DB.withRun "run" "payments")) closingSession.1 closingSession.2 :=
  Session.play_run closingDeployment id _ _ (by simp) _

/-- A tool that costs all that the budget allows, in a step that is not the last one. -/
theorem succeeded_within_budget_paid :
    Solvent closingWorkflow "run" closingSession.2.shared := by
  refine succeeded_within_budget ?_ ?_ closingSession_run ?_ (by decide +kernel)
  · intro row hrow
    cases hrow
    rfl
  · rintro row hrow hstatus
    cases hrow
    cases hstatus
  · intro attempt hmem wf' hwf'
    obtain rfl : attempt = resumeAttempt "run" := by
      simpa [List.mem_replicate] using Serial.start_of_mem_play hmem
    cases hwf'
    rfl

/-- A tool that costs twice the budget: the run succeeds all the same. -/
theorem succeeded_over_budget :
    Session.Run (pricedDeployment 2) id "run" (Session.idle (DB.withRun "run" "payments"))
        (pricedSession 2 4).1 (pricedSession 2 4).2 ∧
      (∃ wf, (pricedDeployment 2).workflowsById.get? "payments" = some wf ∧
        wf.budgetUsd = 1) ∧
      ∃ row, (pricedSession 2 4).2.shared.runs.find? "run" = some row ∧
        row.workflowId = "payments" ∧ row.status = .succeeded ∧ row.costUsd = 2 := by
  refine ⟨pricedSession_run 2 4, ⟨payWorkflow, rfl, rfl⟩, _, rfl, rfl, rfl, ?_⟩
  with_unfolding_all rfl

end Bass
