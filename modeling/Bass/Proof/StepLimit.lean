import Bass.Proof.Pace

/-!
# The step ceiling

The budget is checked before the step counter is advanced, and only a counter that is already above
the ceiling is a violation. So a run may enter one step more than its ceiling says, and it keeps to
the ceiling where the walks of its graph do.
-/

namespace Bass

open Interaction EngineM

variable {d : Deployment} {redact : Json → Json} {runId : String} {wf : Workflow} {n₀ : Nat}

/-! ### Counting entries -/

abbrev entryBill (h : Session.History runId) : Bill Step := bill Op.entered h

/-- The entries a checkpoint has committed, and those of the attempt under way since. -/
def entries (n₀ : Nat) (h : Session.History runId) : Nat :=
  n₀ + (entryBill h).committed.length + (entryBill h).pending.length

/-- The stored step counter of the run, zero while there is no such run. -/
def DB.stepsOf (db : DB) (runId : String) : Nat := db.column runId RunRow.stepsUsed 0

theorem DB.stepsOf_of_find {db : DB} {row : RunRow} (h : db.runs.find? runId = some row) :
    db.stepsOf runId = row.stepsUsed :=
  DB.column_of_find h

theorem DB.stepsOf_of_absent {db : DB} (h : db.runs.find? runId = none) : db.stepsOf runId = 0 :=
  DB.column_of_absent h

theorem Kept.stepsOf {db db' : DB} (h : Kept runId db db') :
    db'.stepsOf runId = db.stepsOf runId :=
  h.column fun hsame => hsame.stepsUsed

theorem entries_of_rejected {h h' : Session.History runId} {call : Call} {answer : call.Res}
    (hrejected : call.op.accepted answer = false) (hh : h' = h ++ [.call call answer]) :
    entries n₀ h' = entries n₀ h + (call.op.entered answer).length := by
  subst hh
  simp only [entries, entryBill, bill_append_singleton, Bill.step_pending hrejected,
    List.length_append]
  omega

theorem entries_of_accepted {h h' : Session.History runId} {m : Mem} {run : Run}
    {events : List Event} (hh : h' = h ++ [.call ⟨m, .checkpoint run events⟩ (.ok ())]) :
    entries n₀ h' = entries n₀ h ∧ entries n₀ h = n₀ + (entryBill h').committed.length := by
  subst hh
  have hbill : entryBill (h ++ [.call ⟨m, .checkpoint run events⟩ (.ok ())]) =
      { entryBill h with
        committed := (entryBill h).committed ++ ((entryBill h).pending ++ []), pending := [] } := by
    rw [entryBill, bill_append_singleton, Bill.step_accepted rfl]
    rfl
  simp only [entries, hbill, List.append_nil, List.length_append, List.length_nil]
  omega

theorem entries_append_env (h : Session.History runId) (events : List Outside) :
    entries n₀ (h ++ events.map Serial.Label.env) = entries n₀ h := by
  rw [entries, entries, entryBill, bill_append_env]

theorem Op.InStep.entered {op : Op} (hop : op.InStep) (answer : op.Res) : op.entered answer = [] := by
  cases op <;> first | rfl | exact hop.elim

theorem entryBill_of_service {h h' : Session.History runId} {m : Mem} {op : Op} {answer : op.Res}
    (hh : h' = h ++ [.call ⟨m, op⟩ answer]) (hop : op.Service) : entryBill h' = entryBill h := by
  have hrejected : op.accepted answer = false := by
    cases op <;> first | rfl | exact hop.elim
  have hfree : op.entered answer = [] := by
    cases op <;> first | rfl | exact hop.elim
  rw [hh, entryBill, bill_append_singleton, Bill.step_free hrejected hfree]

/-! ### The specification of an attempt -/

/-- The stored counter is the number of committed entries. -/
def Tallied (n₀ : Nat) (x : DB × Session.History runId) : Prop :=
  x.1.stepsOf runId = n₀ + (entryBill x.2).committed.length

/-- A checkpoint commits all the entries so far, which are one more than the ceiling allows at most. -/
def Limited (wf : Workflow) (n₀ : Nat) (x : DB × Session.History runId) (call : Call) : Prop :=
  match call.op with
  | .checkpoint run _ => run.id = runId ∧ (∃ row, x.1.runs.find? runId = some row) ∧
      run.stepsUsed = entries n₀ x.2 ∧ (run.stepsUsed : Int) ≤ wf.maxSteps + 1
  | .insertRun run => run.workflowId = wf.id ∧ run.stepsUsed = 0
  | _ => True

def limitSpec (d : Deployment) (redact : Json → Json) (wf : Workflow) (runId : String) (n₀ : Nat) :
    Spec Call Call.Res (DB × Session.History runId) :=
  { step := fun x call answer y =>
      (OfWorkflow wf runId x.1 ∧ Tallied n₀ x ∧ (x.1.stepsOf runId : Int) ≤ wf.maxSteps + 1) ∧
        Serial.recorded (Call.step d.engine.policy redact) x call answer y
    rely := fun x y => Kept runId x.1 y.1 ∧
      ∃ events : List Outside, y.2 = x.2 ++ events.map Serial.Label.env
    guar := Limited wf n₀ }

/-- The driver's counter counts the entries, and is one above the ceiling at most. -/
structure InLimit (wf : Workflow) (n₀ : Nat) (m : Mem) (x : DB × Session.History runId) : Prop where
  holds : Holds runId m x
  workflow : m.run.workflowId = wf.id
  counted : m.run.stepsUsed = entries n₀ x.2
  within : (m.run.stepsUsed : Int) ≤ wf.maxSteps + 1

theorem limited_of_inner {x : DB × Session.History runId} {m : Mem} {op : Op} (hop : op.Inner) :
    Limited wf n₀ x ⟨m, op⟩ := by
  cases op <;> trivial

namespace InLimit

theorem memory {m m' : Mem} {x : DB × Session.History runId} (h : InLimit wf n₀ m x)
    (hsame : SameIdent m m') : InLimit wf n₀ m' x where
  holds := ⟨hsame.id.trans h.holds.1, h.holds.2⟩
  workflow := hsame.workflowId.trans h.workflow
  counted := hsame.stepsUsed.trans h.counted
  within := by rw [hsame.stepsUsed]; exact h.within

theorem rely {m : Mem} {x y : DB × Session.History runId} (h : InLimit wf n₀ m x)
    (hrely : (limitSpec d redact wf runId n₀).rely x y) : InLimit wf n₀ m y := by
  obtain ⟨hkept, events, hh⟩ := hrely
  obtain ⟨hm, row, hrow⟩ := h.holds
  obtain ⟨row', hrow', -⟩ := hkept.row row hrow
  exact ⟨⟨hm, row', hrow'⟩, h.workflow, by rw [hh, entries_append_env]; exact h.counted, h.within⟩

theorem call {m : Mem} {x y : DB × Session.History runId} {op : Op} {answer : op.Res}
    (h : InLimit wf n₀ m x) (hop : op.InStep)
    (hs : (limitSpec d redact wf runId n₀).step x ⟨m, op⟩ answer y) :
    InLimit wf n₀ m y := by
  obtain ⟨-, hs, hh⟩ := hs
  obtain ⟨hm, row, hrow⟩ := h.holds
  refine ⟨⟨hm, row, find_of_inner hop.inner hs hrow⟩, h.workflow, ?_, h.within⟩
  rw [entries_of_rejected (hop.inner.rejected answer) hh, hop.entered]
  exact h.counted

theorem checkpoint : Act.Keeps (limitSpec d redact wf runId n₀) (InLimit wf n₀)
    EngineM.checkpoint := by
  refine keeps_checkpoint_call fun m x h x₁ hrely => ?_
  have h₁ := h.rely hrely
  refine ⟨⟨h₁.holds.1, h₁.holds.2, h₁.counted, h₁.within⟩, fun answer y hs => ?_⟩
  obtain ⟨-, hs, hh⟩ := hs
  have hkept : InLimit wf n₀ m y := by
    obtain ⟨hm, row, hrow⟩ := h₁.holds
    cases answer with
    | ok value =>
        subst hm
        obtain ⟨now, hrow'⟩ := row_of_checkpoint hs hrow
        refine ⟨⟨rfl, _, hrow'⟩, h₁.workflow, ?_, h₁.within⟩
        rw [(entries_of_accepted hh).1]
        exact h₁.counted
    | error e =>
        have hdb : y.1 = x₁.1 := same_of_checkpoint_error hs
        refine ⟨⟨hm, row, by rw [hdb]; exact hrow⟩, h₁.workflow, ?_, h₁.within⟩
        rw [entries_of_rejected rfl hh]
        exact h₁.counted
  exact ⟨hkept, hkept.holds, hkept.workflow, hkept.counted, hkept.within⟩

end InLimit

theorem limit_walk (cfg : EngineConfig) (wf : Workflow) (d : Deployment) (redact : Json → Json)
    (runId : String) (n₀ : Nat) :
    StepInv cfg wf (limitSpec d redact wf runId n₀) (InLimit wf n₀) := by
  refine stepInv_of_calls (fun m m' x hsame h => h.memory hsame) (fun op hop => ?_) wf
    (savedIn_of_keeps InLimit.checkpoint _) (savedIn_of_keeps InLimit.checkpoint _)
  exact Act.keeps_perform fun m x h x₁ hrely =>
    ⟨limited_of_inner hop.inner, fun answer y hs => (h.rely hrely).call hop hs⟩

/-- Entering a step with a counter that is not above the ceiling. -/
theorem limit_enter (step : Step) {m : Mem} {x : DB × Session.History runId} (h : InLimit wf n₀ m x)
    (hbudget : (m.run.stepsUsed : Int) ≤ wf.maxSteps) :
    Act.wp (limitSpec d redact wf runId n₀) (do
      modifyRun fun run => { run with stepsUsed := run.stepsUsed + 1 }
      emit "state_transition"
        (.obj [("entering_step", .str step.id), ("type", .str step.nodeType.value)]) (some step.id)
      perform (.stepSpan step))
      (fun _ => InLimit wf n₀) (fun _ => InLimit wf n₀) m x := by
  refine (wp_modifyRun_bind _ _).mpr ((wp_emit_bind _ _ _ _ _ _).mpr ((Act.wp_perform _).mpr ?_))
  intro x₁ hrely
  have h₁ := h.rely hrely
  refine ⟨trivial, fun answer y hs => ?_⟩
  obtain ⟨-, hs, hh⟩ := hs
  obtain ⟨hm, row, hrow⟩ := h₁.holds
  have hop : (Op.stepSpan step).Inner := trivial
  refine ⟨⟨hm, row, find_of_inner hop hs hrow⟩, h₁.workflow, ?_, ?_⟩
  · rw [entries_of_rejected (hop.rejected answer) hh, ← h₁.counted]
    rfl
  · push_cast
    omega

theorem limit_outline (cfg : EngineConfig) (wf : Workflow) (d : Deployment) (redact : Json → Json)
    (runId : String) (n₀ : Nat) :
    Outline cfg wf (limitSpec d redact wf runId n₀) (fun _ => InLimit wf n₀)
      (fun _ => InLimit wf n₀) (fun _ _ => InLimit wf n₀)
      (fun _ _ => InLimit wf n₀) (fun _ => InLimit wf n₀) := by
  have hwalk := limit_walk cfg wf d redact runId n₀
  exact
    { unknown := fun _ _ _ _ h => h
      budget := fun _ _ _ m x _ h _ => hwalk.failRun _ _ m x h
      enter := fun _ step m x _ h hbudget => limit_enter step h (Budget.stepsUsed_le_of_check hbudget)
      run := fun step m x hstep _ h => hwalk.runStep hstep m x h
      retry := by
        intro step e attempt m x _ _ h
        exact Act.wp_mono _ (fun _ _ _ h' => ⟨h', h'⟩) (fun _ _ _ h' => h')
          (keeps_free_emit hwalk.walk.quiet _ _ _ _ m x h)
      exhausted := fun _ _ _ h => h
      denied := fun _ _ m x _ _ h => hwalk.failRun _ _ m x h
      failed := fun step _ m x _ _ h =>
        Act.keeps_bind (hwalk.compensate step) (fun _ => hwalk.failRun _ _) m x h
      other := fun _ _ _ _ _ _ _ h => h
      finish := fun _ next m x _ h => hwalk.advance InLimit.checkpoint next m x h }

/-! ### Sessions -/

def NoEntry (x : DB × Session.History runId) : Prop := (entryBill x.2).pending = []

theorem limit_entry (n₀ : Nat) (attempt : Attempt runId)
    (hdrives : ∀ wf', attempt.request.definition d wf.id = some wf' → wf' = wf) :
    Entry d (limitSpec d redact wf runId n₀) NoEntry (InLimit wf n₀)
      attempt.request where
  rely := by
    rintro x y hnone ⟨-, events, hh⟩
    rw [NoEntry, hh, entryBill, bill_append_env]
    exact hnone
  early := by
    rintro x m op answer y hnone ⟨-, -, hh⟩ hop -
    rw [NoEntry, entryBill_of_service hh hop]
    exact hnone
  service := by
    intro x m op hop hwanted
    cases op with
    | insertRun run =>
        obtain ⟨wf', hwf', hworkflow, -⟩ := wanted_definition (hwanted run rfl) wf.id
        rw [hdrives wf' hwf'] at hworkflow
        exact ⟨hworkflow, (wanted_ident (hwanted run rfl)).2.2.1⟩
    | checkpoint run events => exact hop.elim
    | _ => trivial
  loaded := by
    rintro x m tenantId run y hnone - ⟨⟨hof, htallied, hwithin⟩, hload, hh⟩
    obtain ⟨hid, row, hrow, hrow', rfl⟩ := attempt.loaded hload
    rw [DB.stepsOf_of_find hrow] at hwithin
    rw [Tallied, DB.stepsOf_of_find hrow] at htallied
    refine ⟨⟨hid, row, hrow'⟩, hof row hrow, ?_, hwithin⟩
    rw [entries, entryBill_of_service hh trivial, hnone]
    exact htallied
  created := by
    rintro x m run y hnone - hwanted ⟨⟨-, htallied, hwithin⟩, hs, hh⟩
    obtain ⟨-, -, hsteps, -⟩ := wanted_ident hwanted
    obtain ⟨hid, hnew, now, hrow'⟩ := attempt.inserted hwanted hs
    obtain ⟨wf', hwf', hworkflow, -⟩ := wanted_definition hwanted wf.id
    rw [hdrives wf' hwf'] at hworkflow
    rw [Tallied, DB.stepsOf_of_absent hnew] at htallied
    rw [DB.stepsOf_of_absent hnew] at hwithin
    refine ⟨⟨hid, _, hrow'⟩, hworkflow, ?_, ?_⟩
    · rw [entries, entryBill_of_service hh trivial, hnone]
      exact hsteps.trans htallied
    · change (run.stepsUsed : Int) ≤ wf.maxSteps + 1
      rwa [hsteps]
  resolve := fun tenantId approvalId approved decidedBy note => by
    refine Act.keeps_perform fun m x h x₁ hrely => ⟨trivial, fun answer y hs => ?_⟩
    have hop : (Op.resolveApproval tenantId approvalId approved decidedBy note).InStep := trivial
    exact (h.rely hrely).call hop hs
  fired := fun m x payload h => h.memory ⟨rfl, rfl, rfl, rfl, rfl, rfl, List.prefix_append _ _⟩
  resume := by
    rintro cfg wf' m x - hwf' h
    rw [h.workflow] at hwf'
    obtain rfl := hdrives wf' hwf'
    exact (limit_outline cfg wf' d redact runId n₀).drives fun _ =>
      h.memory ⟨rfl, rfl, rfl, rfl, rfl, rfl, List.prefix_rfl⟩

/-- Whatever a call does, the stored counter is the number of committed entries. -/
theorem tallied_of_step {x y : DB × Session.History runId} {call : Call} {answer : call.Res}
    (h : Tallied n₀ x ∧ (x.1.stepsOf runId : Int) ≤ wf.maxSteps + 1) (hlimited : Limited wf n₀ x call)
    (hs : Serial.recorded (Call.step d.engine.policy redact) x call answer y) :
    Tallied n₀ y ∧ (y.1.stepsOf runId : Int) ≤ wf.maxSteps + 1 := by
  obtain ⟨m, op⟩ := call
  obtain ⟨hs, hh⟩ := hs
  have hnew : ∀ (run : Run) now, op = .insertRun run → (run.newRow now).stepsUsed = 0 := by
    rintro run now rfl
    exact hlimited.2
  cases haccepted : op.accepted answer with
  | true =>
      obtain ⟨run, events, heq⟩ := Op.eq_checkpoint_of_accepted haccepted
      cases heq
      obtain ⟨rfl, ⟨row, hrow⟩, hcounted, hwithin⟩ := hlimited
      obtain ⟨now, hrow'⟩ := row_of_checkpoint hs hrow
      rw [Tallied, DB.stepsOf_of_find hrow', ← (entries_of_accepted hh).2]
      exact ⟨hcounted, hwithin⟩
  | false =>
      have hsteps : y.1.stepsOf runId = x.1.stepsOf runId := by
        rcases column_of_step (g := Run.stepsUsed) hs (fun _ _ _ => rfl) (fun _ _ _ => rfl) hnew with
          hsame | ⟨run, events, heq, -, -⟩
        · exact hsame
        · cases heq
          cases haccepted
      rw [Tallied, hsteps, hh, entryBill, bill_append_singleton, Bill.step_pending haccepted]
      exact h

theorem limit_discipline (d : Deployment) (redact : Json → Json) (wf : Workflow) (runId : String)
    (n₀ : Nat) :
    Serial.Discipline (Call.step d.engine.policy redact)
      (fun attempt : Attempt runId => attempt.request.program d)
      (fun db (event : Outside) db' => event.step d.engine.policy redact runId db db')
      (Driven d wf)
      (fun x => OfWorkflow wf runId x.1 ∧ Tallied n₀ x ∧ (x.1.stepsOf runId : Int) ≤ wf.maxSteps + 1)
      (limitSpec d redact wf runId n₀) (fun _ => True) where
  allowed := fun _ _ _ _ hx _ _ hrec => ⟨hx, hrec⟩
  refl := fun x _ => ⟨Kept.refl runId x.1, [], (List.append_nil _).symm⟩
  trans := by
    rintro x y z ⟨hkept, events, hh⟩ ⟨hkept', events', hh'⟩
    exact ⟨hkept.trans hkept', events ++ events', by rw [hh', hh, List.map_append, List.append_assoc]⟩
  stable := fun _ _ _ _ => trivial
  call := by
    rintro x call answer y ⟨hof, htallied⟩ hlimited - hrec
    refine ⟨ofWorkflow_of_step hof ?_ hrec.1, tallied_of_step htallied hlimited hrec⟩
    obtain ⟨m, op⟩ := call
    rintro run rfl
    exact hlimited.1
  env := by
    rintro db h event db' ⟨hof, htallied, hwithin⟩ - henv
    have hkept := kept_of_outside henv
    have hbill : entryBill (h ++ [.env event]) = entryBill h := bill_append_env _ h [event]
    refine ⟨⟨ofWorkflow_of_kept hof hkept, ?_, ?_⟩, hkept, [event], rfl⟩
    · rw [Tallied, hkept.stepsOf, hbill]
      exact htallied
    · rw [hkept.stepsOf]
      exact hwithin
  start := by
    rintro db h attempt ⟨hof, htallied, hwithin⟩ hdriven
    have hbill : entryBill (h ++ [.start attempt]) =
        (entryBill h).step Op.entered (.start attempt) := bill_append_singleton _ _ _
    refine ⟨⟨hof, ?_, hwithin⟩, (limit_entry n₀ attempt hdriven).program attempt.driver ?_⟩
    · rw [Tallied, hbill]
      exact htallied
    · rw [NoEntry, hbill]
      rfl

/-- The stored counter is one above the ceiling at most, and counts no more than the entries. -/
theorem stepsUsed_le_succ {db : DB} {labels : Session.History runId} {c : Session}
    (hworkflow : OfWorkflow wf runId db) (hstart : (db.stepsOf runId : Int) ≤ wf.maxSteps + 1)
    (hrun : Session.Run d redact runId (Session.idle db) labels c) (hdrives : Session.Drives d wf labels) :
    (c.shared.stepsOf runId : Int) ≤ wf.maxSteps + 1 ∧
      c.shared.stepsOf runId ≤ db.stepsOf runId + Session.entered labels := by
  have hok : Serial.Permitted (Driven d wf) ([] : Session.History runId) labels := by
    intro before label after heq
    cases label with
    | start attempt => exact hdrives attempt (by simp [heq])
    | _ => trivial
  have htallied : Tallied (db.stepsOf runId) (db, ([] : Session.History runId)) := by
    simp [Tallied]
  obtain ⟨-, hcounted, hwithin⟩ :=
    (hrun.good (limit_discipline d redact wf runId (db.stepsOf runId)) hok
      (.idle ⟨hworkflow, htallied, hstart⟩ trivial)).inv
  refine ⟨hwithin, ?_⟩
  have hbill : (entryBill labels).committed.length + (entryBill labels).pending.length +
      (entryBill labels).lost.length = Session.entered labels := bill_length labels
  have hcounted' : c.shared.stepsOf runId = db.stepsOf runId + (entryBill labels).committed.length := hcounted
  omega

/-- **The step ceiling.** If the walks of the graph from where the run stands fit below the ceiling, one entry for
each request included, then the stored counter keeps to the ceiling, no more steps are entered in the whole life of
the run; and every drive ends. -/
theorem stepsUsed_le_maxSteps (outcomes : Outcomes) (trigger : Json) {db : DB} {labels : Session.History runId}
    {c : Session} (hworkflow : OfWorkflow wf runId db)
    (htrigger : ∀ row, db.runs.find? runId = some row → row.triggerJson = trigger)
    (hstart : (db.stepsOf runId : Int) ≤ wf.maxSteps)
    (hrun : Session.Run d redact runId (Session.idle db) labels c)
    (hserves : ∀ attempt, .start attempt ∈ labels → attempt.request.Serves d wf runId trigger)
    (hhears : ∀ call answer, .call call answer ∈ labels → outcomes.Hears call answer)
    (hfits : wf.Fits ⟨d.engine.agents, outcomes, runId, trigger⟩ (db.place wf runId)
      (wf.maxSteps - db.stepsOf runId - Session.requests labels)) :
    (∀ row, c.shared.runs.find? runId = some row → (row.stepsUsed : Int) ≤ wf.maxSteps) ∧
      (db.stepsOf runId + Session.entered labels : Int) ≤ wf.maxSteps ∧
      ∀ (cfg : EngineConfig) (S : Spec Call Call.Res DB) (next : Option String) (m : Mem) (s : DB),
        Act.wp { S with guar := fun _ _ => True }
          (WorkflowEngine.drive cfg wf ⟨wf.budgetUsd, wf.maxSteps⟩
            (WorkflowEngine.iterations wf m.run) next)
          (fun out _ _ => out = none) (fun _ _ _ => True) m s := by
  have hdrives : Session.Drives d wf labels :=
    fun attempt hmem wf' hwf' => (hserves attempt hmem attempt.run).1 wf' hwf'
  have hconforms : Serial.Permitted (Conforms d ⟨d.engine.agents, outcomes, runId, trigger⟩ wf) [] labels := by
    intro before label after heq
    cases label with
    | start attempt => exact hserves attempt (by simp [heq])
    | call call answer => exact hhears call answer (by simp [heq])
    | env event => trivial
  have hroomy := entered_le (g := ⟨d.engine.agents, outcomes, runId, trigger⟩) rfl hworkflow htrigger hrun
    hconforms hfits
  have hentries : (db.stepsOf runId + Session.entered labels : Int) ≤ wf.maxSteps := by
    by_cases hnone : Session.entered labels = 0
    · rw [hnone]
      simpa using hstart
    · have hroom := hroomy hnone
      omega
  obtain ⟨-, hcounted⟩ := stepsUsed_le_succ hworkflow (by omega) hrun hdrives
  refine ⟨fun row hrow => ?_, hentries, fun cfg S next m s => drive_ends _ next m s (le_refl _)⟩
  rw [DB.stepsOf_of_find hrow] at hcounted
  omega

/-- A payment behind a gate, with room for the gate twice. -/
def spacedWorkflow : Workflow := { gatedWorkflow 1 payStep with maxSteps := 3 }

def spacedDeployment : Deployment :=
  { payDeployment with workflowsById := Dict.ofList [("payments", spacedWorkflow)] }

/-- The run waits at its gate, and is taken up again when it has been approved. -/
def spacedSession : Session.History "run" × Session :=
  Session.play spacedDeployment id { World.constant (.str "paid") with newId := fun _ => "approval" }
    (.start (resumeAttempt "run") :: List.replicate 5 .call ++ .start approveAttempt :: List.replicate 12 .call)
    (Session.idle (DB.withRun "run" "payments"))

/-- Anything may come out of the outside. -/
def anyOutcome : Outcomes := ⟨fun _ _ => True, fun _ _ _ => True⟩

/-- A walk from the gate comes to the payment next, and then to the end. -/
theorem spacedWorkflow_walk {g : Setting} {n : Nat} {place : Place}
    (h : spacedWorkflow.Walk g (some ⟨some "gate", Table.empty⟩) n place) :
    place.cursor = some "gate" ∧ n = 0 ∨ place.cursor = some "pay" ∧ n = 1 ∨ place.cursor = none := by
  induction h with
  | here h =>
      cases h
      exact Or.inl ⟨rfl, rfl⟩
  | step _ hstep ih =>
      obtain ⟨hfound, hleaves⟩ := hstep
      rcases ih with ⟨hcursor, rfl⟩ | ⟨hcursor, rfl⟩ | hcursor
      · cases hcursor
        cases hfound
        cases hleaves with
        | approves => exact Or.inr (Or.inl ⟨rfl, rfl⟩)
        | acts h => cases h <;> rename_i hnode _ _ _ <;> cases hnode
        | branches hnode => cases hnode
        | terminates hnode => cases hnode
      · cases hcursor
        cases hfound
        cases hleaves with
        | acts => exact Or.inr (Or.inr rfl)
        | approves hnode => cases hnode
        | branches hnode => cases hnode
        | terminates hnode => cases hnode
      · cases hcursor

theorem spacedSession_run : Session.Run spacedDeployment id "run" (Session.idle (DB.withRun "run" "payments"))
    spacedSession.1 spacedSession.2 :=
  Session.play_run spacedDeployment id _ _ (by simp) _

theorem spacedSession_serves (attempt : Attempt "run") (h : .start attempt ∈ spacedSession.1) :
    attempt.request.Serves spacedDeployment spacedWorkflow "run" (.obj []) := by
  have hattempt : attempt = resumeAttempt "run" ∨ attempt = approveAttempt := by
    simpa [List.mem_replicate] using Serial.start_of_mem_play h
  rcases hattempt with rfl | rfl <;>
    exact fun _ => ⟨fun wf' hwf' => (Option.some.inj hwf').symm, fun run hwanted => by cases hwanted⟩

theorem anyOutcome_hears (call : Call) (answer : call.Res) : anyOutcome.Hears call answer := by
  obtain ⟨m, op⟩ := call
  cases op with
  | getEffect tenantId key =>
      cases answer with
      | ok cached => exact fun _ => trivial
      | error e => trivial
  | respond agent task scratch =>
      cases answer with
      | ok out => exact fun _ _ _ => trivial
      | error e => trivial
  | execute caller name args => cases caller <;> cases answer <;> trivial
  | _ => trivial

/-- Two requests enter three steps, which is what the ceiling allows. -/
theorem stepsUsed_le_maxSteps_spaced :
    (∀ row, spacedSession.2.shared.runs.find? "run" = some row → (row.stepsUsed : Int) ≤ spacedWorkflow.maxSteps) ∧
      ((DB.withRun "run" "payments").stepsOf "run" + Session.entered spacedSession.1 : Int) ≤
        spacedWorkflow.maxSteps ∧
      ∀ (cfg : EngineConfig) (S : Spec Call Call.Res DB) (next : Option String) (m : Mem) (s : DB),
        Act.wp { S with guar := fun _ _ => True }
          (WorkflowEngine.drive cfg spacedWorkflow ⟨spacedWorkflow.budgetUsd, spacedWorkflow.maxSteps⟩
            (WorkflowEngine.iterations spacedWorkflow m.run) next)
          (fun out _ _ => out = none) (fun _ _ _ => True) m s := by
  refine stepsUsed_le_maxSteps anyOutcome (.obj []) ?_ ?_ (by decide) spacedSession_run spacedSession_serves
    (fun call answer _ => anyOutcome_hears call answer) ?_
  · rintro row hrow
    cases hrow
    rfl
  · rintro row hrow
    cases hrow
    rfl
  · intro n name context hwalk _
    have hroom : (spacedWorkflow.maxSteps - (DB.withRun "run" "payments").stepsOf "run" -
        Session.requests spacedSession.1 : Int) = 1 := by decide +kernel
    rw [hroom]
    rcases spacedWorkflow_walk hwalk with ⟨-, rfl⟩ | ⟨-, rfl⟩ | hcursor
    · decide
    · decide
    · cases hcursor

/-! ### One step too many -/

def cappedWorkflow (maxSteps : Int) : Workflow := { payWorkflow with maxSteps := maxSteps }

def cappedAttempt (maxSteps : Int) : Attempt "run" :=
  { request := .orchestratorResume "acme" "run" (cappedWorkflow maxSteps) []
    driver := rfl
    run := rfl
    fresh := rfl }

/-- A run of one step, resumed in one go. -/
def cappedSession (maxSteps : Int) : Session.History "run" × Session :=
  Session.play payDeployment id (World.constant (.int 7))
    (.start (cappedAttempt maxSteps) :: List.replicate 7 .call)
    (Session.idle (DB.withRun "run" "payments"))

theorem cappedSession_run (maxSteps : Int) : Session.Run payDeployment id "run"
    (Session.idle (DB.withRun "run" "payments")) (cappedSession maxSteps).1
    (cappedSession maxSteps).2 :=
  Session.play_run payDeployment id _ _ (by simp) _

/-- With no room for a step, the run enters one and succeeds. -/
theorem stepsUsed_over_maxSteps :
    Session.Run payDeployment id "run" (Session.idle (DB.withRun "run" "payments"))
        (cappedSession 0).1 (cappedSession 0).2 ∧
      (∃ step answer, (⟨step, answer⟩ : Prog.Event Call Call.Res) ∈
        Session.calls (cappedSession 0).1 ∧ step.op = .stepSpan payStep) ∧
      ∃ row, (cappedSession 0).2.shared.runs.find? "run" = some row ∧
        row.status = .succeeded ∧ (cappedWorkflow 0).maxSteps < row.stepsUsed := by
  refine ⟨cappedSession_run 0, ⟨_, _, List.mem_cons_of_mem _ List.mem_cons_self, rfl⟩, _, rfl, rfl, ?_⟩
  decide

end Bass
