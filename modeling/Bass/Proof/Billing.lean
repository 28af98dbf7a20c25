import Bass.Proof.Accounting
import Bass.Proof.Sessions

/-!
# The cost of a run is the cost of its events

Every checkpoint writes the cost of the run and the events that were emitted since the one before in
one transaction. Between two checkpoints the cost in memory is the stored cost plus what the buffered
events cost, so a crash, which loses both, leaves the store in balance.
-/

namespace Bass

open Interaction EngineM

variable {d : Deployment} {redact : Json → Json} {runId : String}

/-- The stored cost of the run, zero while there is no such run. -/
def DB.costOf (db : DB) (runId : String) : ℚ := db.column runId RunRow.costUsd 0

theorem DB.costOf_of_find {db : DB} {row : RunRow} (h : db.runs.find? runId = some row) :
    db.costOf runId = row.costUsd :=
  DB.column_of_find h

theorem DB.costOf_of_absent {db : DB} (h : db.runs.find? runId = none) : db.costOf runId = 0 :=
  DB.column_of_absent h

theorem Kept.costOf {db db' : DB} (h : Kept runId db db') : db'.costOf runId = db.costOf runId :=
  h.column fun hsame => hsame.costUsd

/-- The stored cost changes by an accepted checkpoint of the run only, provided that runs are created
at no cost. -/
theorem costOf_of_step {policy : PolicyEngine} {db db' : DB} {op : Op} {answer : op.Res}
    (hs : op.step policy redact db answer db')
    (hnew : ∀ run, op = .insertRun run → run.costUsd = 0) :
    db'.costOf runId = db.costOf runId ∨
      ∃ run events, (⟨op, answer⟩ : (op : Op) × op.Res) = ⟨.checkpoint run events, .ok ()⟩ ∧
        run.id = runId ∧ db'.costOf runId = run.costUsd :=
  column_of_step hs (fun _ _ _ => rfl) (fun _ _ _ => rfl) fun run _ hop => hnew run hop

/-- The run costs what its stored events cost. -/
def Balanced (runId : String) (db : DB) : Prop := db.costOf runId = db.billed runId

theorem balanced_of_kept {db db' : DB} (h : Balanced runId db) (hkept : Kept runId db db') :
    Balanced runId db' := by
  rw [Balanced, hkept.costOf, hkept.billed]
  exact h

/-! ### The specification of an attempt -/

/-- A model's answer says of which type it is. -/
def Op.Typed : (op : Op) → op.Res → Prop
  | .respond .., .ok (resp, _) => resp.type ≠ none
  | _, _ => True

/-- What the driver owes: it commits a cost only with the events it was booked with, and creates its
run at no cost. -/
def Fair (runId : String) (db : DB) (call : Call) : Prop :=
  match call.op with
  | .checkpoint run events => run.id = runId ∧ (∃ row, db.runs.find? runId = some row) ∧
      run.costUsd = db.costOf runId + billedEvents runId events
  | .insertRun run => run.costUsd = 0
  | .cancelRun .. => True
  | _ => True

def billingSpec (d : Deployment) (redact : Json → Json) (runId : String) :
    Spec Call Call.Res (DB × Session.History runId) :=
  { step := fun x call answer y => Balanced runId x.1 ∧
      Call.step d.engine.policy redact x.1 call answer y.1 ∧ call.op.Typed answer
    rely := fun x y => Kept runId x.1 y.1
    guar := fun x call => Fair runId x.1 call }

/-- A fair call keeps the balance. -/
theorem balanced_of_step {policy : PolicyEngine} {db db' : DB} {m : Mem} {op : Op} {answer : op.Res}
    (h : Balanced runId db) (hfair : Fair runId db ⟨m, op⟩)
    (hs : op.step policy redact db answer db') : Balanced runId db' := by
  have hnew : ∀ run, op = .insertRun run → run.costUsd = 0 := by
    rintro run rfl
    exact hfair
  rcases costOf_of_step hs hnew with hcost | ⟨run, events, heq, -, hcost⟩
  · rcases billed_of_step hs runId with hbilled | ⟨run, events, heq, hbilled⟩
    · exact hcost.trans (h.trans hbilled.symm)
    · cases heq
      obtain ⟨rfl, ⟨row, hrow⟩, hcharged⟩ := hfair
      obtain ⟨now, hrow'⟩ := row_of_checkpoint hs hrow
      rw [Balanced, DB.costOf_of_find hrow', hbilled, ← h]
      exact hcharged
  · cases heq
    obtain ⟨-, -, hcharged⟩ := hfair
    calc
      db'.costOf runId = run.costUsd := hcost
      _ = db.costOf runId + billedEvents runId events := hcharged
      _ = db.billed runId + billedEvents runId events := by rw [h]
      _ = db'.billed runId := (billed_of_checkpoint hs runId).symm

/-! ### The meter -/

/-- The driver holds the run, and the run is stored. -/
def Holds (runId : String) (m : Mem) (x : DB × Session.History runId) : Prop :=
  m.run.id = runId ∧ ∃ row, x.1.runs.find? runId = some row

/-- The stored cost and what the buffer adds to it. -/
def owed (runId : String) (m : Mem) (x : DB × Session.History runId) : ℚ :=
  x.1.costOf runId + billedEvents runId m.buffer

theorem fair_of_inner {db : DB} {m : Mem} {op : Op} (hop : op.Inner) : Fair runId db ⟨m, op⟩ := by
  cases op <;> trivial

/-- A call inside a step leaves the row of the run alone. -/
theorem find_of_inner {policy : PolicyEngine} {db db' : DB} {op : Op} {answer : op.Res} (hop : op.Inner)
    (hs : op.step policy redact db answer db') {row : RunRow}
    (hrow : db.runs.find? runId = some row) : db'.runs.find? runId = some row := by
  rcases runRow_of_step hs hrow with hsame | ⟨run, events, now, rfl, -⟩ | ⟨tenantId, now, rfl, -⟩
  · exact hsame
  · exact hop.elim
  · exact hop.elim

theorem billing_meter (tools : ToolRegistry) :
    Meter tools (billingSpec d redact runId) (Holds runId) (owed runId) where
  memory := by
    rintro m m' x ⟨hid, -, -, events, hbuffer, hfree⟩ ⟨hm, hrow⟩
    refine ⟨⟨hid.trans hm, hrow⟩, ?_⟩
    rw [owed, owed, hbuffer, billedEvents_append, billedEvents_of_free hfree, add_zero]
  rely := by
    rintro m x y ⟨hm, row, hrow⟩ hkept
    obtain ⟨row', hrow', hsame, -⟩ := hkept.row row hrow
    refine ⟨⟨hm, row', hrow'⟩, ?_⟩
    rw [owed, owed, DB.costOf_of_find hrow, DB.costOf_of_find hrow', hsame.costUsd]
  guar := fun _ _ _ hop _ => fair_of_inner hop.inner
  free := by
    rintro m x op answer y hop ⟨hm, row, hrow⟩ ⟨-, hs, -⟩ -
    have hrow' := find_of_inner hop.inner hs hrow
    exact ⟨⟨hm, row, hrow'⟩, by rw [owed, owed, DB.costOf_of_find hrow, DB.costOf_of_find hrow']⟩
  paid := by
    rintro m x op answer y ev hop ⟨hm, row, hrow⟩ ⟨-, hs, -⟩ hid -
    have hrow' := find_of_inner hop.inner hs hrow
    refine ⟨⟨hm, row, hrow'⟩, ?_⟩
    rw [owed, owed, DB.costOf_of_find hrow, DB.costOf_of_find hrow', billedEvents_append,
      billedEvents_singleton, if_pos (hid.trans hm), add_assoc]
  untyped := fun _ _ _ _ _ _ _ _ _ hs htype => absurd htype hs.2.2

theorem billing_span (step : Step) :
    Act.Keeps (billingSpec d redact runId) (Metered (Holds runId) (owed runId))
      (perform (.stepSpan step)) := by
  refine Act.keeps_perform ?_
  rintro m x ⟨⟨hm, row, hrow⟩, hcost⟩ x₁ hkept
  refine ⟨trivial, fun answer y hs => ?_⟩
  obtain ⟨row₁, hrow₁, -⟩ := hkept.row row hrow
  have hdb : y.1 = x₁.1 := hs.2.1
  refine ⟨⟨hm, row₁, by rw [hdb]; exact hrow₁⟩, ?_⟩
  rw [hcost, owed, owed, hdb, hkept.costOf]

theorem billing_checkpoint :
    Act.Keeps (billingSpec d redact runId) (Metered (Holds runId) (owed runId))
      EngineM.checkpoint := by
  rintro m x ⟨⟨hm, row, hrow⟩, hcost⟩
  refine wp_checkpoint.mpr fun x₁ hkept => ?_
  obtain ⟨row₁, hrow₁, hsame, -⟩ := hkept.row row hrow
  have hcost₁ : m.run.costUsd = x₁.1.costOf runId + billedEvents runId m.buffer := by
    rw [hcost, owed, DB.costOf_of_find hrow, DB.costOf_of_find hrow₁, hsame.costUsd]
  refine ⟨⟨hm, ⟨row₁, hrow₁⟩, hcost₁⟩, fun answer y hs => ?_⟩
  cases answer with
  | ok value =>
      subst hm
      obtain ⟨now, hrow'⟩ := row_of_checkpoint hs.2.1 hrow₁
      refine ⟨⟨rfl, _, hrow'⟩, ?_⟩
      rw [owed, DB.costOf_of_find hrow', billedEvents_nil, add_zero]
      rfl
  | error e =>
      have hdb : y.1 = x₁.1 := same_of_checkpoint_error hs.2.1
      refine ⟨⟨hm, row₁, by rw [hdb]; exact hrow₁⟩, ?_⟩
      rw [owed, hdb, hcost₁]

/-! ### Sessions -/

theorem billing_entry (attempt : Attempt runId) :
    Entry d (billingSpec d redact runId) (fun _ => True) (Metered (Holds runId) (owed runId))
      attempt.request where
  rely := fun _ _ _ _ => trivial
  early := fun _ _ _ _ _ _ _ _ _ => trivial
  service := by
    intro x m op hop hwanted
    cases op with
    | insertRun run => exact (wanted_ident (hwanted run rfl)).2.1
    | checkpoint run events => exact hop.elim
    | _ => trivial
  loaded := by
    rintro x m tenantId run y - hbuffer ⟨hbalance, hload, -⟩
    obtain ⟨hid, row, -, hrow', rfl⟩ := attempt.loaded hload
    refine ⟨⟨hid, row, hrow'⟩, ?_⟩
    rw [owed, DB.costOf_of_find hrow', hbuffer, attempt.fresh, billedEvents_nil, add_zero]
    rfl
  created := by
    rintro x m run y - hbuffer hwanted ⟨hbalance, hs, -⟩
    obtain ⟨hid, -, now, hnew⟩ := attempt.inserted hwanted hs
    refine ⟨⟨hid, _, hnew⟩, ?_⟩
    rw [owed, DB.costOf_of_find hnew, hbuffer, attempt.fresh, billedEvents_nil, add_zero]
    rfl
  resolve := by
    rintro tenantId approvalId approved decidedBy note m x ⟨⟨hm, row, hrow⟩, hcost⟩ x₁ hkept
    obtain ⟨row₁, hrow₁, hsame, -⟩ := hkept.row row hrow
    refine ⟨trivial, fun answer y hs => ?_⟩
    have hinner : (Op.resolveApproval tenantId approvalId approved decidedBy note).Inner := trivial
    have hrow' : y.1.runs.find? runId = some row₁ := find_of_inner hinner hs.2.1 hrow₁
    refine ⟨⟨hm, row₁, hrow'⟩, ?_⟩
    rw [hcost, owed, owed, DB.costOf_of_find hrow, DB.costOf_of_find hrow', hsame.costUsd]
  fired := by
    intro m x payload hm
    have hmeter : Meter d.engine.tools (billingSpec d redact runId) (Holds runId) (owed runId) :=
      billing_meter d.engine.tools
    exact metered_quiet hmeter m _ x (quiet_emit rfl) hm
  resume := by
    rintro cfg wf m x hcfg - hm
    have hmeter : Meter cfg.tools (billingSpec d redact runId) (Holds runId) (owed runId) :=
      billing_meter cfg.tools
    exact Act.wp_mono _ (fun _ _ _ _ => trivial) (fun _ _ _ _ => trivial)
      ((metered_engine hmeter wf billing_span billing_checkpoint).resume m x hm)

/-- Calls whose answers are typed. -/
def Typed (_ : Session.History runId) : Serial.Label (Attempt runId) Call Call.Res Outside → Prop
  | .call call answer => call.op.Typed answer
  | _ => True

theorem billing_discipline (d : Deployment) (redact : Json → Json) (runId : String) :
    Serial.Discipline (Call.step d.engine.policy redact)
      (fun attempt : Attempt runId => attempt.request.program d)
      (fun db (event : Outside) db' => event.step d.engine.policy redact runId db db') Typed
      (fun x => Balanced runId x.1) (billingSpec d redact runId) (fun _ => True) where
  allowed := fun _ _ _ _ hbalance _ htyped hrec => ⟨hbalance, hrec.1, htyped⟩
  refl := fun x _ => Kept.refl runId x.1
  trans := fun _ _ _ h h' => h.trans h'
  stable := fun _ _ _ _ => trivial
  call := fun _ _ _ _ hbalance hfair _ hrec => balanced_of_step hbalance hfair hrec.1
  env := by
    intro db h event db' hbalance _ henv
    have hkept := kept_of_outside henv
    exact ⟨balanced_of_kept hbalance hkept, hkept⟩
  start := fun db h attempt hbalance _ =>
    ⟨hbalance, (billing_entry attempt).program attempt.driver trivial⟩

/-- In every state that a session of a run reaches, the run costs what its events cost. -/
theorem costUsd_eq_billed {db : DB} {labels : Session.History runId} {c : Session}
    (hbalance : db.costOf runId = db.billed runId)
    (hrun : Session.Run d redact runId (Session.idle db) labels c)
    (htyped : ∀ call answer, .call call answer ∈ labels → call.op.Typed answer) :
    ∀ row, c.shared.runs.find? runId = some row → row.costUsd = c.shared.billed runId := by
  have hok : Serial.Permitted Typed ([] : Session.History runId) labels := by
    intro before label after heq
    cases label with
    | call call answer => exact htyped call answer (by simp [heq])
    | _ => trivial
  intro row hrow
  have hbalance' : Balanced runId c.shared :=
    (hrun.good (billing_discipline d redact runId) hok (.idle hbalance trivial)).inv
  rwa [Balanced, DB.costOf_of_find hrow] at hbalance'

/-! ### A run that is abandoned and resumed -/

/-- A world whose model says of which type its answers are. -/
def World.Typed (world : World) : Prop :=
  ∀ agent task scratch resp scratch', world.respond agent task scratch = .ok (resp, scratch') →
    resp.type ≠ none

theorem World.typed_constant (result : Json) : (World.constant result).Typed := by
  intro agent task scratch resp scratch' h
  cases h
  exact nofun

theorem Op.typed_serve {policy : PolicyEngine} {world : World} (h : world.Typed) (db : DB)
    (op : Op) : op.Typed (op.serve policy redact world db).1 := by
  cases op with
  | respond agent task scratch =>
      change Op.Typed (.respond agent task scratch) (world.respond agent task scratch)
      cases hanswer : world.respond agent task scratch with
      | error e => trivial
      | ok out => exact h agent task scratch out.1 out.2 hanswer
  | _ => trivial

def resumeAttempt (runId : String) : Attempt runId :=
  { request := .runnerResume "acme" runId
    driver := rfl
    run := rfl
    fresh := rfl }

def approveAttempt : Attempt "run" :=
  { request := .apiResolve "acme" "run" "approval" true "boss" ""
    driver := rfl
    run := rfl
    fresh := rfl }

/-- The first attempt is abandoned after six calls, and payloads are purged during the second. -/
def resumedSession : Session.History "run" × Session :=
  Session.play payDeployment id (World.constant .null)
    (.start (resumeAttempt "run") :: List.replicate 6 .call ++
      .start (resumeAttempt "run") :: List.replicate 4 .call ++
      .env (.purge "acme" 1) :: List.replicate 4 .call) (Session.idle (DB.withRun "run" "payments"))

theorem resumedSession_run : Session.Run payDeployment id "run"
    (Session.idle (DB.withRun "run" "payments")) resumedSession.1 resumedSession.2 :=
  Session.play_run payDeployment id _ _ (by simp) _

theorem costUsd_eq_billed_resumed :
    resumedSession.2.shared.costOf "run" = resumedSession.2.shared.billed "run" := by
  have hbilled := costUsd_eq_billed (by rfl) resumedSession_run fun call answer hmem => by
    obtain ⟨db, rfl⟩ := Serial.answer_of_mem_play hmem
    exact call.op.typed_serve (World.typed_constant .null) db
  obtain ⟨row, hrow⟩ : ∃ row, resumedSession.2.shared.runs.find? "run" = some row :=
    Option.isSome_iff_exists.mp (by decide +kernel)
  rw [DB.costOf_of_find hrow]
  exact hbilled row hrow

end Bass
