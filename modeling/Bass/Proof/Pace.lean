import Bass.Proof.Ceiling
import Bass.Proof.Refinement

/-!
# The pace of a run

The engine enters a step for each step of a walk of the graph, and once more for each request that takes the
run up where another one stopped. So the entries of a session are bounded by the walks from where the run
stands and by the number of requests.
-/

namespace Bass

open Interaction EngineM WorkflowEngine

/-! ### Counting -/

/-- The step that a call enters. -/
def Op.entered : (op : Op) → op.Res → List Step
  | .stepSpan step, _ => [step]
  | _, _ => []

namespace Session

variable {runId : String}

/-- The entries into steps. -/
def entered (h : History runId) : Nat := (charges Op.entered h).length

/-- The requests that have taken up the run. -/
def requests (h : History runId) : Nat :=
  h.countP fun label => match label with
    | .start _ => true
    | _ => false

theorem entered_start (h : History runId) (attempt : Attempt runId) :
    entered (h ++ [.start attempt]) = entered h := by
  simp [entered, charges]

theorem requests_start (h : History runId) (attempt : Attempt runId) :
    requests (h ++ [.start attempt]) = requests h + 1 := by
  simp [requests]

theorem entered_enter (h : History runId) (m : Mem) (step : Step) (answer : Unit) :
    entered (h ++ [.call ⟨m, .stepSpan step⟩ answer]) = entered h + 1 := by
  simp [entered, charges, Op.entered]

theorem entered_call (h : History runId) {m : Mem} {op : Op} (answer : op.Res) (hop : ∀ step, op ≠ .stepSpan step) :
    entered (h ++ [.call ⟨m, op⟩ answer]) = entered h := by
  cases op with
  | stepSpan step => exact absurd rfl (hop step)
  | _ => simp [entered, charges, Op.entered]

theorem requests_call (h : History runId) (call : Call) (answer : call.Res) :
    requests (h ++ [.call call answer]) = requests h := by
  simp [requests]

theorem entered_append_env (h : History runId) (events : List Outside) :
    entered (h ++ events.map Serial.Label.env) = entered h := by
  simp [entered, charges, List.flatMap_map]

theorem requests_append_env (h : History runId) (events : List Outside) :
    requests (h ++ events.map Serial.Label.env) = requests h := by
  simp [requests, List.countP_map, Function.comp_def]

end Session

open Session

/-! ### Where a run stands -/

/-- Where the run goes on. -/
def View.place (wf : Workflow) (v : View) : Place := ⟨some (v.cursor.getD wf.start), v.context⟩

/-- Where the stored run goes on, or would start: nowhere once it has ended. -/
def DB.place (wf : Workflow) (runId : String) (db : DB) : Option Place :=
  match db.runs.find? runId with
  | none => some ⟨some wf.start, Table.empty⟩
  | some row => if row.status.terminal then none else some (row.toRun.view.place wf)

theorem DB.place_of_find {wf : Workflow} {runId : String} {db : DB} {row : RunRow}
    (hrow : db.runs.find? runId = some row) (hrunning : row.status.terminal = false) :
    db.place wf runId = some (row.toRun.view.place wf) := by
  rw [place, hrow]
  simp [hrunning]

theorem DB.place_of_terminal {wf : Workflow} {runId : String} {db : DB} {row : RunRow}
    (hrow : db.runs.find? runId = some row) (hterminal : row.status.terminal = true) :
    db.place wf runId = none := by
  rw [place, hrow]
  simp [hterminal]

theorem DB.place_of_absent {wf : Workflow} {runId : String} {db : DB} (hnone : db.runs.find? runId = none) :
    db.place wf runId = some ⟨some wf.start, Table.empty⟩ := by
  rw [place, hnone]

theorem DB.place_of_runs {wf : Workflow} {runId : String} {db db' : DB}
    (h : db'.runs.find? runId = db.runs.find? runId) : db'.place wf runId = db.place wf runId := by
  rw [place, place, h]

/-- Others may end the run, and leave it where it was otherwise. -/
theorem Kept.place {wf : Workflow} {runId : String} {db db' : DB} (h : Kept runId db db') :
    db'.place wf runId = db.place wf runId ∨ db'.place wf runId = none := by
  cases hfind : db.runs.find? runId with
  | none => exact Or.inl (DB.place_of_runs ((h.absent hfind).trans hfind.symm))
  | some row =>
      obtain ⟨row', hrow', hsame, hstatus | hcanceled⟩ := h.row row hfind
      · left
        have hview : row'.toRun.view.place wf = row.toRun.view.place wf := by
          simp only [View.place, Run.view, RunRow.toRun, hsame.cursorStep, hsame.contextJson]
        rw [DB.place, DB.place, hfind, hrow']
        simp only [hstatus, hview]
      · exact Or.inr (DB.place_of_terminal hrow' (by rw [hcanceled]; rfl))

section Pace

variable {d : Deployment} {redact : Json → Json} {g : Setting} {wf : Workflow} {origin : Option Place}
  {room : Int} {x y : DB × History g.runId} {m : Mem} {v : View} {place : Place} {spare : Nat}

/-- A walk comes to the place, and its steps and the requests are as many as the entries, and `spare` more. -/
def Paced (g : Setting) (wf : Workflow) (origin : Option Place) (spare : Nat) (h : History g.runId)
    (place : Place) : Prop :=
  ∃ n, wf.Walk g origin n place ∧ entered h + spare ≤ n + requests h

theorem Paced.mono {h h' : History g.runId} {spare' : Nat} (hpaced : Paced g wf origin spare h place)
    (hcount : entered h' + spare' + requests h ≤ entered h + spare + requests h') :
    Paced g wf origin spare' h' place := by
  obtain ⟨n, hwalk, hle⟩ := hpaced
  exact ⟨n, hwalk, by omega⟩

theorem Paced.outside (hpaced : Paced g wf origin spare x.2 place)
    (hy : ∃ events : List Outside, y.2 = x.2 ++ events.map Serial.Label.env) :
    Paced g wf origin spare y.2 place := by
  obtain ⟨events, hh⟩ := hy
  refine hpaced.mono ?_
  rw [hh, entered_append_env, requests_append_env]

theorem Paced.called {op : Op} {answer : op.Res} (hpaced : Paced g wf origin spare x.2 place)
    (hop : ∀ step, op ≠ .stepSpan step) (hh : y.2 = x.2 ++ [.call ⟨m, op⟩ answer]) :
    Paced g wf origin spare y.2 place := by
  refine hpaced.mono ?_
  rw [hh, entered_call _ _ hop, requests_call]

theorem Paced.entered {step : Step} {answer : Unit} (hpaced : Paced g wf origin 1 x.2 place)
    (hh : y.2 = x.2 ++ [.call ⟨m, .stepSpan step⟩ answer]) : Paced g wf origin 0 y.2 place := by
  refine hpaced.mono ?_
  rw [hh, entered_enter, requests_call]

/-- The stored run stands at such a place. -/
def PacedRow (g : Setting) (wf : Workflow) (origin : Option Place) (spare : Nat) (x : DB × History g.runId) : Prop :=
  ∀ place, x.1.place wf g.runId = some place → Paced g wf origin spare x.2 place

theorem PacedRow.outside (h : PacedRow g wf origin spare x) (hkept : Kept g.runId x.1 y.1)
    (hy : ∃ events : List Outside, y.2 = x.2 ++ events.map Serial.Label.env) : PacedRow g wf origin spare y := by
  intro place hplace
  have hkept : y.1.place wf g.runId = x.1.place wf g.runId ∨ y.1.place wf g.runId = none := hkept.place
  rcases hkept with hsame | hnone
  · exact (h place (hsame.symm.trans hplace)).outside hy
  · cases hnone.symm.trans hplace

/-- What is stored of the run. -/
structure PacedStore (g : Setting) (wf : Workflow) (origin : Option Place) (x : DB × History g.runId) : Prop where
  workflow : OfWorkflow wf g.runId x.1
  trigger : ∀ row, x.1.runs.find? g.runId = some row → row.triggerJson = g.trigger
  stored : PacedRow g wf origin 0 x

/-- What a call owes: it enters a step while there is room, and commits a place that a walk comes to. -/
def Call.Paces (g : Setting) (wf : Workflow) (origin : Option Place) (room : Int) (x : DB × History g.runId) :
    Call → Prop
  | ⟨_, .stepSpan _⟩ => (entered x.2 + 1 : Int) ≤ room + requests x.2 ∧ PacedRow g wf origin 1 x
  | ⟨_, .checkpoint run _⟩ =>
      run.id = g.runId → run.status.terminal = false → Paced g wf origin 0 x.2 (run.view.place wf)
  | ⟨_, .insertRun run⟩ => run.workflowId = wf.id ∧ run.triggerEvent = g.trigger ∧
      run.view.place wf = ⟨some wf.start, Table.empty⟩
  | _ => True

def paceSpec (d : Deployment) (redact : Json → Json) (g : Setting) (wf : Workflow) (origin : Option Place)
    (room : Int) : Spec Call Call.Res (DB × History g.runId) where
  step x call answer y := (PacedStore g wf origin x ∧ g.outcomes.Hears call answer) ∧
    Serial.recorded (Call.step d.engine.policy redact) x call answer y
  rely x y := Kept g.runId x.1 y.1 ∧ ∃ events : List Outside, y.2 = x.2 ++ events.map Serial.Label.env
  guar x call := call.Paces g wf origin room x

/-! ### A drive -/

/-- The run is stored, and a driver in a step stands at a place that a walk comes to. -/
def Placed (g : Setting) (wf : Workflow) (origin : Option Place) (v : View) (x : DB × History g.runId) : Prop :=
  (∃ row, x.1.runs.find? g.runId = some row) ∧ Paced g wf origin 0 x.2 (v.place wf)

theorem isSome_of_kept {runId : String} {db db' : DB} (h : Kept runId db db')
    (hrow : ∃ row, db.runs.find? runId = some row) : ∃ row, db'.runs.find? runId = some row := by
  obtain ⟨row, hrow⟩ := hrow
  obtain ⟨row', hrow', -⟩ := h.row row hrow
  exact ⟨row', hrow'⟩

theorem pace_traced : Traced d g (paceSpec d redact g wf origin room) (fun _ => True) v (Placed g wf origin v) where
  rely := fun x y ⟨hrow, hpaced⟩ ⟨hkept, hy⟩ => ⟨isSome_of_kept hkept hrow, hpaced.outside hy⟩
  hears := by
    rintro x m op answer y ⟨⟨row, hrow⟩, hpaced⟩ hop ⟨⟨-, hheard⟩, hs, hh⟩
    exact ⟨⟨⟨row, find_of_inner hop.inner hs hrow⟩, hpaced.called (by rintro step rfl; exact hop) hh⟩, hheard⟩
  plain := by
    intro x m op hplain _
    cases op with
    | stepSpan step | checkpoint run events | insertRun run => exact hplain.elim
    | _ => trivial
  execute := fun _ _ _ _ _ _ _ _ _ _ _ _ => trivial
  checkpoint := by
    rintro x m rfl ⟨⟨row, hrow⟩, hpaced⟩
    have hop : ∀ step, Op.checkpoint m.run m.buffer ≠ .stepSpan step := fun _ h => by cases h
    refine ⟨fun _ _ => hpaced, fun answer y ⟨_, hs, hh⟩ => ⟨?_, hpaced.called hop hh⟩⟩
    exact Option.isSome_iff_exists.mp (isSome_run_of_step hs (Option.isSome_iff_exists.mpr ⟨row, hrow⟩))

/-- The driver is about to enter the next step, if there is one, for which there is an entry to spare. -/
def Approaches (g : Setting) (wf : Workflow) (origin : Option Place) (next : Option String) (m : Mem)
    (x : DB × History g.runId) : Prop :=
  Holds g.runId m x ∧ m.run.triggerEvent = g.trigger ∧ ∀ name, next = some name →
    name = m.run.cursorStep.getD wf.start ∧ Paced g wf origin 1 x.2 (m.run.view.place wf) ∧ PacedRow g wf origin 1 x

/-- The driver is in the step. -/
def View.At (g : Setting) (wf : Workflow) (step : Step) (v : View) : Prop :=
  v.id = g.runId ∧ v.trigger = g.trigger ∧ wf.steps.get? (v.cursor.getD wf.start) = some step

theorem paces_failRun {reason detail : String} :
    Act.wp (paceSpec d redact g wf origin room) (failRun reason detail) (fun _ _ _ => True) (fun _ _ _ => True) m
      x := by
  refine (wp_modifyRun_bind _ _).mpr ((wp_emit_bind _ _ _ _ _ _).mpr (wp_checkpoint.mpr fun _ _ => ⟨?_, ?_⟩))
  · intro _ hrunning
    cases hrunning
  · intro answer _ _
    cases answer <;> trivial

/-- A step that the graph leads on from has been paid for. -/
theorem LeftBy.paced {step : Step} {next : Option String} (hat : v.At g wf step) (h : LeftBy g step v next m)
    (hpaced : Paced g wf origin 0 x.2 (v.place wf)) : Paced g wf origin 1 x.2 ⟨next, m.run.context⟩ := by
  obtain ⟨hid, htrigger, hstep⟩ := hat
  obtain ⟨n, hwalk, hle⟩ := hpaced
  exact ⟨n + 1, .step hwalk (.step hstep (h.2 hid htrigger)), by omega⟩

theorem paces_advance {step : Step} {next : Option String} (hat : v.At g wf step) (h : LeftBy g step v next m)
    (hplaced : Placed g wf origin v x) :
    Act.wp (paceSpec d redact g wf origin room) (advance next) (fun _ => Approaches g wf origin next)
      (fun _ _ _ => True) m x := by
  have hid : m.run.id = g.runId := (congrArg View.id h.1).trans hat.1
  have htrigger : m.run.triggerEvent = g.trigger := (congrArg View.trigger h.1).trans hat.2.1
  refine (wp_modifyRun_bind _ _).mpr ?_
  cases next with
  | none =>
      refine (wp_modifyRun_bind _ _).mpr ((wp_modifyRun_bind _ _).mpr ((wp_getRun_bind _).mpr
        ((wp_emit_bind _ _ _ _ _ _).mpr (wp_checkpoint.mpr fun x₁ hrely => ⟨fun _ hrunning => ?_, ?_⟩))))
      · cases hrunning
      · rintro answer y ⟨-, hs, -⟩
        cases answer with
        | error e => trivial
        | ok value =>
            have hrow := isSome_run_of_step hs (Option.isSome_iff_exists.mpr (isSome_of_kept hrely.1 hplaced.1))
            exact ⟨⟨hid, Option.isSome_iff_exists.mp hrow⟩, htrigger, nofun⟩
  | some name =>
      refine wp_checkpoint.mpr fun x₁ hrely => ?_
      have hpaced : Paced g wf origin 1 x₁.2 ⟨some name, m.run.context⟩ := (h.paced hat hplaced.2).outside hrely.2
      refine ⟨fun _ _ => hpaced.mono (by omega), ?_⟩
      rintro answer y ⟨-, hs, hh⟩
      cases answer with
      | error e => trivial
      | ok value =>
          obtain ⟨row, hrow⟩ := isSome_of_kept hrely.1 hplaced.1
          obtain ⟨now, hwritten⟩ := row_of_checkpoint hs ((congrArg x₁.1.runs.find? hid).trans hrow)
          have hrow' := (congrArg y.1.runs.find? hid.symm).trans hwritten
          have hop : ∀ step, Op.checkpoint { m.run with cursorStep := some name } m.buffer ≠ .stepSpan step :=
            fun _ h => by cases h
          have hpaced' : Paced g wf origin 1 y.2 ⟨some name, m.run.context⟩ := hpaced.called hop hh
          refine ⟨⟨hid, _, hrow'⟩, htrigger, fun name' hname => ?_⟩
          obtain rfl := Option.some.inj hname
          refine ⟨rfl, hpaced', fun place hplace => ?_⟩
          cases hterminal : m.run.status.terminal with
          | true => cases (DB.place_of_terminal hrow' hterminal).symm.trans hplace
          | false =>
              obtain rfl := Option.some.inj ((DB.place_of_find hrow' hterminal).symm.trans hplace)
              exact hpaced'

theorem pace_outline {cfg : EngineConfig} (hagents : cfg.agents = g.agents) (htools : cfg.tools = d.engine.tools)
    (hfits : wf.Fits g origin room) :
    Outline cfg wf (paceSpec d redact g wf origin room) (Approaches g wf origin)
      (fun step m x => m.run.view.At g wf step ∧ Placed g wf origin m.run.view x)
      (fun step next m x => ∃ v : View, v.At g wf step ∧ LeftBy g step v next m ∧ Placed g wf origin v x)
      (fun step _ m x => m.run.view.At g wf step ∧ Placed g wf origin m.run.view x) (fun _ _ _ => True) where
  unknown := fun _ _ _ _ _ => trivial
  budget := fun _ _ _ _ _ _ _ _ => paces_failRun
  enter := by
    rintro name step m x hstep ⟨⟨hid, hrow⟩, htrigger, hnext⟩ _
    obtain ⟨rfl, hpaced, hstored⟩ := hnext name rfl
    refine (wp_modifyRun_bind _ _).mpr ((wp_emit_bind _ _ _ _ _ _).mpr ((Act.wp_perform _).mpr ?_))
    rintro x₁ ⟨hkept, hy⟩
    have hpaced₁ := hpaced.outside hy
    refine ⟨⟨?_, hstored.outside hkept hy⟩, ?_⟩
    · obtain ⟨n, hwalk, hle⟩ := hpaced₁
      have hknown : wf.steps.get? (m.run.view.cursor.getD wf.start) ≠ none := by
        intro hnone
        cases hnone.symm.trans hstep
      have hroom := hfits n _ _ hwalk hknown
      omega
    · rintro answer y ⟨-, hs, hh⟩
      have hrow' := isSome_run_of_step hs (Option.isSome_iff_exists.mpr (isSome_of_kept hkept hrow))
      exact ⟨⟨hid, htrigger, hstep⟩, Option.isSome_iff_exists.mp hrow', hpaced₁.entered hh⟩
  run := by
    rintro step m x - - ⟨hat, hplaced⟩
    refine Act.wp_mono _ (fun next m' x' hleft => ⟨m.run.view, hat, hleft⟩) (fun e m' x' hsees => ?_)
      (pace_traced.runStep hagents htools trivial ⟨rfl, hplaced⟩)
    rw [hsees.1]
    exact ⟨hat, hsees.2⟩
  retry := fun _ _ _ _ _ _ _ h => ⟨h, h⟩
  exhausted := fun _ _ _ h => h
  denied := fun _ _ _ _ _ _ _ => paces_failRun
  failed := by
    rintro step e m x - - ⟨hat, hplaced⟩
    exact (Act.wp_bind _ _).mpr (Act.wp_mono _ (fun _ _ _ _ => paces_failRun) (fun _ _ _ _ => trivial)
      (pace_traced.compensate hagents htools (fun _ _ => trivial) ⟨rfl, hplaced⟩))
  other := fun _ _ _ _ _ _ _ _ => trivial
  finish := by
    rintro step next m x - ⟨v, hat, hleft, hplaced⟩
    exact paces_advance hat hleft hplaced

/-! ### Sessions -/

/-- The requests go by the one definition and start the run, if they do, for the one trigger; and only outcomes are
heard. -/
def Conforms (d : Deployment) (g : Setting) (wf : Workflow) (_ : History g.runId) : Session.Label g.runId → Prop
  | .start attempt => attempt.request.Serves d wf g.runId g.trigger
  | .call call answer => g.outcomes.Hears call answer
  | .env _ => True

/-- A driver whose run has not ended has an entry to spare. -/
def HoldsSpare (g : Setting) (wf : Workflow) (origin : Option Place) (m : Mem) (x : DB × History g.runId) : Prop :=
  Holds g.runId m x ∧ m.run.workflowId = wf.id ∧ m.run.triggerEvent = g.trigger ∧ PacedRow g wf origin 1 x ∧
    (m.run.status.terminal = false → Paced g wf origin 1 x.2 (m.run.view.place wf))

/-- The run is created at the start, ended by whoever cancels it, and moved by checkpoints only. -/
theorem pacedRow_of_call {op : Op} {answer : op.Res} (h : PacedRow g wf origin spare x)
    (hop : ∀ step, op ≠ .stepSpan step)
    (hnew : ∀ run, op = .insertRun run → run.view.place wf = ⟨some wf.start, Table.empty⟩)
    (hcommits : ∀ run events, op = .checkpoint run events → run.id = g.runId → run.status.terminal = false →
      Paced g wf origin spare x.2 (run.view.place wf))
    (hs : op.step d.engine.policy redact x.1 answer y.1) (hh : y.2 = x.2 ++ [.call ⟨m, op⟩ answer]) :
    PacedRow g wf origin spare y := by
  intro place hplace
  refine Paced.called ?_ hop hh
  cases hfind : x.1.runs.find? g.runId with
  | none =>
      refine h place ?_
      rcases absent_of_step hs hfind with hnone | ⟨run, now, heq, -, hrow⟩
      · rwa [DB.place_of_runs (hnone.trans hfind.symm)] at hplace
      · cases heq
        rw [DB.place_of_absent hfind, ← hnew run rfl]
        cases hterminal : run.status.terminal with
        | true => cases (DB.place_of_terminal hrow hterminal).symm.trans hplace
        | false => exact (DB.place_of_find hrow hterminal).symm.trans hplace
  | some row =>
      rcases runRow_of_step hs hfind with hsame | ⟨run, events, now, rfl, hid, -, hrow⟩ | ⟨tenantId, now, -, -, hrow⟩
      · refine h place ?_
        rwa [DB.place_of_runs (hsame.trans hfind.symm)] at hplace
      · cases hterminal : run.status.terminal with
        | true => cases (DB.place_of_terminal hrow hterminal).symm.trans hplace
        | false =>
            obtain rfl := Option.some.inj ((DB.place_of_find hrow hterminal).symm.trans hplace)
            exact hcommits run events rfl hid hterminal
      · cases (DB.place_of_terminal hrow rfl).symm.trans hplace

theorem wanted_place {request : Request} {run : Run} (h : request.wanted d = some run)
    (hserves : ∀ wf', request.definition d wf.id = some wf' → wf' = wf) :
    run.workflowId = wf.id ∧ run.view.place wf = ⟨some wf.start, Table.empty⟩ := by
  obtain ⟨wf', hdefinition, hworkflow, hcursor⟩ := wanted_definition h wf.id
  obtain rfl := hserves wf' hdefinition
  have hcontext : run.context = Table.empty := by
    cases request with
    | orchestratorFire tenantId runId wf' trigger buffer =>
        cases h
        rfl
    | apiFire tenantId runId wfName trigger =>
        obtain ⟨wf', -, rfl⟩ := Option.map_eq_some_iff.mp h
        rfl
    | orchestratorResume | runnerResume | apiResolve | apiCancel => cases h
  exact ⟨hworkflow, by simp [View.place, Run.view, hcursor, hcontext]⟩

theorem pace_entry (hagents : d.engine.agents = g.agents) (hfits : wf.Fits g origin room) (attempt : Attempt g.runId)
    (hserves : attempt.request.Serves d wf g.runId g.trigger) :
    Entry d (paceSpec d redact g wf origin room) (PacedRow g wf origin 1) (HoldsSpare g wf origin) attempt.request where
  rely := fun x y h ⟨hkept, hy⟩ => h.outside hkept hy
  early := by
    rintro x m op answer y h ⟨-, hs, hh⟩ hop hnew
    refine pacedRow_of_call h ?_ (fun run heq => absurd heq (hnew run)) ?_ hs hh
    · rintro step rfl
      exact hop
    · rintro run events rfl
      exact hop.elim
  service := by
    intro x m op hop hwanted
    cases op with
    | insertRun run =>
        obtain ⟨hdefinition, htrigger⟩ := hserves attempt.run
        obtain ⟨hworkflow, hplace⟩ := wanted_place (hwanted run rfl) hdefinition
        exact ⟨hworkflow, htrigger run (hwanted run rfl), hplace⟩
    | checkpoint run events => exact hop.elim
    | stepSpan step => exact hop.elim
    | _ => trivial
  loaded := by
    rintro x m tenantId run y h - ⟨⟨hstanding, -⟩, hload, hh⟩
    obtain ⟨hid, row, hrow, hrow', rfl⟩ := attempt.loaded hload
    have hop : ∀ step, Op.loadRun tenantId attempt.request.runId ≠ .stepSpan step := fun _ h => by cases h
    refine ⟨⟨hid, row, hrow'⟩, hstanding.workflow row hrow, hstanding.trigger row hrow, ?_, fun hrunning => ?_⟩
    · exact pacedRow_of_call h hop (by simp) (by simp) hload hh
    · exact (h _ (DB.place_of_find hrow hrunning)).called hop hh
  created := by
    rintro x m run y h - hwanted ⟨-, hs, hh⟩
    obtain ⟨hdefinition, htrigger⟩ := hserves attempt.run
    obtain ⟨hworkflow, hplace⟩ := wanted_place hwanted hdefinition
    obtain ⟨hid, hnew, now, hrow⟩ := attempt.inserted hwanted hs
    have hop : ∀ step, Op.insertRun run ≠ .stepSpan step := fun _ h => by cases h
    refine ⟨⟨hid, _, hrow⟩, hworkflow, htrigger run hwanted, ?_, fun _ => ?_⟩
    · refine pacedRow_of_call h hop (fun run' heq => ?_) (by simp) hs hh
      cases heq
      exact hplace
    · change Paced g wf origin 1 y.2 (run.view.place wf)
      rw [hplace]
      exact (h _ (DB.place_of_absent hnew)).called hop hh
  resolve := by
    intro tenantId approvalId approved decidedBy note
    refine Act.keeps_perform fun m x h x₁ ⟨hkept, hy⟩ => ⟨trivial, fun answer y ⟨_, hs, hh⟩ => ?_⟩
    obtain ⟨⟨hid, hrow⟩, hworkflow, htrigger, hstored, hpaced⟩ := h
    have hop : ∀ step, Op.resolveApproval tenantId approvalId approved decidedBy note ≠ .stepSpan step :=
      fun _ h => by cases h
    have hinner : (Op.resolveApproval tenantId approvalId approved decidedBy note).Inner := trivial
    obtain ⟨row, hrow⟩ := isSome_of_kept hkept hrow
    refine ⟨⟨hid, row, find_of_inner hinner hs hrow⟩, hworkflow, htrigger, ?_, fun hrunning => ?_⟩
    · exact pacedRow_of_call (hstored.outside hkept hy) hop (by simp) (by simp) hs hh
    · exact ((hpaced hrunning).outside hy).called hop hh
  fired := fun _ _ _ h => h
  resume := by
    rintro cfg wf' m x hcfg hdefinition ⟨hholds, hworkflow, htrigger, hstored, hpaced⟩
    rw [hworkflow] at hdefinition
    obtain rfl := (hserves attempt.run).1 wf' hdefinition
    have hknown : cfg.agents = g.agents := by
      rcases hcfg with rfl | rfl <;> exact hagents
    have htools : cfg.tools = d.engine.tools := by
      rcases hcfg with rfl | rfl <;> rfl
    refine (pace_outline hknown htools hfits).drives fun hrunning => ⟨hholds, htrigger, fun name hname => ?_⟩
    exact ⟨(Option.some.inj hname).symm, hpaced hrunning, hstored⟩

/-- There has been room for every entry. -/
def Roomy (room : Int) (h : History g.runId) : Prop := entered h ≠ 0 → (entered h : Int) ≤ room + requests h

theorem standing_of_call {call : Call} {answer : call.Res} (h : PacedStore g wf origin x)
    (hpaces : call.Paces g wf origin room x)
    (hs : Serial.recorded (Call.step d.engine.policy redact) x call answer y) : PacedStore g wf origin y := by
  obtain ⟨m, op⟩ := call
  obtain ⟨hs, hh⟩ := hs
  constructor
  · refine ofWorkflow_of_step h.workflow ?_ hs
    rintro run rfl
    exact hpaces.1
  · intro row' hrow'
    cases hfind : x.1.runs.find? g.runId with
    | none =>
        rcases absent_of_step hs hfind with hnone | ⟨run, now, heq, -, hnew⟩
        · cases hnone.symm.trans hrow'
        · cases heq
          obtain rfl := Option.some.inj (hnew.symm.trans hrow')
          exact hpaces.2.1
    | some row =>
        have hold := h.trigger row hfind
        rcases runRow_of_step hs hfind with hnew | ⟨run, events, now, -, -, -, hnew⟩ | ⟨tenantId, now, -, -, hnew⟩ <;>
        · obtain rfl := Option.some.inj (hnew.symm.trans hrow')
          exact hold
  · cases op with
    | stepSpan step =>
        intro place hplace
        have hsame : y.1 = x.1 := hs
        rw [hsame] at hplace
        exact (hpaces.2 place hplace).entered hh
    | insertRun run =>
        refine pacedRow_of_call h.stored (by simp) (fun run' heq => ?_) (by simp) hs hh
        cases heq
        exact hpaces.2.2
    | checkpoint run events =>
        refine pacedRow_of_call h.stored (by simp) (by simp) (fun run' events' heq hid hrunning => ?_) hs hh
        cases heq
        exact hpaces hid hrunning
    | _ => exact pacedRow_of_call h.stored (by simp) (by simp) (by simp) hs hh

theorem roomy_of_call {call : Call} {answer : call.Res} (h : Roomy room x.2) (hpaces : call.Paces g wf origin room x)
    (hh : y.2 = x.2 ++ [.call call answer]) : Roomy room y.2 := by
  obtain ⟨m, op⟩ := call
  rw [Roomy, hh, requests_call]
  cases op with
  | stepSpan step =>
      rw [entered_enter]
      have hroom := hpaces.1
      omega
  | _ => rwa [entered_call _ _ (by simp)]

theorem pace_discipline (redact : Json → Json) (hagents : d.engine.agents = g.agents)
    (hfits : wf.Fits g origin room) :
    Serial.Discipline (Call.step d.engine.policy redact)
      (fun attempt : Attempt g.runId => attempt.request.program d)
      (fun db (event : Outside) db' => event.step d.engine.policy redact g.runId db db') (Conforms d g wf)
      (fun x => PacedStore g wf origin x ∧ Roomy room x.2) (paceSpec d redact g wf origin room) (fun _ => True) where
  allowed := fun _ _ _ _ hx _ hlabel hrec => ⟨⟨hx.1, hlabel⟩, hrec⟩
  refl := fun x _ => ⟨Kept.refl g.runId x.1, [], (List.append_nil _).symm⟩
  trans := by
    rintro x y z ⟨hkept, events, hh⟩ ⟨hkept', events', hh'⟩
    exact ⟨hkept.trans hkept', events ++ events', by rw [hh', hh, List.map_append, List.append_assoc]⟩
  stable := fun _ _ _ _ => trivial
  call := fun _ _ _ _ ⟨hstanding, hroomy⟩ hpaces _ hrec =>
    ⟨standing_of_call hstanding hpaces hrec, roomy_of_call hroomy hpaces hrec.2⟩
  env := by
    rintro db h event db' ⟨hstanding, hroomy⟩ - henv
    have hkept := kept_of_outside henv
    have hevents : ∃ events : List Outside, h ++ [.env event] = h ++ events.map Serial.Label.env := ⟨[event], rfl⟩
    refine ⟨⟨⟨ofWorkflow_of_kept hstanding.workflow hkept, fun row' hrow' => ?_, ?_⟩, ?_⟩, hkept, hevents⟩
    · cases hfind : db.runs.find? g.runId with
      | none => cases (hkept.absent hfind).symm.trans hrow'
      | some row =>
          obtain ⟨row'', hrow'', hsame, -⟩ := hkept.row row hfind
          obtain rfl := Option.some.inj (hrow''.symm.trans hrow')
          exact hsame.triggerJson.trans (hstanding.trigger row hfind)
    · exact hstanding.stored.outside hkept hevents
    · have hentered := entered_append_env h [event]
      have hstarts := requests_append_env h [event]
      rw [List.map_singleton] at hentered hstarts
      rwa [Roomy, hentered, hstarts]
  start := by
    rintro db h attempt ⟨hstanding, hroomy⟩ hserves
    have hready : PacedRow g wf origin 1 (db, h ++ [.start attempt]) := by
      intro place hplace
      refine (hstanding.stored place hplace).mono ?_
      simp only [entered_start, requests_start]
      omega
    refine ⟨⟨⟨hstanding.workflow, hstanding.trigger, fun place hplace => (hready place hplace).mono (by omega)⟩, ?_⟩,
      (pace_entry hagents hfits attempt hserves).program attempt.driver hready⟩
    intro hne
    simp only [entered_start, requests_start] at hne ⊢
    have hroom : (entered h : Int) ≤ room + requests h := hroomy hne
    omega

/-- **The pace.** If the walks from where the run stands fit, there is room for every entry. -/
theorem entered_le {db : DB} {labels : History g.runId} {c : Session} (hagents : d.engine.agents = g.agents)
    (hworkflow : OfWorkflow wf g.runId db)
    (htrigger : ∀ row, db.runs.find? g.runId = some row → row.triggerJson = g.trigger)
    (hrun : Session.Run d redact g.runId (Session.idle db) labels c)
    (hconforms : Serial.Permitted (Conforms d g wf) [] labels) (hfits : wf.Fits g (db.place wf g.runId) room) :
    Roomy room labels := by
  have hstored : PacedRow g wf (db.place wf g.runId) 0 (db, ([] : History g.runId)) :=
    fun place hplace => ⟨0, .here hplace, Nat.le_refl _⟩
  have hroomy : Roomy room ([] : History g.runId) := fun hne => absurd rfl hne
  exact (hrun.good (pace_discipline redact hagents hfits) hconforms
    (.idle ⟨⟨hworkflow, htrigger, hstored⟩, hroomy⟩ trivial)).inv.2

end Pace

end Bass
