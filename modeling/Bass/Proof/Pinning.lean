import Bass.Proof.StepCalls
import Bass.Proof.Sessions
import Bass.Rollout

/-!
# Runs and versions of their definition

A run is stored with the version of the definition it was created from. A driver looks the
definition up again by id; the steps it carries out are steps of what it finds there, so they belong
to the stored version as long as every driver finds that version.
-/

namespace Bass

open Interaction EngineM

variable {d : Deployment} {redact : Json → Json}

/-! ### The stored version -/

/-- Runs stay, of the same workflow and with the same version. -/
def Persists (db db' : DB) : Prop :=
  ∀ runId row, db.runs.find? runId = some row → ∃ row', db'.runs.find? runId = some row' ∧
    row'.workflowId = row.workflowId ∧ row'.workflowVersion = row.workflowVersion

theorem Persists.refl (db : DB) : Persists db db := fun _ row hrow => ⟨row, hrow, rfl, rfl⟩

theorem Persists.trans {db db₁ db' : DB} (h : Persists db db₁) (h' : Persists db₁ db') :
    Persists db db' := by
  intro runId row hrow
  obtain ⟨row₁, hrow₁, hid₁, hversion₁⟩ := h runId row hrow
  obtain ⟨row', hrow', hid', hversion'⟩ := h' runId row₁ hrow₁
  exact ⟨row', hrow', hid'.trans hid₁, hversion'.trans hversion₁⟩

theorem persists_of_step {policy : PolicyEngine} {db db' : DB} {op : Op} {answer : op.Res}
    (h : op.step policy redact db answer db') : Persists db db' := by
  intro runId row hrow
  rcases runRow_of_step h hrow with hrow' | ⟨run, events, now, -, -, -, hrow'⟩ |
    ⟨tenantId, now, -, -, hrow'⟩
  · exact ⟨row, hrow', rfl, rfl⟩
  · exact ⟨_, hrow', rfl, rfl⟩
  · exact ⟨_, hrow', rfl, rfl⟩

/-! ### The specification of a driver -/

/-- `wf` is the definition that the stored run pins. -/
def PinnedBy (wf : Workflow) (runId : String) (db : DB) : Prop :=
  ∃ row, db.runs.find? runId = some row ∧ wf.id = row.workflowId ∧ wf.version = row.workflowVersion

theorem PinnedBy.persists {wf : Workflow} {runId : String} {db db' : DB} (h : PinnedBy wf runId db)
    (hpersists : Persists db db') : PinnedBy wf runId db' := by
  obtain ⟨row, hrow, hid, hversion⟩ := h
  obtain ⟨row', hrow', hid', hversion'⟩ := hpersists runId row hrow
  exact ⟨row', hrow', hid.trans hid'.symm, hversion.trans hversion'.symm⟩

namespace Served

/-- What the request loads, if it is not over, it finds the pinned definition for. -/
def Finds (d : Deployment) (served : Served) : (op : Op) → op.Res → Prop
  | .loadRun .., .ok (some run) => run.status.terminal = false →
      ∀ wf, served.definition d run.workflowId = some wf →
        wf.id = run.workflowId ∧ wf.version = run.workflowVersion
  | _, _ => True

/-- The call carries out a step of the definition the run pins, which is the one the request found. -/
def Carries (d : Deployment) (served : Served) (db : DB) (call : Call) : Prop :=
  call.op.ByStep → ∃ wf step, (∃ workflowId, served.definition d workflowId = some wf) ∧
    PinnedBy wf call.mem.run.id db ∧ wf.HasStep step ∧ call.op.Of d.engine step

end Served

def pinSpec (d : Deployment) (redact : Json → Json) (served : Served) : Spec Call Call.Res DB :=
  { step := fun db call answer db' => served.Finds d call.op answer ∧
      Call.step d.engine.policy redact db call answer db'
    rely := Persists
    guar := served.Carries d }

/-- What the driver found for the run it holds, unless that is over, is what the run pins. -/
def Found (d : Deployment) (served : Served) (m : Mem) (db : DB) : Prop :=
  m.run.status.terminal = false → ∀ wf, served.definition d m.run.workflowId = some wf →
    PinnedBy wf m.run.id db

/-- The specification of an engine that drives the run with `wf`. -/
def driveSpec (d : Deployment) (redact : Json → Json) (served : Served) (wf : Workflow) :
    Spec Call Call.Res DB :=
  { step := (pinSpec d redact served).step
    rely := Persists
    guar := fun db call => PinnedBy wf call.mem.run.id db }

theorem pinned_engineInv (d : Deployment) (redact : Json → Json) (served : Served) (cfg : EngineConfig)
    (wf : Workflow) :
    EngineInv cfg wf (driveSpec d redact served wf) fun m db => PinnedBy wf m.run.id db := by
  refine engineInv_of_calls (fun m m' db hsame hJ => hsame.id.symm ▸ hJ) (fun _ _ hJ => hJ)
    (fun op _ => ?_) wf ?_
  · refine Act.keeps_perform fun m db hJ db₁ hrely => ⟨hJ.persists hrely, fun answer db' hs => ?_⟩
    exact (hJ.persists hrely).persists (persists_of_step hs.2)
  · refine keeps_checkpoint_call fun m db hJ db₁ hrely => ⟨hJ.persists hrely, fun answer db' hs => ?_⟩
    have hJ' := (hJ.persists hrely).persists (persists_of_step hs.2)
    exact ⟨hJ', hJ'⟩

/-- The engine carries out steps of the definition the run pins. -/
theorem carries_resume {served : Served} {cfg : EngineConfig} {wf : Workflow} {m : Mem} {db : DB}
    (hagents : cfg.agents = d.engine.agents) (hwf : served.definition d m.run.workflowId = some wf)
    (hpinned : PinnedBy wf m.run.id db) :
    Act.wp (pinSpec d redact served) (WorkflowEngine.resume cfg wf) (fun _ _ _ => True)
      (fun _ _ _ => True) m db := by
  have hof : ∀ {step : Step} {op : Op}, op.Of cfg step → op.Of d.engine step := by
    intro step op hop
    rwa [Op.Of.eq_def, Step.agentIn, hagents] at hop
  have hdrive := (pinned_engineInv d redact served cfg wf).resume m db hpinned
  have hcalls := Prog.wp_withCalls _ hdrive (makes_resume cfg wf m () trivial)
  refine Prog.wp_mono (fun out _ _ => ?_) _ (Prog.wp_weaken ?_ ?_ ?_ _ hcalls)
  · obtain ⟨r, m'⟩ := out
    cases r <;> trivial
  · exact fun _ _ hrely => hrely
  · rintro db₁ call ⟨hpinned₁, hpart⟩ hstep
    obtain ⟨step, hmem, hop⟩ := hpart hstep
    exact ⟨wf, step, ⟨_, hwf⟩, hpinned₁, hmem, hof hop⟩
  · exact fun _ _ _ _ hs => hs

theorem wanted_version {request : Request} {run : Run} {wf : Workflow}
    (hwanted : request.wanted d = some run)
    (hwf : request.definition d run.workflowId = some wf) :
    wf.id = run.workflowId ∧ wf.version = run.workflowVersion := by
  cases request with
  | orchestratorFire tenantId runId fired trigger buffer =>
      cases hwanted
      cases hwf
      exact ⟨rfl, rfl⟩
  | apiFire tenantId runId wfName trigger =>
      obtain ⟨fired, hfired, rfl⟩ := Option.map_eq_some_iff.mp hwanted
      cases hfired.symm.trans hwf
      exact ⟨rfl, rfl⟩
  | _ => cases hwanted

theorem carries_cancel {served : Served} (h : served.request.isDriver = false) (db : DB) :
    (served.program d).wp (pinSpec d redact served) (fun _ _ => True) db := by
  have hservice : ∀ op : Op, op.Service →
      Act.Keeps (pinSpec d redact served) (fun _ _ => True) (perform op) := by
    intro op hop
    refine Act.keeps_perform fun _ _ _ _ _ => ⟨fun hstep => ?_, fun _ _ _ => trivial⟩
    cases op <;> first | exact hop.elim | exact hstep.elim
  obtain ⟨registry, request⟩ := served
  cases request with
  | apiCancel tenantId runId =>
      refine wp_program (Act.keeps_bind (hservice (.cancelRun tenantId runId) trivial) (fun answer => ?_) _ db trivial)
      exact Act.keeps_bind (Act.keeps_ofExcept _) fun _ => respects_hydrate hservice _ _
  | _ => cases h

theorem finds_entry (d : Deployment) (redact : Json → Json) (served : Served) :
    Entry (d.serving served.registry) (pinSpec d redact served) (fun _ => True) (Found d served)
      served.request where
  rely := fun _ _ _ _ => trivial
  early := fun _ _ _ _ _ _ _ _ _ => trivial
  service := by
    intro db m op hop _ hstep
    cases op <;> first | exact hop.elim | exact hstep.elim
  loaded := by
    rintro db m tenantId run db' - - ⟨hfinds, hload, rfl⟩ hstatus wf hwf
    obtain ⟨hid, row, hrow, rfl⟩ := id_of_loadRun hload.symm
    obtain ⟨hworkflow, hversion⟩ := hfinds hstatus wf hwf
    rw [← hid] at hrow
    exact ⟨row, hrow, hworkflow, hversion⟩
  created := by
    rintro db m run db' - - hwanted ⟨-, hs⟩ - wf hwf
    obtain ⟨-, now, hnew⟩ := row_of_insertRun hs
    obtain ⟨hworkflow, hversion⟩ := wanted_version hwanted hwf
    exact ⟨_, hnew, hworkflow, hversion⟩
  resolve := by
    intro tenantId approvalId approved decidedBy note
    refine Act.keeps_perform fun m db hJ db₁ hrely => ⟨fun h => h.elim, fun answer db' hs => ?_⟩
    intro hstatus wf hwf
    exact ((hJ hstatus wf hwf).persists hrely).persists (persists_of_step hs.2)
  fired := fun _ _ _ hJ => hJ
  resume := by
    intro cfg wf m db hcfg hwf hJ
    cases hstatus : m.run.status.terminal with
    | true => exact resume_of_terminal hstatus trivial
    | false =>
        refine carries_resume ?_ hwf (hJ hstatus wf hwf)
        rcases hcfg with rfl | rfl <;> rfl

/-! ### Rollouts -/

open Classical in
/-- The thread at position `i` is held to what the request there owes. -/
noncomputable def rolloutSpec (d : Deployment) (redact : Json → Json) (c : Rollout) (i : Nat)
    (served : Served) : Spec Call Call.Res DB :=
  if c.request? i = some served then pinSpec d redact served
  else
    { step := Call.step d.engine.policy redact
      rely := Persists
      guar := fun _ _ => True }

/-- A driver that loads an unfinished run finds, under the run's workflow id, a definition of the
stored version. -/
def Rollout.Matched (d : Deployment) (c : Rollout) (labels : List Rollout.Label) : Prop :=
  ∀ i m op answer served, .call i ⟨m, op⟩ answer ∈ labels → c.request? i = some served →
    served.Finds d op answer

theorem rollout_discipline (d : Deployment) (redact : Json → Json) (c : Rollout) :
    Pool.Discipline (Call.step d.engine.policy redact) (Served.program d) (fun _ _ => False)
      (fun i call answer => ∀ served, c.request? i = some served → served.Finds d call.op answer)
      (fun _ => True) (rolloutSpec d redact c) where
  allowed := by
    intro i served db call answer db' _ hfinds hs
    unfold rolloutSpec
    split
    · rename_i hrequest
      exact ⟨hfinds served hrequest, hs⟩
    · exact hs
  refl := by
    intro i served db _
    unfold rolloutSpec
    split <;> exact Persists.refl db
  trans := by
    intro i served db db₁ db₂
    unfold rolloutSpec
    split <;> exact Persists.trans
  call := by
    intro i served db call answer db' _ _ _ hs
    refine ⟨trivial, fun j other => ?_⟩
    unfold rolloutSpec
    split <;> exact persists_of_step hs
  env := fun _ _ _ h => h.elim
  start := by
    intro i served db _
    unfold rolloutSpec
    split
    · cases hdriver : served.request.isDriver with
      | true => exact (finds_entry d redact served).program hdriver trivial
      | false => exact carries_cancel hdriver db
    · exact Prog.wp_of_guar (fun _ _ => trivial) _ db

/-- In every interleaving of requests while definitions are registered: where every driver finds the
stored version, every step carried out for a run is a step of the definition of the version that is
stored with the run. -/
theorem steps_pinned {db₀ : DB} {labels : List Rollout.Label} {c : Rollout}
    (hrun : Rollout.Run d redact ⟨[], db₀⟩ labels c) (hmatched : Rollout.Matched d c labels) {i : Nat}
    {m : Mem} {op : Op} {answer : op.Res} (hcall : .call i ⟨m, op⟩ answer ∈ labels)
    (hstep : op.ByStep) :
    ∃ wf step row, c.Defines d wf ∧ c.shared.runs.find? m.run.id = some row ∧
      wf.id = row.workflowId ∧ wf.version = row.workflowVersion ∧ wf.HasStep step ∧
      op.Of d.engine step := by
  obtain ⟨before, after, hlabels⟩ := List.append_of_mem hcall
  obtain ⟨c₁, served, hrest, -, hrequest, hguar⟩ := hrun.guaranteed_at
    (rollout_discipline d redact c) (fun i call answer hmem served hserved =>
      hmatched i call.mem call.op answer served hmem hserved) (Pool.Good.empty trivial) hlabels
  rw [rolloutSpec, if_pos (show c.request? i = some served from hrequest)] at hguar
  obtain ⟨wf, step, ⟨workflowId, hwf⟩, hpinned, hmem, hof⟩ := hguar hstep
  have hpersists : Persists c₁.shared c.shared :=
    hrest.shared Persists.refl (fun _ _ _ => Persists.trans) (fun _ _ _ _ => persists_of_step)
      fun _ _ h => h.elim
  obtain ⟨row, hrow, hid, hversion⟩ := hpinned.persists hpersists
  exact ⟨wf, step, row, ⟨i, served, workflowId, hrequest, hwf⟩, hrow, hid, hversion, hmem, hof⟩

def refundStep : Step :=
  { id := "refund"
    nodeType := .tool
    tool := some "pay" }

def firstRegistry : Registry := Registry.empty.registerWorkflow (gatedWorkflow 1 payStep)

def secondRegistry : Registry := firstRegistry.registerWorkflow (gatedWorkflow 2 refundStep)

/-- Whether a request that loads an unfinished run finds a definition of the stored version. -/
def Rollout.finds (d : Deployment) (requests : List Served) : Rollout.Label → Bool
  | .call i ⟨_, .loadRun _ _⟩ (.ok (some run)) => run.status.terminal ||
      requests[i]?.all fun served => (served.definition d run.workflowId).all fun wf =>
        wf.id = run.workflowId && wf.version = run.workflowVersion
  | _ => true

theorem Rollout.matched_of_all {c : Rollout} {requests : List Served} {labels : List Rollout.Label}
    (hrequests : ∀ j, c.request? j = requests[j]?) (hall : labels.all (Rollout.finds d requests) = true) :
    Rollout.Matched d c labels := by
  intro i m op answer served hmem hserved
  have hfinds := List.all_eq_true.mp hall _ hmem
  rw [hrequests] at hserved
  cases op with
  | loadRun tenantId runId =>
      match answer with
      | .ok (some run) =>
          intro hopen wf hwf
          simpa [Rollout.finds, hopen, hserved, hwf] using hfinds
      | .ok none => trivial
      | .error e => trivial
  | _ => trivial

/-- The label is the entry into a step of this id, for this run. -/
def Rollout.enters (runId stepId : String) : Rollout.Label → Bool
  | .call _ ⟨m, .stepSpan step⟩ _ => m.run.id = runId && step.id = stepId
  | _ => false

theorem Rollout.call_of_enters {runId stepId : String} {label : Rollout.Label}
    (h : Rollout.enters runId stepId label = true) :
    ∃ i m step, label = .call i ⟨m, .stepSpan step⟩ () ∧ m.run.id = runId ∧ step.id = stepId := by
  cases label with
  | call i call answer =>
      obtain ⟨m, op⟩ := call
      cases op with
      | stepSpan step =>
          simp only [enters, Bool.and_eq_true, decide_eq_true_eq] at h
          exact ⟨i, m, step, rfl, h.1, h.2⟩
      | _ => cases h
  | _ => cases h

def stagedRequests : List Served :=
  [⟨firstRegistry, .apiFire "acme" "run" "payments" Table.empty⟩,
    ⟨secondRegistry, .apiFire "acme" "next" "payments" (Dict.ofList [("id", .str "second")])⟩,
    ⟨firstRegistry, .apiResolve "acme" "run" "" true "alice" ""⟩]

/-- A run is fired and waits; a new version is registered and fired; the first run is approved at a process
that still has the version it was fired with. -/
def stagedRollout : List Rollout.Label × Rollout :=
  Rollout.play payDeployment id (.constant .null)
    (.spawn ⟨firstRegistry, .apiFire "acme" "run" "payments" Table.empty⟩ :: List.replicate 7 (.call 0) ++
      .spawn ⟨secondRegistry, .apiFire "acme" "next" "payments" (Dict.ofList [("id", .str "second")])⟩ ::
      List.replicate 7 (.call 1) ++
      .spawn ⟨firstRegistry, .apiResolve "acme" "run" "" true "alice" ""⟩ :: List.replicate 6 (.call 2))
    ⟨[], DB.empty⟩

theorem stagedRollout_requests (j : Nat) : stagedRollout.2.request? j = stagedRequests[j]? := by
  rw [Rollout.request?, ← List.getElem?_map, stagedRollout, Rollout.play, Pool.play_tags]
  rfl

/-- The run enters a step of this id, which a definition of this version has. -/
def Rollout.EntersPinned (rollout : List Rollout.Label × Rollout) (runId stepId : String) (version : Int) :
    Prop :=
  ∃ i m step, Pool.Label.call i ⟨m, .stepSpan step⟩ () ∈ rollout.1 ∧ m.run.id = runId ∧ step.id = stepId ∧
    ∃ wf, rollout.2.Defines payDeployment wf ∧ wf.version = version ∧ wf.HasStep step

theorem steps_pinned_stored :
    Rollout.EntersPinned stagedRollout "run" "pay" 1 ∧ Rollout.EntersPinned stagedRollout "next" "gate" 2 := by
  have hplayed : Rollout.Run payDeployment id ⟨[], DB.empty⟩ stagedRollout.1 stagedRollout.2 :=
    Rollout.play_run _ _ _ _ _
  have hmatched : Rollout.Matched payDeployment stagedRollout.2 stagedRollout.1 :=
    Rollout.matched_of_all stagedRollout_requests (by decide +kernel)
  have hentered {runId stepId : String} {version : Int}
      (hany : stagedRollout.1.any (Rollout.enters runId stepId) = true)
      (hstored : (stagedRollout.2.shared.runs.find? runId).map RunRow.workflowVersion = some version) :
      Rollout.EntersPinned stagedRollout runId stepId version := by
    obtain ⟨label, hcall, henters⟩ := List.any_eq_true.mp hany
    obtain ⟨i, m, step, rfl, hrun, hid⟩ := Rollout.call_of_enters henters
    obtain ⟨wf, entered, row, hdefines, hrow, -, hversion, hmem, rfl⟩ :=
      steps_pinned hplayed hmatched hcall trivial
    rw [hrun] at hrow
    rw [hrow, Option.map_some] at hstored
    exact ⟨i, m, step, hcall, hrun, hid, wf, hdefines, hversion.trans (Option.some.inj hstored), hmem⟩
  constructor
  · apply hentered <;> decide +kernel
  · apply hentered <;> decide +kernel

/-- A run is fired and waits; a new version is registered; the approval is given, and the driver goes
on with a step of the new version. -/
def upgradedRollout : List Rollout.Label × Rollout :=
  Rollout.play payDeployment id (.constant .null)
    (.spawn ⟨firstRegistry, .apiFire "acme" "run" "payments" Table.empty⟩ ::
      List.replicate 7 (.call 0) ++
      .spawn ⟨secondRegistry, .apiResolve "acme" "run" "" true "alice" ""⟩ ::
      List.replicate 6 (.call 1)) ⟨[], DB.empty⟩

theorem upgradedRollout_requests (j : Nat) :
    upgradedRollout.2.request? j =
      [⟨firstRegistry, .apiFire "acme" "run" "payments" Table.empty⟩,
        ⟨secondRegistry, .apiResolve "acme" "run" "" true "alice" ""⟩][j]? := by
  rw [Rollout.request?, ← List.getElem?_map, upgradedRollout, Rollout.play, Pool.play_tags]
  rfl

theorem step_of_gatedWorkflow {version : Int} {next step : Step}
    (h : (gatedWorkflow version next).HasStep step) : step.id = "gate" ∨ step = next := by
  obtain ⟨name, hget⟩ := h
  obtain ⟨entry, hfind, rfl⟩ := Option.map_eq_some_iff.mp hget
  rcases Table.mem_insert (Table.mem_of_find? hfind) with hold | rfl
  · obtain ⟨first, hfirst, rfl⟩ := Table.mem_update.mp hold
    obtain rfl : first = _ := List.mem_singleton.mp hfirst
    split
    · exact Or.inr rfl
    · exact Or.inl rfl
  · exact Or.inr rfl

theorem steps_unpinned :
    Rollout.Run payDeployment id ⟨[], DB.empty⟩ upgradedRollout.1 upgradedRollout.2 ∧
      ∃ i m step row, Pool.Label.call i ⟨m, .stepSpan step⟩ () ∈ upgradedRollout.1 ∧
        upgradedRollout.2.shared.runs.find? m.run.id = some row ∧
        ∀ wf, upgradedRollout.2.Defines payDeployment wf → wf.version = row.workflowVersion →
          ¬wf.HasStep step := by
  have hentered : upgradedRollout.1.any (Rollout.enters "run" "refund") = true := by decide +kernel
  have hstored : (upgradedRollout.2.shared.runs.find? "run").map RunRow.workflowVersion = some 1 := by
    decide +kernel
  obtain ⟨label, hmem, henters⟩ := List.any_eq_true.mp hentered
  obtain ⟨i, m, step, rfl, hrun, hrefund⟩ := Rollout.call_of_enters henters
  obtain ⟨row, hrow, hone⟩ := Option.map_eq_some_iff.mp hstored
  refine ⟨Rollout.play_run _ _ _ _ _, i, m, step, row, hmem, hrun ▸ hrow, ?_⟩
  rintro wf ⟨j, served, workflowId, hrequest, hwf⟩ hversion hstep
  have hfirst : wf = gatedWorkflow 1 payStep := by
    rw [upgradedRollout_requests] at hrequest
    match j, hrequest with
    | 0, hrequest =>
        obtain rfl := Option.some.inj hrequest
        exact (Option.some.inj hwf).symm
    | 1, hrequest =>
        obtain rfl := Option.some.inj hrequest
        -- the second request looks its definition up by id, and finds version 2 or nothing
        change secondRegistry.byId.get? workflowId = some wf at hwf
        by_cases hid : (gatedWorkflow 2 refundStep).id = workflowId
        · rw [← hid, secondRegistry, Registry.byId_registerWorkflow] at hwf
          rw [← Option.some.inj hwf, hone] at hversion
          exact absurd hversion (by decide)
        · rw [secondRegistry, Registry.byId_registerWorkflow_of_ne _ hid] at hwf
          have hother : (gatedWorkflow 1 payStep).id ≠ workflowId := hid
          rw [firstRegistry, Registry.byId_registerWorkflow_of_ne _ hother] at hwf
          cases hwf
    | n + 2, hrequest => cases hrequest
  rw [hfirst] at hstep
  rcases step_of_gatedWorkflow hstep with hgate | rfl
  · rw [hrefund] at hgate
    exact absurd hgate (by decide)
  · exact absurd hrefund (by decide)

end Bass
