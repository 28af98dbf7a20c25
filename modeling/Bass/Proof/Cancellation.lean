import Bass.Proof.EngineInvariant
import Bass.Proof.StoreLemmas

/-!
# Terminal runs and cancellation

The engine looks at the stored status once, when it loads the run. A request that starts after the
run has become terminal therefore neither writes it nor acts for it; one that had loaded it before is
not stopped by anything. Both directions are made precise here: what holds of the requests that start
later, and what goes wrong for the one already in flight.
-/

namespace Bass

open Interaction EngineM

variable {d : Deployment} {redact : Json → Json}

/-! ### Specifications of a request -/

/-- No checkpoint. -/
def Op.NotCheckpoint (op : Op) : Prop := ∀ run events, op ≠ .checkpoint run events

/-- A call on behalf of the run `runId`: made by a driver holding that run, and a checkpoint only of
that run. -/
def Call.ForRun (runId : String) (call : Call) : Prop :=
  call.mem.run.id = runId ∧ ∀ run events, call.op = .checkpoint run events → run.id = runId

/-- Neither a checkpoint nor an execution of a tool. -/
def Call.Silent (call : Call) : Prop :=
  call.op.NotCheckpoint ∧ ∀ caller tool args, call.op ≠ .execute caller tool args

/-- What a request for the run `runId` owes at all times. -/
def ownSpec (d : Deployment) (redact : Json → Json) (runId : String) : Spec Call Call.Res DB :=
  { step := Call.step d.engine.policy redact
    rely := fun _ _ => True
    guar := fun _ call => call.ForRun runId }

/-- What a request owes that only cancels: it acts on nothing, and checkpoints nothing. -/
def quietSpec (d : Deployment) (redact : Json → Json) (runId : String) : Spec Call Call.Res DB :=
  { step := Call.step d.engine.policy redact
    rely := fun _ _ => True
    guar := fun _ call => call.ForRun runId ∧ call.Silent }

/-- What a request owes while others keep the stored run as `row`: silence. -/
def silentSpec (d : Deployment) (redact : Json → Json) (runId : String) (row : RunRow) :
    Spec Call Call.Res DB :=
  { step := Call.step d.engine.policy redact
    rely := fun _ db => db.runs.find? runId = some row
    guar := fun _ call => call.Silent }

theorem wp_program {S : Spec Call Call.Res DB} {request : Request} {db : DB}
    (h : Act.wp S (request.code d) (fun _ _ _ => True) (fun _ _ _ => True) request.memory db) :
    (request.program d).wp S (fun _ _ => True) db := by
  unfold Request.program
  rw [Prog.wp_bind]
  exact Prog.wp_mono (fun _ _ _ => trivial) _ h

theorem id_of_loadRun {db : DB} {tenantId runId : String} {run : Run}
    (h : db.loadRun tenantId runId = .ok (some run)) :
    run.id = runId ∧ ∃ row, db.runs.find? runId = some row ∧ run = row.toRun := by
  unfold DB.loadRun at h
  split at h
  · rename_i row hrow
    unfold DB.rowToRun at h
    split at h
    · cases h
      have hid : row.id = runId := Table.key_of_find? hrow
      exact ⟨hid, row, hrow, rfl⟩
    · cases h
  · cases h

/-- Loading the run: afterwards the driver holds what the store had. -/
theorem wp_hydrate {S : Spec Call Call.Res DB} {tenantId runId : String}
    {Q : Run → Mem → DB → Prop} {E : Exc → Mem → DB → Prop} {m : Mem} {db : DB}
    (hstep : S.step = Call.step d.engine.policy redact)
    (hguar : ∀ db₁, S.guar db₁ ⟨m, .loadRun tenantId runId⟩)
    (hQ : ∀ db₁ run, S.rely db db₁ → db₁.loadRun tenantId runId = .ok (some run) →
      Q run { m with run := run } db₁)
    (hE : ∀ db₁ e, S.rely db db₁ → E e m db₁) :
    Act.wp S (hydrate tenantId runId) Q E m db := by
  unfold hydrate perform modifyRun
  simp only [Act.wp_bind, Act.wp_perform]
  intro db₁ hrely
  refine ⟨hguar db₁, fun answer db' hs => ?_⟩
  rw [hstep] at hs
  obtain ⟨rfl, rfl⟩ := hs
  rw [Act.wp_ofExcept]
  split
  · rename_i value hload
    cases value with
    | none => exact hE db' _ hrely
    | some run => exact hQ db' run hrely hload
  · exact hE db' _ hrely

theorem not_conflicts_of_insertRun {db db' : DB} {run : Run} {now : ℕ → ℚ}
    (h : (db', true) = db.insertRun run now) : db.conflicts run = false := by
  unfold DB.insertRun at h
  split at h
  · assumption
  · cases h

/-- Creating the run: when it was created, the store had no row under its id. -/
theorem wp_createOrGetRun {S : Spec Call Call.Res DB} {run : Run}
    {Q : Run × Bool → Mem → DB → Prop} {E : Exc → Mem → DB → Prop} {m : Mem} {db : DB}
    (hstep : S.step = Call.step d.engine.policy redact)
    (hguar : ∀ db₁ op, op = .insertRun run ∨ op = .loadRunByKey run.tenantId run.idempotencyKey →
      S.guar db₁ ⟨m, op⟩)
    (hQ : ∀ db₁ db₂ out, S.rely db db₁ →
      (out.2 = true → db₁.runs.find? run.id = none ∧ out.1 = run) → Q out m db₂)
    (hE : ∀ e db₁, E e m db₁) :
    Act.wp S (createOrGetRun run) Q E m db := by
  refine (Act.wp_perform_bind _ _).mpr fun db₁ hrely => ⟨hguar db₁ _ (Or.inl rfl), ?_⟩
  intro inserted db₂ hs
  rw [hstep] at hs
  obtain ⟨now, hinsert⟩ := hs
  cases inserted with
  | true =>
      have hnone := DB.find?_of_not_conflicts (not_conflicts_of_insertRun hinsert)
      exact hQ db₁ db₂ (run, true) hrely fun _ => ⟨hnone, rfl⟩
  | false =>
      refine (Act.wp_perform_bind _ _).mpr fun db₃ _ => ⟨hguar db₃ _ (Or.inr rfl), ?_⟩
      intro answer db₄ _
      refine (Act.wp_ofExcept_bind _ _).mpr ?_
      split
      · rename_i existing _
        cases existing with
        | none => exact hE _ db₄
        | some run' => exact hQ db₁ db₄ (run', false) hrely fun h => nomatch h
      · exact hE _ db₄

/-! ### A request acts only for its own run -/

section Own

variable {runId : String}

theorem own_engineInv (cfg : EngineConfig) (wf : Workflow) :
    EngineInv cfg wf (ownSpec d redact runId) fun m _ => m.run.id = runId := by
  refine engineInv_of_calls (fun m m' _ h hJ => h.id.trans hJ) (fun _ _ hJ => hJ)
    (fun op hop => ?_) wf ?_
  · refine Act.keeps_perform fun m s hJ s₁ _ => ⟨⟨hJ, fun run events heq => ?_⟩, fun _ _ _ => hJ⟩
    exact absurd heq (hop.ne_checkpoint run events)
  · refine keeps_checkpoint_call fun m s hJ s₁ _ => ?_
    refine ⟨⟨hJ, fun run events heq => ?_⟩, fun _ _ _ => ⟨hJ, hJ⟩⟩
    cases heq
    exact hJ

theorem own_resume (cfg : EngineConfig) (wf : Workflow) {m : Mem} {db : DB} (h : m.run.id = runId) :
    Act.wp (ownSpec d redact runId) (WorkflowEngine.resume cfg wf)
      (fun _ m _ => m.run.id = runId) (fun _ m _ => m.run.id = runId) m db :=
  (own_engineInv cfg wf).resume m db h

theorem own_hydrate {tenantId : String} {m : Mem} {db : DB} (h : m.run.id = runId)
    {Q : Run → Mem → DB → Prop} (hQ : ∀ run m db, m.run.id = runId → Q run m db) :
    Act.wp (ownSpec d redact runId) (hydrate tenantId runId) Q (fun _ _ _ => True) m db :=
  wp_hydrate (show (ownSpec d redact runId).step = Call.step d.engine.policy redact from rfl)
    (fun _ => ⟨h, fun _ _ heq => nomatch heq⟩)
    (fun _ _ _ hload => hQ _ _ _ (id_of_loadRun hload).1) fun _ _ _ => trivial

theorem own_createOrGetRun {run : Run} {m : Mem} {db : DB} (h : m.run.id = runId)
    {Q : Run × Bool → Mem → DB → Prop} (hQ : ∀ out m db, m.run.id = runId → Q out m db) :
    Act.wp (ownSpec d redact runId) (createOrGetRun run) Q (fun _ _ _ => True) m db := by
  refine wp_createOrGetRun rfl (fun _ op hop => ⟨h, fun _ _ heq => ?_⟩)
    (fun _ _ _ _ _ => hQ _ _ _ h) fun _ _ => trivial
  obtain rfl : op = _ := heq
  rcases hop with hop | hop <;> cases hop

theorem own_safeResume (wf : Workflow) {m : Mem} {db : DB} (h : m.run.id = runId) :
    Act.wp (ownSpec d redact runId) (ApiService.safeResume d wf) (fun _ _ _ => True)
      (fun _ _ _ => True) m db := by
  refine (Act.wp_tryCatch _ _).mpr ((Act.wp_bind _ _).mpr ?_)
  refine Act.wp_mono _ (fun _ _ _ _ => trivial) (fun e m db hm => ?_) (own_resume _ wf h)
  split
  · refine (wp_getRun_bind _).mpr ((Act.wp_perform_bind _ _).mpr fun db₃ _ => ?_)
    refine ⟨⟨hm, fun _ _ heq => nomatch heq⟩, fun answer db₄ _ => ?_⟩
    refine (Act.wp_ofExcept_bind _ _).mpr ?_
    split <;> trivial
  · trivial

theorem own_resume_getRun (cfg : EngineConfig) (wf : Workflow) {m : Mem} {db : DB}
    (h : m.run.id = runId) :
    Act.wp (ownSpec d redact runId) (do WorkflowEngine.resume cfg wf; getRun)
      (fun _ _ _ => True) (fun _ _ _ => True) m db :=
  (Act.wp_bind _ _).mpr
    (Act.wp_mono _ (fun _ _ _ _ => trivial) (fun _ _ _ _ => trivial) (own_resume _ wf h))

/-- Whatever a driver of a run does, it does for that run. -/
theorem own_program {request : Request} (hdriver : request.isDriver = true)
    (hid : request.runId = runId) (db : DB) :
    (request.program d).wp (ownSpec d redact runId) (fun _ _ => True) db := by
  subst hid
  refine wp_program ?_
  cases request with
  | orchestratorFire tenantId runId wf trigger buffer =>
      refine (wp_modifyRun_bind _ _).mpr ((wp_getRun_bind _).mpr ?_)
      refine (Act.wp_bind _ _).mpr (own_createOrGetRun (by rfl) fun out m db hm => ?_)
      obtain ⟨run, created⟩ := out
      cases created with
      | false => trivial
      | true => exact (Act.wp_bind _ _).mpr (own_resume_getRun _ wf hm)
  | apiFire tenantId runId wfName trigger =>
      refine (Act.wp_ofExcept_bind _ _).mpr ?_
      split
      · rename_i wf _
        refine (Act.wp_perform_bind _ _).mpr fun db₁ _ => ⟨⟨rfl, fun _ _ heq => nomatch heq⟩, ?_⟩
        intro allowed db₂ _
        cases allowed with
        | false => trivial
        | true =>
            refine (Act.wp_perform_bind _ _).mpr fun db₃ _ => ⟨⟨rfl, fun _ _ heq => nomatch heq⟩, ?_⟩
            intro _ db₄ _
            refine (wp_modifyRun_bind _ _).mpr ((wp_getRun_bind _).mpr ?_)
            refine (Act.wp_bind _ _).mpr (own_createOrGetRun (by rfl) fun out m db hm => ?_)
            obtain ⟨run, created⟩ := out
            cases created with
            | false => trivial
            | true => exact (Act.wp_bind _ _).mpr (own_safeResume wf hm)
      · trivial
  | orchestratorResume tenantId runId wf buffer =>
      refine (Act.wp_bind _ _).mpr (own_hydrate rfl fun run m db hm => ?_)
      split
      · trivial
      · exact own_resume_getRun _ wf hm
  | runnerResume tenantId runId =>
      refine (Act.wp_bind _ _).mpr (own_hydrate rfl fun run m db hm => ?_)
      refine (Act.wp_ofExcept_bind _ _).mpr ?_
      split
      · exact own_resume_getRun _ _ hm
      · trivial
  | apiResolve tenantId runId approvalId approved decidedBy note =>
      refine (Act.wp_bind _ _).mpr (own_hydrate rfl fun run m db hm => ?_)
      refine (Act.wp_perform_bind _ _).mpr fun db₁ _ => ⟨⟨hm, fun _ _ heq => nomatch heq⟩, ?_⟩
      intro answer db₂ _
      refine (Act.wp_ofExcept_bind _ _).mpr ?_
      split
      · refine (Act.wp_ofExcept_bind _ _).mpr ?_
        split
        · exact own_safeResume _ hm
        · trivial
      · trivial
  | apiCancel tenantId runId => cases hdriver

end Own

/-! ### A request that finds its run terminal is silent -/

section Silent

variable {runId : String} {row : RunRow}

theorem silent_hydrate {tenantId target : String} {m : Mem} {db : DB}
    {Q : Run → Mem → DB → Prop}
    (hQ : ∀ run m db, (target = runId → run = row.toRun) → m.run = run → Q run m db) :
    Act.wp (silentSpec d redact runId row) (hydrate tenantId target) Q (fun _ _ _ => True) m db := by
  have hstep : (silentSpec d redact runId row).step = Call.step d.engine.policy redact := rfl
  refine wp_hydrate hstep
    (fun _ => ⟨(fun _ _ h => nomatch h), fun _ _ _ h => nomatch h⟩)
    (fun db₁ run hrow hload => hQ _ _ _ ?_ rfl) fun _ _ _ => trivial
  rintro rfl
  obtain ⟨-, row', hrow', rfl⟩ := id_of_loadRun hload
  rw [Option.some.inj (hrow'.symm.trans hrow)]

theorem silent_createOrGetRun {run : Run} (hid : run.id = runId) {m : Mem} {db : DB}
    {Q : Run × Bool → Mem → DB → Prop} (hQ : ∀ run m db, Q (run, false) m db) :
    Act.wp (silentSpec d redact runId row) (createOrGetRun run) Q (fun _ _ _ => True) m db := by
  refine wp_createOrGetRun rfl (fun _ op hop => ⟨fun _ _ heq => ?_, fun _ _ _ heq => ?_⟩)
    (fun db₁ db₂ out hrow hcreated => ?_) fun _ _ => trivial
  · obtain rfl : op = _ := heq
    rcases hop with hop | hop <;> cases hop
  · obtain rfl : op = _ := heq
    rcases hop with hop | hop <;> cases hop
  · obtain ⟨run', created⟩ := out
    cases created with
    | false => exact hQ run' m db₂
    | true =>
        have hnone := (hcreated rfl).1
        rw [hid] at hnone
        cases hnone.symm.trans hrow

/-- Cancelling writes nothing but the cancellation itself and acts on nothing. -/
theorem wp_cancel {S : Spec Call Call.Res DB} (hstep : S.step = Call.step d.engine.policy redact)
    (tenantId target : String)
    (hguar : ∀ db op, op = .cancelRun tenantId target ∨ op = .loadRun tenantId target →
      S.guar db ⟨Mem.request tenantId target [], op⟩) (db : DB) :
    ((Request.apiCancel tenantId target).program d).wp S (fun _ _ => True) db := by
  refine wp_program ((Act.wp_perform_bind _ _).mpr fun db₁ _ => ?_)
  refine ⟨hguar db₁ _ (Or.inl rfl), fun answer db₂ _ => ?_⟩
  refine (Act.wp_ofExcept_bind _ _).mpr ?_
  split
  · exact wp_hydrate hstep (fun db₃ => hguar db₃ _ (Or.inr rfl)) (fun _ _ _ _ => trivial)
      fun _ _ _ => trivial
  · trivial

theorem silent_of_cancel {tenantId target : String} {m : Mem} {op : Op}
    (h : op = .cancelRun tenantId target ∨ op = .loadRun tenantId target) :
    Call.Silent ⟨m, op⟩ := by
  rcases h with rfl | rfl
  · exact ⟨(fun _ _ h => nomatch h), fun _ _ _ h => nomatch h⟩
  · exact ⟨(fun _ _ h => nomatch h), fun _ _ _ h => nomatch h⟩

theorem quiet_cancel (tenantId target : String) (db : DB) :
    ((Request.apiCancel tenantId target).program d).wp (quietSpec d redact target)
      (fun _ _ => True) db := by
  refine wp_cancel rfl tenantId target (fun _ op h => ?_) db
  have hsilent := silent_of_cancel (m := Mem.request tenantId target []) h
  exact ⟨⟨rfl, fun run events heq => absurd heq (hsilent.1 run events)⟩, hsilent⟩

/-- A request for a run that others keep terminal is silent from start to end. -/
theorem silent_program (hterminal : row.status.terminal = true) {request : Request}
    (hid : request.runId = runId) (db : DB) :
    (request.program d).wp (silentSpec d redact runId row) (fun _ _ => True) db := by
  subst hid
  cases request with
  | orchestratorFire tenantId runId wf trigger buffer =>
      refine wp_program ((wp_modifyRun_bind _ _).mpr ((wp_getRun_bind _).mpr ?_))
      exact (Act.wp_bind _ _).mpr (silent_createOrGetRun (by rfl) fun _ _ _ => trivial)
  | apiFire tenantId runId wfName trigger =>
      refine wp_program ((Act.wp_ofExcept_bind _ _).mpr ?_)
      split
      · refine (Act.wp_perform_bind _ _).mpr fun db₁ _ =>
          ⟨⟨(fun _ _ h => nomatch h), fun _ _ _ h => nomatch h⟩, fun allowed db₂ _ => ?_⟩
        cases allowed with
        | false => trivial
        | true =>
            refine (Act.wp_perform_bind _ _).mpr fun db₃ _ =>
              ⟨⟨(fun _ _ h => nomatch h), fun _ _ _ h => nomatch h⟩, fun _ db₄ _ => ?_⟩
            refine (wp_modifyRun_bind _ _).mpr ((wp_getRun_bind _).mpr ?_)
            exact (Act.wp_bind _ _).mpr (silent_createOrGetRun (by rfl) fun _ _ _ => trivial)
      · trivial
  | orchestratorResume tenantId runId wf buffer =>
      refine wp_program ((Act.wp_bind _ _).mpr (silent_hydrate fun run m db hrun _ => ?_))
      rw [hrun rfl, if_pos (by exact hterminal)]
      trivial
  | runnerResume tenantId runId =>
      refine wp_program ((Act.wp_bind _ _).mpr (silent_hydrate fun run m db hrun hm => ?_))
      refine (Act.wp_ofExcept_bind _ _).mpr ?_
      split
      · refine (Act.wp_bind _ _).mpr (resume_of_terminal ?_ trivial)
        rw [hm, hrun rfl]
        exact hterminal
      · trivial
  | apiResolve tenantId runId approvalId approved decidedBy note =>
      refine wp_program ((Act.wp_bind _ _).mpr (silent_hydrate fun run m db hrun hm => ?_))
      refine (Act.wp_perform_bind _ _).mpr fun db₁ _ =>
        ⟨⟨(fun _ _ h => nomatch h), fun _ _ _ h => nomatch h⟩, fun answer db₂ _ => ?_⟩
      refine (Act.wp_ofExcept_bind _ _).mpr ?_
      split
      · refine (Act.wp_ofExcept_bind _ _).mpr ?_
        split
        · refine (Act.wp_tryCatch _ _).mpr ((Act.wp_bind _ _).mpr ?_)
          refine resume_of_terminal ?_ trivial
          rw [hm, hrun rfl]
          exact hterminal
        · trivial
      · trivial
  | apiCancel tenantId runId =>
      exact wp_cancel rfl tenantId runId (fun _ _ h => silent_of_cancel h) db

end Silent

/-! ### Interleavings

Before the run becomes terminal every request is held to `requestSpec`. Afterwards the requests for
the run that were in flight are exempt, and the others keep the row as it is. -/

section Interleavings

/-- What a request owes before anything is known of the run. -/
def requestSpec (d : Deployment) (redact : Json → Json) (request : Request) :
    Spec Call Call.Res DB :=
  if request.isDriver then ownSpec d redact request.runId else quietSpec d redact request.runId

theorem requestSpec_step (request : Request) :
    (requestSpec d redact request).step = Call.step d.engine.policy redact := by
  unfold requestSpec
  split <;> rfl

theorem requestSpec_rely (request : Request) (db db' : DB) :
    (requestSpec d redact request).rely db db' := by
  unfold requestSpec
  split <;> trivial

theorem forRun_of_requestSpec {request : Request} {db : DB} {call : Call}
    (h : (requestSpec d redact request).guar db call) : call.ForRun request.runId := by
  unfold requestSpec at h
  split at h
  · exact h
  · exact h.1

theorem requestSpec_program (request : Request) (db : DB) :
    (request.program d).wp (requestSpec d redact request) (fun _ _ => True) db := by
  unfold requestSpec
  split
  · rename_i hdriver
    exact own_program hdriver rfl db
  · cases request with
    | apiCancel tenantId runId => exact quiet_cancel tenantId runId db
    | _ => rename_i hdriver; exact absurd rfl hdriver

/-- In every reachable configuration every request in flight is held to its specification. -/
theorem requestSpec_good {db₀ : DB} {labels : List (Pool.Label Request Call Call.Res)}
    {c : System} (hrun : System.Run d redact ⟨[], db₀⟩ labels c) :
    Pool.Good (fun _ => True) (fun _ request => requestSpec d redact request) c := by
  have hd : Pool.Discipline (Call.step d.engine.policy redact) (Request.program d)
      (fun _ _ => False) (fun _ _ _ => True) (fun _ => True)
      fun _ request => requestSpec d redact request :=
    { allowed := fun _ request _ _ _ _ _ _ h => (requestSpec_step request).symm ▸ h
      refl := fun _ request _ _ => requestSpec_rely request _ _
      trans := fun _ request _ _ _ _ _ => requestSpec_rely request _ _
      call := fun _ _ _ _ _ _ _ _ _ _ => ⟨trivial, fun _ other => requestSpec_rely other _ _⟩
      env := fun _ _ _ h => h.elim
      start := fun _ request db _ => requestSpec_program request db }
  exact hrun.good hd (fun _ _ _ _ => trivial) (Pool.Good.empty trivial)

open Classical in
/-- What the request at position `i` owes once the run `runId` is terminal as `row`. -/
noncomputable def lateSpec (d : Deployment) (redact : Json → Json) (runId : String) (row : RunRow)
    (exempt : Nat → Prop) (i : Nat) (request : Request) : Spec Call Call.Res DB :=
  if exempt i then
    { step := Call.step d.engine.policy redact
      rely := fun _ _ => True
      guar := fun _ _ => True }
  else if request.runId = runId then silentSpec d redact runId row
  else requestSpec d redact request

variable {runId : String} {row : RunRow} {exempt : Nat → Prop}

theorem lateSpec_step (i : Nat) (request : Request) :
    (lateSpec d redact runId row exempt i request).step = Call.step d.engine.policy redact := by
  unfold lateSpec
  split
  · rfl
  · split
    · rfl
    · exact requestSpec_step request

theorem lateSpec_rely {db' : DB} (h : db'.runs.find? runId = some row) (i : Nat)
    (request : Request) (db : DB) :
    (lateSpec d redact runId row exempt i request).rely db db' := by
  unfold lateSpec
  split
  · trivial
  · split
    · exact h
    · exact requestSpec_rely request db db'

/-- A request that is not exempt is silent if it is for the run, and otherwise is for another. -/
theorem lateSpec_guar {i : Nat} {request : Request} {db : DB} {call : Call}
    (hexempt : ¬exempt i) (h : (lateSpec d redact runId row exempt i request).guar db call) :
    call.Silent ∨ ∃ other, other ≠ runId ∧ call.ForRun other := by
  unfold lateSpec at h
  rw [if_neg hexempt] at h
  split at h
  · exact Or.inl h
  · rename_i hne
    exact Or.inr ⟨request.runId, hne, forRun_of_requestSpec h⟩

/-- Once the run is terminal, a call by a request that is not exempt leaves its row alone. -/
theorem row_of_late_call (hterminal : row.status.terminal = true) {i : Nat} {request : Request}
    {db db' : DB} {call : Call} {answer : call.Res} (hrow : db.runs.find? runId = some row)
    (hguar : (lateSpec d redact runId row exempt i request).guar db call)
    (hok : exempt i → call.op.NotCheckpoint)
    (hstep : Call.step d.engine.policy redact db call answer db') :
    db'.runs.find? runId = some row := by
  rcases runRow_of_step hstep hrow with hsame | ⟨run, events, now, hop, hid, -, -⟩ |
      ⟨tenantId, now, -, hopen, -⟩
  · exact hsame
  · by_cases hexempt : exempt i
    · exact absurd hop (hok hexempt run events)
    · rcases lateSpec_guar hexempt hguar with hsilent | ⟨other, hne, hfor⟩
      · exact absurd hop (hsilent.1 run events)
      · exact absurd ((hfor.2 run events hop).symm.trans hid) hne
  · rw [hterminal] at hopen
    cases hopen

theorem lateSpec_discipline (hterminal : row.status.terminal = true) :
    Pool.Discipline (Call.step d.engine.policy redact) (Request.program d) (fun _ _ => False)
      (fun i call _ => exempt i → call.op.NotCheckpoint)
      (fun db => db.runs.find? runId = some row) (lateSpec d redact runId row exempt) where
  allowed := fun i request _ _ _ _ _ _ h => (lateSpec_step i request).symm ▸ h
  refl := fun i request db hrow => lateSpec_rely hrow i request db
  trans := by
    intro i request db₁ db₂ db₃ _ h
    unfold lateSpec at h ⊢
    split
    · trivial
    · rename_i hexempt
      rw [if_neg hexempt] at h
      split
      · rename_i hid
        rw [if_pos hid] at h
        exact h
      · exact requestSpec_rely request _ _
  call := by
    intro i request db call answer db' hrow hguar hok hstep
    have hrow' := row_of_late_call hterminal hrow hguar hok hstep
    exact ⟨hrow', fun j other => lateSpec_rely hrow' j other db⟩
  env := fun _ _ _ h => h.elim
  start := by
    intro i request db _
    unfold lateSpec
    split
    · exact Prog.wp_of_guar (fun _ _ => trivial) _ _
    · split
      · rename_i hid
        exact silent_program hterminal hid db
      · exact requestSpec_program request db

/-- A configuration in which the run has just become terminal. -/
theorem lateSpec_good {db₀ : DB} {labels : List (Pool.Label Request Call Call.Res)} {c : System}
    (hrun : System.Run d redact ⟨[], db₀⟩ labels c) (hrow : c.shared.runs.find? runId = some row)
    (hothers : ∀ (i : Nat) t, c.threads[i]? = some t → t.1.runId = runId → ¬exempt i →
      t.2.wp (silentSpec d redact runId row) (fun _ _ => True) c.shared) :
    Pool.Good (fun db => db.runs.find? runId = some row) (lateSpec d redact runId row exempt) c where
  inv := hrow
  threads := by
    intro i t ht
    unfold lateSpec
    split
    · exact Prog.wp_of_guar (fun _ _ => trivial) _ _
    · rename_i hexempt
      split
      · rename_i hid
        exact hothers i t ht hid hexempt
      · exact (requestSpec_good hrun).threads i t ht

/-! ### The stored outcome of a terminal run -/

abbrev playPayments (moves : List (Pool.Move Request)) (c : System) :
    List (Pool.Label Request Call Call.Res) × System :=
  System.play payDeployment id (.constant (.str "paid")) moves c

/-- The run is canceled before anyone drives it. -/
def canceledEarly : List (Pool.Label Request Call Call.Res) × System :=
  playPayments [.spawn (.apiCancel "acme" "run"), .call 0] ⟨[], DB.withRun "run" "payments"⟩

/-- The run is canceled while a driver that has loaded it is on its way to the payment. -/
def canceledInFlight : List (Pool.Label Request Call Call.Res) × System :=
  playPayments [.spawn (.runnerResume "acme" "run"), .call 0, .spawn (.apiCancel "acme" "run"),
    .call 1] ⟨[], DB.withRun "run" "payments"⟩

/-- A call of a thread that came after the first `n`. -/
def ofLater (n : ℕ) : Pool.Label Request Call Call.Res → Bool
  | .call i _ _ => n ≤ i
  | _ => true

theorem later_canceledEarly {i : ℕ} {call : Call} {answer : call.Res}
    (hmem : .call i call answer ∈ (playPayments [.spawn (.runnerResume "acme" "run"), .call 1] canceledEarly.2).1)
    {t : Request × Prog Call Call.Res Unit} (ht : canceledEarly.2.threads[i]? = some t) : False := by
  have hlater : (playPayments [.spawn (.runnerResume "acme" "run"), .call 1]
      canceledEarly.2).1.all (ofLater canceledEarly.2.threads.length) = true := by decide +kernel
  have hle : canceledEarly.2.threads.length ≤ i := of_decide_eq_true (List.all_eq_true.mp hlater _ hmem)
  cases (List.getElem?_eq_none hle).symm.trans ht

/-- The stored outcome changes only through a driver that was already in flight when the run became
terminal: if none of these checkpoints again, nothing else changes it. -/
theorem terminal_row_stable {db₀ : DB} {before after : List (Pool.Label Request Call Call.Res)}
    {c c' : System} {runId : String} {row : RunRow}
    (hbefore : System.Run d redact ⟨[], db₀⟩ before c) (hafter : System.Run d redact c after c')
    (hrow : c.shared.runs.find? runId = some row) (hterminal : row.status.terminal = true)
    (hlate : ∀ i call answer, .call i call answer ∈ after → ∀ t, c.threads[i]? = some t →
      t.1.runId = runId → call.op.NotCheckpoint) :
    c'.shared.runs.find? runId = some row := by
  let exempt : Nat → Prop := fun i => ∃ t, c.threads[i]? = some t ∧ t.1.runId = runId
  have hgood : Pool.Good (fun db => db.runs.find? runId = some row)
      (lateSpec d redact runId row exempt) c :=
    lateSpec_good hbefore hrow fun i t ht hid hexempt => absurd ⟨t, ht, hid⟩ hexempt
  have hok : ∀ i call answer, Pool.Label.call i call answer ∈ after →
      exempt i → call.op.NotCheckpoint := by
    rintro i call answer hmem ⟨t, ht, hid⟩
    exact hlate i call answer hmem t ht hid
  exact (hafter.good (lateSpec_discipline hterminal) hok hgood).inv

theorem terminal_row_stable_canceledEarly :
    (playPayments [.spawn (.runnerResume "acme" "run"), .call 1] canceledEarly.2).2.shared.runs.find?
      "run" = canceledEarly.2.shared.runs.find? "run" := by
  obtain ⟨row, hrow⟩ : ∃ row, canceledEarly.2.shared.runs.find? "run" = some row :=
    Option.isSome_iff_exists.mp (by decide +kernel)
  have hstatus : (canceledEarly.2.shared.runs.find? "run").map (·.status) = some .canceled := by
    decide +kernel
  rw [hrow]
  refine terminal_row_stable (System.play_run _ _ _ _ _) (System.play_run _ _ _ _ _) hrow ?_ ?_
  · rw [hrow, Option.map_some, Option.some.injEq] at hstatus
    rw [hstatus]
    rfl
  · intro i call answer hmem t ht
    exact (later_canceledEarly hmem ht).elim

/-- A driver that had loaded the run carries on to its last checkpoint, which replaces the
cancellation by a success. -/
theorem terminal_row_overwritten_canceledInFlight :
    ∃ (before after : List (Pool.Label Request Call Call.Res)) (c c' : System) (row row' : RunRow),
      System.Run payDeployment id ⟨[], DB.withRun "run" "payments"⟩ before c ∧
        System.Run payDeployment id c after c' ∧
        c.shared.runs.find? "run" = some row ∧ row.status = .canceled ∧
        c'.shared.runs.find? "run" = some row' ∧ row'.status = .succeeded := by
  let rest := playPayments (List.replicate 6 (.call 0)) canceledInFlight.2
  have hbefore : (canceledInFlight.2.shared.runs.find? "run").map (·.status) = some .canceled := by
    decide +kernel
  have hafter : (rest.2.shared.runs.find? "run").map (·.status) = some .succeeded := by
    decide +kernel
  obtain ⟨row, hrow, hstatus⟩ := Option.map_eq_some_iff.mp hbefore
  obtain ⟨row', hrow', hstatus'⟩ := Option.map_eq_some_iff.mp hafter
  exact ⟨_, _, _, _, row, row', System.play_run _ _ _ _ _, System.play_run _ _ _ _ _, hrow, hstatus,
    hrow', hstatus'⟩

/-! ### A canceled run -/

theorem canceled_of_cancelRun {db db' : DB} {m : Mem} {tenantId : String}
    (h : Call.step d.engine.policy redact db ⟨m, .cancelRun tenantId runId⟩ (.ok true) db') :
    ∃ row, db'.runs.find? runId = some row ∧ row.status = .canceled := by
  obtain ⟨now, hcommits⟩ := h
  rcases hcommits.cases with ⟨canceled, htx, hanswer⟩ | ⟨e, -, hanswer, -⟩
  · cases hanswer
    rcases DB.cancelRun_ok htx with ⟨hfalse, -⟩ | ⟨-, ⟨row, hrow, htenant, -⟩, hruns, -⟩
    · cases hfalse
    · have hid : row.id = runId := Table.key_of_find? hrow
      refine ⟨{ row with status := .canceled, updatedAt := now 0 }, ?_, rfl⟩
      rw [hruns, Table.find?_update, hrow, Option.map_some]
      simp [hid, htenant]
  · cases hanswer

/-- A request that only cancels is silent wherever it has got to. -/
theorem silent_of_quiet {p : Driver Unit} {db : DB}
    (h : p.wp (quietSpec d redact runId) (fun _ _ => True) db) :
    p.wp (silentSpec d redact runId row) (fun _ _ => True) db := by
  refine Prog.wp_weaken ?_ ?_ ?_ p h
  · exact fun _ _ _ => trivial
  · exact fun _ _ hguar => hguar.2
  · exact fun _ _ _ _ hstep => hstep

/-- After a successful cancellation no tool is executed for the run, provided that the drivers of
the run that take a further step had not begun when it was canceled. -/
theorem canceled_run_posts_nothing {db₀ : DB}
    {before after : List (Pool.Label Request Call Call.Res)} {c c' : System} {k : Nat}
    {m : Mem} {tenantId runId : String}
    (hbefore : System.Run d redact ⟨[], db₀⟩
      (before ++ [.call k ⟨m, .cancelRun tenantId runId⟩ (.ok true)]) c)
    (hafter : System.Run d redact c after c')
    (hlate : ∀ i call answer, .call i call answer ∈ after → ∀ t, c.threads[i]? = some t →
      t.1.runId = runId → t.1.isDriver = true → t.2 = t.1.program d) :
    ¬System.Executes after runId := by
  obtain ⟨row, hrow, hcanceled⟩ :
      ∃ row, c.shared.runs.find? runId = some row ∧ row.status = .canceled := by
    obtain ⟨c₀, -, hlast⟩ := hbefore.split
    cases hlast with
    | cons head tail =>
        cases tail
        cases head with
        | call hthread hstep => exact canceled_of_cancelRun hstep
  have hterminal : row.status.terminal = true := by rw [hcanceled]; rfl
  -- Exempt are the drivers caught in the middle; `hlate` says that they are never heard of again.
  let exempt : Nat → Prop := fun i => ∃ t, c.threads[i]? = some t ∧ t.1.runId = runId ∧
    t.1.isDriver = true ∧ t.2 ≠ t.1.program d
  have hnot : ∀ i call answer, Pool.Label.call i call answer ∈ after → ¬exempt i := by
    rintro i call answer hcall ⟨t, ht, hid, hdriver, hbegun⟩
    exact hbegun (hlate i call answer hcall t ht hid hdriver)
  have hgood : Pool.Good (fun db => db.runs.find? runId = some row)
      (lateSpec d redact runId row exempt) c := by
    refine lateSpec_good hbefore hrow fun i t ht hid hexempt => ?_
    by_cases hdriver : t.1.isDriver = true
    · have hnew : t.2 = t.1.program d := by
        by_contra hbegun
        exact hexempt ⟨t, ht, hid, hdriver, hbegun⟩
      rw [hnew]
      exact silent_program hterminal hid c.shared
    · have hquiet := (requestSpec_good hbefore).threads i t ht
      rw [requestSpec, if_neg hdriver, hid] at hquiet
      exact silent_of_quiet hquiet
  rintro ⟨i, m', caller, tool, args, answer, hmem, hid⟩
  obtain ⟨request, db, -, hguar⟩ := hafter.guaranteed (lateSpec_discipline hterminal)
    (fun i call answer hcall hexempt => absurd hexempt (hnot i call answer hcall)) hgood hmem
  rcases lateSpec_guar (hnot i _ _ hmem) hguar with hsilent | ⟨other, hne, hfor⟩
  · exact absurd rfl (hsilent.2 caller tool args)
  · exact hne (hfor.1.symm.trans hid)

theorem canceled_run_posts_nothing_canceledEarly :
    ¬System.Executes (playPayments [.spawn (.runnerResume "acme" "run"), .call 1]
      canceledEarly.2).1 "run" := by
  have hlabels : canceledEarly.1 = [.spawn (.apiCancel "acme" "run")] ++
      [.call 0 ⟨Mem.request "acme" "run" [], .cancelRun "acme" "run"⟩ (.ok true)] := rfl
  have hbefore : System.Run payDeployment id ⟨[], DB.withRun "run" "payments"⟩ canceledEarly.1
      canceledEarly.2 := System.play_run _ _ _ _ _
  rw [hlabels] at hbefore
  refine canceled_run_posts_nothing hbefore (System.play_run _ _ _ _ _) ?_
  intro i call answer hmem t ht
  exact (later_canceledEarly hmem ht).elim

/-- A driver that had loaded the run pays, with a mutating tool, after `cancel_run` has answered
`True`. -/
theorem canceled_run_posts_canceledInFlight :
    payDeployment.engine.tools.get "pay" = .ok payTool ∧ payTool.sideEffect = true ∧
      ∃ (before after : List (Pool.Label Request Call Call.Res)) (c c' : System) (m m' : Mem)
        (args : Args),
        System.Run payDeployment id ⟨[], DB.withRun "run" "payments"⟩
          (before ++ [.call 1 ⟨m, .cancelRun "acme" "run"⟩ (.ok true)]) c ∧
        System.Run payDeployment id c after c' ∧
        .call 0 ⟨m', .execute (.step "pay") "pay" args⟩ (.ok (.str "paid")) ∈ after ∧
        m'.run.id = "run" := by
  refine ⟨rfl, rfl, ?_⟩
  let rest := playPayments (List.replicate 4 (.call 0)) canceledInFlight.2
  have hbefore : System.Run payDeployment id ⟨[], DB.withRun "run" "payments"⟩ canceledInFlight.1
      canceledInFlight.2 := System.play_run _ _ _ _ _
  have hlabels : canceledInFlight.1 = canceledInFlight.1.take 3 ++
      [.call 1 ⟨Mem.request "acme" "run" [], .cancelRun "acme" "run"⟩ (.ok true)] := rfl
  rw [hlabels] at hbefore
  have hpaid : ∃ m args, rest.1[3]? =
      some (.call 0 ⟨m, .execute (.step "pay") "pay" args⟩ (.ok (.str "paid"))) ∧
        m.run.id = "run" := ⟨_, _, rfl, rfl⟩
  obtain ⟨m, args, hlabel, hid⟩ := hpaid
  exact ⟨_, rest.1, _, rest.2, _, m, args, hbefore, System.play_run _ _ _ _ _,
    List.mem_of_getElem? hlabel, hid⟩

end Interleavings

end Bass
