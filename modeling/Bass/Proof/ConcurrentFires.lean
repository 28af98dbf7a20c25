import Bass.Interaction.Trace
import Bass.Proof.Cancellation
import Bass.Proof.Deduplication
import Bass.Proof.RequestInvariant
import Bass.Proof.StepCalls

/-!
# Fires of one key at the same time

Between the insertion of a run and the lookup of the one that was there already, other fires may do
anything. The uniqueness of the key lets one insertion through; identities are never changed and rows
never removed, so what the lookup finds later is that run.
-/

namespace Bass

open Interaction EngineM

variable {d : Deployment} {redact : Json → Json}

/-! ### Identities along an interleaving -/

section Store

variable {policy : PolicyEngine} {db db' : DB} {op : Op} {answer : op.Res}

/-- A stored identity was there before, or belongs to the run that the call inserted. -/
theorem created_of_step (h : op.step policy redact db answer db') {ident : RunIdent}
    (hmem : ident ∈ db'.idents) :
    ident ∈ db.idents ∨
      ∃ run, (⟨op, answer⟩ : (op : Op) × op.Res) = ⟨.insertRun run, true⟩ ∧ run.ident = ident := by
  by_cases hop : ∃ run, op = .insertRun run
  · obtain ⟨run, rfl⟩ := hop
    obtain ⟨now, hinsert⟩ := h
    rcases idents_of_insertRun hinsert with ⟨rfl, hidents, -⟩ | ⟨rfl, rfl⟩
    · rw [hidents, List.mem_append, List.mem_singleton] at hmem
      exact hmem.imp id fun heq => ⟨run, rfl, heq.symm⟩
    · exact Or.inl hmem
  · rw [idents_of_step h fun run heq => hop ⟨run, heq⟩] at hmem
    exact Or.inl hmem

theorem idents_subset_of_step (h : op.step policy redact db answer db') : db.idents ⊆ db'.idents := by
  intro ident hmem
  by_cases hop : ∃ run, op = .insertRun run
  · obtain ⟨run, rfl⟩ := hop
    obtain ⟨now, hinsert⟩ := h
    rcases idents_of_insertRun hinsert with ⟨-, hidents, -⟩ | ⟨-, rfl⟩
    · rw [hidents]
      exact List.mem_append_left _ hmem
    · exact hmem
  · rwa [idents_of_step h fun run heq => hop ⟨run, heq⟩]

end Store

/-- What an answer says about the runs that are stored from then on. -/
def Confirmed (db : DB) : (call : Call) → call.Res → Prop
  | ⟨_, .insertRun run⟩, true => run.ident ∈ db.idents
  | ⟨_, .insertRun run⟩, false =>
      ∃ ident ∈ db.idents, ident.id = run.id ∨ ident.triggerKey = run.ident.triggerKey
  | ⟨_, .loadRun _ runId⟩, .ok (some run) => run.ident ∈ db.idents ∧ run.id = runId
  | ⟨_, .loadRunByKey tenantId key⟩, .ok (some run) =>
      run.ident ∈ db.idents ∧ run.ident.triggerKey = (tenantId, key)
  | _, _ => True

theorem Confirmed.mono {db db' : DB} {call : Call} {answer : call.Res} (h : Confirmed db call answer)
    (hsub : db.idents ⊆ db'.idents) : Confirmed db' call answer := by
  obtain ⟨m, op⟩ := call
  cases op with
  | insertRun run =>
      cases answer with
      | true => exact hsub h
      | false =>
          obtain ⟨ident, hmem, hsame⟩ := h
          exact ⟨ident, hsub hmem, hsame⟩
  | loadRun tenantId runId =>
      rcases answer with e | _ | run
      · trivial
      · trivial
      · exact ⟨hsub h.1, h.2⟩
  | loadRunByKey tenantId key =>
      rcases answer with e | _ | run
      · trivial
      · trivial
      · exact ⟨hsub h.1, h.2⟩
  | _ => trivial

theorem confirmed_of_step {policy : PolicyEngine} {db db' : DB} {call : Call} {answer : call.Res}
    (h : call.step policy redact db answer db') : Confirmed db' call answer := by
  obtain ⟨m, op⟩ := call
  cases op with
  | insertRun run =>
      obtain ⟨now, hinsert⟩ := h
      cases answer with
      | true =>
          rcases idents_of_insertRun hinsert with ⟨-, hidents, -⟩ | ⟨hfalse, -⟩
          · change run.ident ∈ db'.idents
            rw [hidents]
            exact List.mem_append_right _ (List.mem_singleton_self _)
          · cases hfalse
      | false =>
          have hconflict : db.conflicts run = true := by
            unfold DB.insertRun at hinsert
            split at hinsert
            · cases hinsert
            · rename_i hconflict
              simpa using hconflict
          obtain ⟨row, hrow, hsame⟩ := List.any_eq_true.mp hconflict
          rcases idents_of_insertRun hinsert with ⟨htrue, -, -⟩ | ⟨-, rfl⟩
          · cases htrue
          · exact ⟨row.ident, List.mem_map_of_mem hrow, of_decide_eq_true hsame⟩
  | loadRun tenantId runId =>
      obtain ⟨hanswer, rfl⟩ := h
      rcases answer with e | _ | run
      · trivial
      · trivial
      · obtain ⟨hid, row, hrow, rfl⟩ := id_of_loadRun hanswer.symm
        exact ⟨List.mem_map_of_mem (Table.mem_of_find? hrow), hid⟩
  | loadRunByKey tenantId key =>
      obtain ⟨hanswer, rfl⟩ := h
      rcases answer with e | _ | run
      · trivial
      · trivial
      · exact ident_of_loadRunByKey hanswer.symm
  | _ => trivial

section Interleaving

/-- Every call is served by the store, whatever policy engine the driver asks. -/
def Serves (redact : Json → Json) (step : DB → (call : Call) → call.Res → DB → Prop) : Prop :=
  ∀ db call answer db', step db call answer db' → ∃ policy, call.step policy redact db answer db'

theorem serves_step {policy : PolicyEngine} : Serves redact (Call.step policy redact) :=
  fun _ _ _ _ h => ⟨policy, h⟩

variable {Tag : Type} {step : DB → (call : Call) → call.Res → DB → Prop} {start : Tag → Driver Unit}
  {c c' : Pool Tag Call Call.Res DB} {labels : List (Pool.Label Tag Call Call.Res)}

theorem idents_subset_of_run (hstep : Serves redact step)
    (hrun : Pool.Run step start (fun _ _ => False) c labels c') : c.shared.idents ⊆ c'.shared.idents := by
  apply hrun.shared (P := fun db db' => db.idents ⊆ db'.idents)
  · exact fun _ => List.Subset.refl _
  · exact fun _ _ _ => List.Subset.trans
  · intro db call answer db' h
    obtain ⟨policy, hcall⟩ := hstep db call answer db' h
    exact idents_subset_of_step hcall
  · exact fun _ _ => False.elim

/-- What was answered along a run is still so at its end. -/
theorem confirmed_of_run (hstep : Serves redact step)
    (hrun : Pool.Run step start (fun _ _ => False) c labels c') {i : Nat} {call : Call}
    {answer : call.Res} (hmem : .call i call answer ∈ labels) : Confirmed c'.shared call answer := by
  induction hrun with
  | nil c => exact absurd hmem List.not_mem_nil
  | cons head tail ih =>
      rcases List.mem_cons.mp hmem with rfl | hrest
      · cases head with
        | call hthread hcall =>
            obtain ⟨policy, hcall⟩ := hstep _ _ _ _ hcall
            exact (confirmed_of_step hcall).mono (idents_subset_of_run hstep tail)
      · exact ih hrest

/-- Every run that is stored in the end was there at the start or was inserted on the way. -/
theorem created_of_run (hstep : Serves redact step)
    (hrun : Pool.Run step start (fun _ _ => False) c labels c') {ident : RunIdent}
    (hmem : ident ∈ c'.shared.idents) :
    ident ∈ c.shared.idents ∨
      ∃ i m run, .call i ⟨m, .insertRun run⟩ true ∈ labels ∧ run.ident = ident := by
  induction hrun with
  | nil c => exact Or.inl hmem
  | cons head tail ih =>
      rcases ih hmem with hbefore | ⟨i, m, run, hlabel, hident⟩
      · cases head with
        | @call threads s s' i tag call next answer hthread hcall =>
            obtain ⟨m, op⟩ := call
            obtain ⟨policy, hcall⟩ := hstep _ _ _ _ hcall
            rcases created_of_step hcall hbefore with hold | ⟨run, heq, hident⟩
            · exact Or.inl hold
            · cases heq
              exact Or.inr ⟨i, m, run, List.mem_cons_self, hident⟩
        | spawn | crash => exact Or.inl hbefore
        | env henv => exact False.elim henv
      · exact Or.inr ⟨i, m, run, List.mem_cons_of_mem _ hlabel, hident⟩

/-- Once a run with a key is stored, no other is inserted under that key. -/
theorem not_inserted_of_stored (hstep : Serves redact step)
    (hrun : Pool.Run step start (fun _ _ => False) c labels c') {ident : RunIdent}
    (hmem : ident ∈ c.shared.idents) {i : Nat} {m : Mem} {run : Run}
    (hlabel : .call i ⟨m, .insertRun run⟩ true ∈ labels) : run.ident.triggerKey ≠ ident.triggerKey := by
  induction hrun with
  | nil c => exact absurd hlabel List.not_mem_nil
  | cons head tail ih =>
      rcases List.mem_cons.mp hlabel with rfl | hrest
      · cases head with
        | call hthread hcall =>
            obtain ⟨policy, now, hinsert⟩ := hstep _ _ _ _ hcall
            rcases idents_of_insertRun hinsert with ⟨-, -, hfree⟩ | ⟨hfalse, -⟩
            · exact (hfree ident hmem).symm
            · cases hfalse
      · exact ih (idents_subset_of_run hstep (.single head) hmem) hrest

/-- At most one insertion under a key succeeds. -/
theorem inserted_unique (hstep : Serves redact step)
    (hrun : Pool.Run step start (fun _ _ => False) c labels c') {i j : Nat} {m m' : Mem} {run run' : Run}
    (hi : .call i ⟨m, .insertRun run⟩ true ∈ labels) (hj : .call j ⟨m', .insertRun run'⟩ true ∈ labels)
    (hkey : run.ident.triggerKey = run'.ident.triggerKey) : i = j ∧ run = run' := by
  induction hrun with
  | nil c => exact absurd hi List.not_mem_nil
  | @cons c c₁ c' label labels head tail ih =>
      have hstored : ∀ (k : Nat) (m : Mem) (run : Run), label = .call k ⟨m, .insertRun run⟩ true →
          run.ident ∈ c₁.shared.idents := by
        rintro k m run rfl
        exact confirmed_of_run hstep (.single head) (List.mem_singleton_self _)
      rcases List.mem_cons.mp hi with hi | hi <;> rcases List.mem_cons.mp hj with hj | hj
      · cases hi.trans hj.symm
        exact ⟨rfl, rfl⟩
      · exact absurd hkey.symm (not_inserted_of_stored hstep tail (hstored _ _ _ hi.symm) hj)
      · exact absurd hkey (not_inserted_of_stored hstep tail (hstored _ _ _ hj.symm) hi)
      · exact ih hi hj

end Interleaving

/-! ### What a fire does -/

/-- The calls before a fire knows whether it has created its run, and the lookup when it has not. -/
def Op.LooksUp : Op → Prop
  | .allowRequest _ | .ensureTenant .. | .insertRun _ | .loadRunByKey .. => True
  | _ => False

/-- What a fire does with the run it has created. -/
def Request.driving (d : Deployment) : Request → EngineM Run
  | .orchestratorFire _ _ wf trigger _ => do
      emit "trigger_fired" (triggerFired wf trigger)
      WorkflowEngine.resume d.engine wf
      getRun
  | .apiFire _ _ wfName trigger => do
      let wf ← Act.ofExcept (item wfName (d.workflowsByName.get? wfName))
      emit "trigger_fired" (triggerFired wf trigger)
      ApiService.safeResume d wf
  | request => request.code d

/-- What a fire does from its insertion on. -/
def Request.creating (d : Deployment) (request : Request) (wanted : Run) (m : Mem) :
    Driver (Except Exc Run × Mem) :=
  .call ⟨m, .insertRun wanted⟩ fun inserted =>
    if inserted then (request.driving d).exec m
    else .call ⟨m, .loadRunByKey wanted.tenantId wanted.idempotencyKey⟩ fun answer =>
      match answer with
      | .ok (some existing) => .pure (.ok existing, m)
      | .ok none => .pure (.error (.assertionError ""), m)
      | .error e => .pure (.error e, m)

theorem exec_createOrGetRun {α : Type} (run : Run) (f : Run × Bool → EngineM α) (m : Mem) :
    (createOrGetRun run >>= f).exec m =
      .call ⟨m, .insertRun run⟩ fun inserted =>
        if inserted then (f (run, true)).exec m
        else .call ⟨m, .loadRunByKey run.tenantId run.idempotencyKey⟩ fun answer =>
          match answer with
          | .ok (some existing) => (f (existing, false)).exec m
          | .ok none => .pure (.error (.assertionError ""), m)
          | .error e => .pure (.error e, m) := by
  rw [Act.exec_bind]
  unfold createOrGetRun
  rw [Act.exec_perform_bind, Prog.call_bind]
  congr 1
  funext inserted
  cases inserted with
  | true => rfl
  | false =>
      rw [if_neg (by simp), if_neg (by simp), Act.exec_perform_bind, Prog.call_bind]
      congr 1
      funext answer
      rcases answer with e | _ | existing <;> rfl

theorem exec_orchestratorFire (d : Deployment) (tenantId runId : String) (wf : Workflow)
    (trigger : Trigger) (buffer : List Event) :
    ((Request.orchestratorFire tenantId runId wf trigger buffer).code d).exec
        (Request.orchestratorFire tenantId runId wf trigger buffer).memory =
      (Request.orchestratorFire tenantId runId wf trigger buffer).creating d
        (Run.ofTrigger d.builtins tenantId runId wf trigger)
        ⟨Run.ofTrigger d.builtins tenantId runId wf trigger, buffer⟩ := by
  change (createOrGetRun (Run.ofTrigger d.builtins tenantId runId wf trigger) >>= _).exec
    ⟨Run.ofTrigger d.builtins tenantId runId wf trigger, buffer⟩ = _
  rw [exec_createOrGetRun, Request.creating]
  rfl

theorem exec_apiFire (d : Deployment) {tenantId runId wfName : String} {wf : Workflow} (trigger : Trigger)
    (hwf : d.workflowsByName.get? wfName = some wf) :
    ((Request.apiFire tenantId runId wfName trigger).code d).exec
        (Request.apiFire tenantId runId wfName trigger).memory =
      .call ⟨Mem.request tenantId runId [], .allowRequest tenantId⟩ fun allowed =>
        if allowed then
          .call ⟨Mem.request tenantId runId [], .ensureTenant tenantId tenantId (.obj [])⟩ fun _ =>
            (Request.apiFire tenantId runId wfName trigger).creating d
              (Run.ofTrigger d.builtins tenantId runId wf trigger)
              ⟨Run.ofTrigger d.builtins tenantId runId wf trigger, []⟩
        else .pure (.error (.bass .rateLimited tenantId), Mem.request tenantId runId []) := by
  change (ApiService.fire d tenantId runId wfName trigger).exec (Mem.request tenantId runId []) = _
  unfold ApiService.fire
  rw [Act.exec_ofExcept_bind, hwf]
  change (perform (.allowRequest tenantId) >>= _).exec _ = _
  rw [Act.exec_perform_bind]
  congr 1
  funext allowed
  cases allowed with
  | false => rfl
  | true =>
      rw [if_pos rfl, if_pos rfl, Act.exec_perform_bind]
      congr 1
      funext _
      change (createOrGetRun (Run.ofTrigger d.builtins tenantId runId wf trigger) >>= _).exec
        ⟨Run.ofTrigger d.builtins tenantId runId wf trigger, []⟩ = _
      rw [exec_createOrGetRun, Request.creating]
      congr 1
      funext inserted
      cases inserted with
      | true =>
          rw [if_pos rfl, if_pos rfl, Request.driving, hwf]
          rfl
      | false => rfl

/-- The calls of a fire that has not created its run. -/
structure Unstarted (wanted : Run) (trace : Trail) : Prop where
  looksUp : ∀ event ∈ trace, event.1.op.LooksUp
  inserts : ∀ m run answer, ⟨⟨m, .insertRun run⟩, answer⟩ ∈ trace → run = wanted ∧ answer = false

/-- The calls of a fire that has created its run and goes on to drive it. -/
def DrivesCreated (d : Deployment) (request : Request) (wanted : Run) (trace : Trail) : Prop :=
  ∃ m before after, trace = before ++ ⟨⟨m, .insertRun wanted⟩, true⟩ :: after ∧ m.run = wanted ∧
    Unstarted wanted before ∧ ((request.driving d).exec m).Path (fun _ _ => True) after

theorem Unstarted.nil (wanted : Run) : Unstarted wanted [] :=
  ⟨fun _ hmem => absurd hmem List.not_mem_nil, fun _ _ _ hmem => absurd hmem List.not_mem_nil⟩

/-- A call that comes before the insertion, or after one that failed. -/
def Op.Around (op : Op) : Prop := op.LooksUp ∧ ∀ run, op ≠ .insertRun run

theorem around_allowRequest (tenantId : String) : (Op.allowRequest tenantId).Around :=
  ⟨trivial, fun _ heq => nomatch heq⟩

theorem around_ensureTenant (tenantId name : String) (settings : Json) :
    (Op.ensureTenant tenantId name settings).Around :=
  ⟨trivial, fun _ heq => nomatch heq⟩

theorem around_loadRunByKey (tenantId key : String) : (Op.loadRunByKey tenantId key).Around :=
  ⟨trivial, fun _ heq => nomatch heq⟩

theorem Unstarted.cons {wanted : Run} {call : Call} {answer : call.Res} {trace : Trail}
    (hop : call.op.Around) (h : Unstarted wanted trace) : Unstarted wanted (⟨call, answer⟩ :: trace) where
  looksUp := List.forall_mem_cons.mpr ⟨hop.1, h.looksUp⟩
  inserts := by
    intro m run inserted hmem
    rcases List.mem_cons.mp hmem with heq | hrest
    · cases heq
      exact absurd rfl (hop.2 run)
    · exact h.inserts m run inserted hrest

theorem DrivesCreated.cons {request : Request} {wanted : Run} {call : Call} {answer : call.Res}
    {trace : Trail} (hop : call.op.Around) (h : DrivesCreated d request wanted trace) :
    DrivesCreated d request wanted (⟨call, answer⟩ :: trace) := by
  obtain ⟨m, before, after, rfl, hm, hbefore, hafter⟩ := h
  exact ⟨m, ⟨call, answer⟩ :: before, after, rfl, hm, hbefore.cons hop, hafter⟩

theorem creating_path {ok : (call : Call) → call.Res → Prop} {request : Request} {wanted : Run} {m : Mem}
    {trace : Trail} (hm : m.run = wanted) (hpath : (request.creating d wanted m).Path ok trace) :
    Unstarted wanted trace ∨ DrivesCreated d request wanted trace := by
  cases hpath with
  | nil => exact Or.inl (.nil wanted)
  | @cons op next inserted trace head tail =>
      cases inserted with
      | true =>
          exact Or.inr ⟨m, [], trace, rfl, hm, .nil wanted, tail.mono fun _ _ => trivial⟩
      | false =>
          have hinserts : ∀ rest : Trail, Unstarted wanted rest →
              Unstarted wanted (⟨⟨m, .insertRun wanted⟩, false⟩ :: rest) := by
            intro rest hrest
            refine ⟨List.forall_mem_cons.mpr ⟨trivial, hrest.looksUp⟩, fun m' run answer hmem => ?_⟩
            rcases List.mem_cons.mp hmem with heq | hmem
            · cases heq
              exact ⟨rfl, rfl⟩
            · exact hrest.inserts m' run answer hmem
          refine Or.inl (hinserts _ ?_)
          cases tail with
          | nil => exact .nil wanted
          | @cons op next answer trace head tail =>
              have hend : trace = [] := by
                rcases answer with e | _ | existing <;> cases tail <;> rfl
              rw [hend]
              exact (Unstarted.nil wanted).cons (around_loadRunByKey _ _)

/-- What a fire can do, whatever it is answered. -/
theorem fire_path {ok : (call : Call) → call.Res → Prop} {request : Request} {wanted : Run} {trace : Trail}
    (hwanted : request.wanted d = some wanted) (hpath : (request.program d).Path ok trace) :
    Unstarted wanted trace ∨ DrivesCreated d request wanted trace := by
  have hcode : ((request.code d).exec request.memory).Path ok trace := hpath.of_map
  cases request with
  | orchestratorFire tenantId runId wf trigger buffer =>
      obtain rfl := Option.some.inj hwanted
      rw [exec_orchestratorFire] at hcode
      exact creating_path rfl hcode
  | apiFire tenantId runId wfName trigger =>
      obtain ⟨wf, hwf, rfl⟩ := Option.map_eq_some_iff.mp hwanted
      rw [exec_apiFire d trigger hwf] at hcode
      cases hcode with
      | nil => exact Or.inl (.nil _)
      | @cons op next allowed trace head tail =>
          cases allowed with
          | false =>
              cases tail
              exact Or.inl ((Unstarted.nil _).cons (around_allowRequest tenantId))
          | true =>
              have hallow := around_allowRequest tenantId
              have hensure := around_ensureTenant tenantId tenantId (.obj [])
              cases tail with
              | nil => exact Or.inl ((Unstarted.nil _).cons hallow)
              | cons head tail =>
                  rcases creating_path rfl tail with hunstarted | hdrives
                  · exact Or.inl ((hunstarted.cons hensure).cons hallow)
                  · exact Or.inr ((hdrives.cons hensure).cons hallow)
  | orchestratorResume | runnerResume | apiResolve | apiCancel => cases hwanted

/-! ### Nobody else inserts runs -/

/-- Not an insertion. -/
def Op.NotInsertion (op : Op) : Prop := ∀ run, op ≠ .insertRun run

theorem inserts_resume (cfg : EngineConfig) (wf : Workflow) :
    Makes Op.NotInsertion (WorkflowEngine.resume cfg wf) := by
  intro m s _
  have hcalls : Act.wp (.calls fun call : Call => call.op.NotInsertion)
      (WorkflowEngine.resume cfg wf) (fun _ m' _ => m'.Of m.run.tenantId m.run.id)
      (fun _ m' _ => m'.Of m.run.tenantId m.run.id) m s := by
    refine Prog.wp_calls_mono (fun call hcall run heq => ?_) _
      (performs_resume cfg wf m.run.tenantId m.run.id m s ⟨rfl, rfl⟩)
    have hby := hcall.2
    rw [heq] at hby
    exact hby
  exact Act.wp_mono _ (fun _ _ _ _ => trivial) (fun _ _ _ _ => trivial) hcalls

theorem inserts_perform {op : Op} (hop : op.NotInsertion) : Makes Op.NotInsertion (perform op) :=
  Act.keeps_perform fun _ _ _ _ _ => ⟨hop, fun _ _ _ => trivial⟩

theorem inserts_safeResume (wf : Workflow) : Makes Op.NotInsertion (ApiService.safeResume d wf) := by
  refine Act.keeps_tryCatch (Act.keeps_bind (inserts_resume _ wf) fun _ => keeps_getRun) fun e => ?_
  split
  · refine Act.keeps_bind keeps_getRun fun run => ?_
    refine Act.keeps_bind (inserts_perform fun _ heq => nomatch heq) fun answer => ?_
    exact Act.keeps_bind (Act.keeps_ofExcept _) fun _ => Act.keeps_pure _
  · exact Act.keeps_throw _

theorem inserts_hydrate (tenantId runId : String) : Makes Op.NotInsertion (hydrate tenantId runId) := by
  refine Act.keeps_bind (inserts_perform fun _ heq => nomatch heq) fun answer => ?_
  refine Act.keeps_bind (Act.keeps_ofExcept _) fun found => ?_
  split
  · exact Act.keeps_throw _
  · exact Act.keeps_bind (keeps_modifyRun_shared _) fun _ => Act.keeps_pure _

/-- What drives a run inserts none. -/
theorem inserts_driving (d : Deployment) (request : Request) : Makes Op.NotInsertion (request.driving d) := by
  have hemit : ∀ payload : Json, Makes Op.NotInsertion (emit "trigger_fired" payload) := fun payload =>
    keeps_emit (fun _ _ _ _ _ => trivial) _ _ _ _ _
  cases request with
  | orchestratorFire tenantId runId wf trigger buffer =>
      refine Act.keeps_bind (hemit _) fun _ => ?_
      exact Act.keeps_bind (inserts_resume d.engine wf) fun _ => keeps_getRun
  | apiFire tenantId runId wfName trigger =>
      refine Act.keeps_bind (Act.keeps_ofExcept _) fun wf => ?_
      exact Act.keeps_bind (hemit _) fun _ => inserts_safeResume wf
  | orchestratorResume tenantId runId wf buffer =>
      refine Act.keeps_bind (inserts_hydrate _ _) fun run => ?_
      split
      · exact Act.keeps_pure _
      · exact Act.keeps_bind (inserts_resume d.engine wf) fun _ => keeps_getRun
  | runnerResume tenantId runId =>
      refine Act.keeps_bind (inserts_hydrate _ _) fun run => ?_
      refine Act.keeps_bind (Act.keeps_ofExcept _) fun wf => ?_
      exact Act.keeps_bind (inserts_resume _ wf) fun _ => keeps_getRun
  | apiResolve tenantId runId approvalId approved decidedBy note =>
      refine Act.keeps_bind (inserts_hydrate _ _) fun run => ?_
      refine Act.keeps_bind (inserts_perform fun _ heq => nomatch heq) fun answer => ?_
      refine Act.keeps_bind (Act.keeps_ofExcept _) fun _ => ?_
      exact Act.keeps_bind (Act.keeps_ofExcept _) fun wf => inserts_safeResume wf
  | apiCancel tenantId runId =>
      refine Act.keeps_bind (inserts_perform fun _ heq => nomatch heq) fun answer => ?_
      exact Act.keeps_bind (Act.keeps_ofExcept _) fun _ => inserts_hydrate _ _

/-- A request inserts the run it wants and no other. -/
theorem wanted_of_insertion {ok : (call : Call) → call.Res → Prop} {request : Request} {trace : Trail}
    (hpath : (request.program d).Path ok trace) {m : Mem} {run : Run} {inserted : Bool}
    (hmem : ⟨⟨m, .insertRun run⟩, inserted⟩ ∈ trace) : request.wanted d = some run := by
  have hnever : ∀ {x : EngineM Run} {m' : Mem} {trace : Trail} {ok : (call : Call) → call.Res → Prop},
      Makes Op.NotInsertion x → (x.exec m').Path ok trace →
        ⟨⟨m, .insertRun run⟩, inserted⟩ ∉ trace := by
    intro x m' trace ok hx hpath hmem
    exact (hpath.calls (hx m' () trivial)) _ hmem run rfl
  have hcode : ((request.code d).exec request.memory).Path ok trace := hpath.of_map
  cases hwanted : request.wanted d with
  | some wanted =>
      rcases fire_path hwanted hpath with hunstarted | ⟨m', before, after, rfl, -, hbefore, hafter⟩
      · rw [(hunstarted.inserts m run inserted hmem).1]
      · rcases List.mem_append.mp hmem with hmem | hmem
        · rw [(hbefore.inserts m run inserted hmem).1]
        · rcases List.mem_cons.mp hmem with heq | hmem
          · cases heq
            rfl
          · exact absurd hmem (hnever (inserts_driving d request) hafter)
  | none =>
      cases request with
      | orchestratorFire tenantId runId wf trigger buffer => cases hwanted
      | apiFire tenantId runId wfName trigger =>
          have hwf : d.workflowsByName.get? wfName = none := Option.map_eq_none_iff.mp hwanted
          change ((ApiService.fire d tenantId runId wfName trigger).exec _).Path ok trace at hcode
          rw [ApiService.fire, Act.exec_ofExcept_bind, hwf] at hcode
          cases hcode
          exact absurd hmem List.not_mem_nil
      | orchestratorResume tenantId runId wf buffer =>
          exact absurd hmem (hnever (inserts_driving d (.orchestratorResume tenantId runId wf buffer)) hcode)
      | runnerResume tenantId runId =>
          exact absurd hmem (hnever (inserts_driving d (.runnerResume tenantId runId)) hcode)
      | apiResolve tenantId runId approvalId approved decidedBy note =>
          exact absurd hmem (hnever
            (inserts_driving d (.apiResolve tenantId runId approvalId approved decidedBy note)) hcode)
      | apiCancel tenantId runId =>
          exact absurd hmem (hnever (inserts_driving d (.apiCancel tenantId runId)) hcode)

/-! ### What a fire returns -/

section Returned

variable {db : DB} {wanted : Run}

/-- The calls of a fire in a run that ends in the database `db`. -/
abbrev confirmedSpec (db : DB) : Spec Call Call.Res Trail := .history (Confirmed db) fun _ _ => True

theorem engineInv_confirmed (cfg : EngineConfig) (wf : Workflow) (ident : RunIdent) :
    EngineInv cfg wf (confirmedSpec db) fun m _ => m.run.ident = ident := by
  have hmem : ∀ (m m' : Mem) (before : Trail), SameIdent m m' → m.run.ident = ident →
      m'.run.ident = ident := by
    intro m m' before hsame hident
    rw [← hident, Run.ident, Run.ident, hsame.id, hsame.workflowId, hsame.tenantId, hsame.idempotencyKey]
  refine engineInv_of_calls hmem (fun _ _ hJ => hJ) (fun op _ => ?_) wf ?_
  · exact Act.keeps_perform fun m before hJ _ _ => ⟨trivial, fun _ _ _ => hJ⟩
  · exact keeps_checkpoint_call fun m before hJ _ _ => ⟨trivial, fun _ _ _ => ⟨hJ, hJ⟩⟩

/-- A stored run is determined by its id. -/
theorem ident_eq_of_id {ident ident' : RunIdent} (hmem : ident ∈ db.idents) (hmem' : ident' ∈ db.idents)
    (hid : ident.id = ident'.id) : ident = ident' := by
  obtain ⟨row, hrow, rfl⟩ := List.mem_map.mp hmem
  obtain ⟨row', hrow', rfl⟩ := List.mem_map.mp hmem'
  rw [List.inj_on_of_nodup_map db.runs.nodup hrow hrow' hid]

/-- A stored run is determined by its key. -/
theorem ident_eq_of_triggerKey {ident ident' : RunIdent} (hmem : ident ∈ db.idents)
    (hmem' : ident' ∈ db.idents) (hkey : ident.triggerKey = ident'.triggerKey) : ident = ident' := by
  obtain ⟨row, hrow, rfl⟩ := List.mem_map.mp hmem
  obtain ⟨row', hrow', rfl⟩ := List.mem_map.mp hmem'
  rw [List.inj_on_of_nodup_map db.runsUnique hrow hrow' hkey]

theorem returned_safeResume (wf : Workflow) {m : Mem} {before : Trail} (hstored : wanted.ident ∈ db.idents)
    (hm : m.run.ident = wanted.ident) :
    Act.wp (confirmedSpec db) (ApiService.safeResume d wf) (fun run _ _ => run.ident = wanted.ident)
      (fun _ _ _ => True) m before := by
  refine (Act.wp_tryCatch _ _).mpr ((Act.wp_bind _ _).mpr ?_)
  refine Act.wp_mono _ (fun _ _ _ hident => hident) (fun e m' before' hident => ?_)
    ((engineInv_confirmed _ wf wanted.ident).resume m before hm)
  split
  · refine (wp_getRun_bind _).mpr ((Act.wp_perform_history _ _).mpr ⟨trivial, fun answer hok => ?_⟩)
    refine (Act.wp_ofExcept_bind _ _).mpr ?_
    rcases answer with e | _ | run
    · trivial
    · exact hident
    · obtain ⟨hmem, hid⟩ := hok
      refine ident_eq_of_id hmem hstored ?_
      exact hid.trans (congrArg RunIdent.id hident)
  · trivial

/-- A fire that drives its run returns that run. -/
theorem returned_driving {request : Request} (hwanted : request.wanted d = some wanted) {m : Mem}
    {before : Trail} (hstored : wanted.ident ∈ db.idents) (hm : m.run.ident = wanted.ident) :
    Act.wp (confirmedSpec db) (request.driving d) (fun run _ _ => run.ident = wanted.ident)
      (fun _ _ _ => True) m before := by
  cases request with
  | orchestratorFire tenantId runId wf trigger buffer =>
      refine (wp_emit_bind _ _ _ _ _ _).mpr ((Act.wp_bind _ _).mpr ?_)
      exact Act.wp_mono _ (fun _ _ _ hident => hident) (fun _ _ _ _ => trivial)
        ((engineInv_confirmed _ wf wanted.ident).resume _ before hm)
  | apiFire tenantId runId wfName trigger =>
      refine (Act.wp_ofExcept_bind _ _).mpr ?_
      split
      · exact (wp_emit_bind _ _ _ _ _ _).mpr (returned_safeResume _ hstored hm)
      · trivial
  | orchestratorResume | runnerResume | apiResolve | apiCancel => cases hwanted

/-- From its insertion on, a fire returns what is stored under the key it wanted. -/
theorem wp_creating {request : Request} (hwanted : request.wanted d = some wanted) {m : Mem}
    (hm : m.run = wanted) (before : Trail) :
    (request.creating d wanted m).wp (confirmedSpec db)
      (fun out _ => ∀ run, out.1 = .ok run → Returned wanted run db) before := by
  rintro _ rfl
  refine ⟨trivial, fun inserted after hstep => ?_⟩
  obtain ⟨hinserted, rfl⟩ := hstep
  cases inserted with
  | true =>
      have hident : m.run.ident = wanted.ident := by rw [hm]
      have hdriving : Act.wp (confirmedSpec db) (request.driving d)
          (fun run _ _ => run.ident = wanted.ident) (fun _ _ _ => True) m
          (before ++ [⟨⟨m, .insertRun wanted⟩, true⟩]) := returned_driving hwanted hinserted hident
      refine Prog.wp_mono (fun out after hout run hrun => ?_) _ hdriving
      obtain ⟨result, m'⟩ := out
      obtain rfl : result = .ok run := hrun
      have hident : run.ident = wanted.ident := hout
      rw [Returned, hident]
      exact ⟨hinserted, rfl⟩
  | false =>
      rintro _ rfl
      refine ⟨trivial, fun answer after hstep => ?_⟩
      obtain ⟨hfound, rfl⟩ := hstep
      rcases answer with e | _ | existing
      · rintro run ⟨⟩
      · rintro run ⟨⟩
      · rintro run hrun
        cases hrun
        exact hfound

theorem returned_creating {request : Request} (hwanted : request.wanted d = some wanted) {m m' : Mem}
    (hm : m.run = wanted) {trace : Trail} {run : Run}
    (hreturns : (request.creating d wanted m).Returns trace (.ok run, m'))
    (hok : ∀ event ∈ trace, Confirmed db event.1 event.2) : Returned wanted run db :=
  hreturns.history hok (wp_creating hwanted hm []) run rfl

/-- A fire that returns has tried to insert its run, and returns a stored one under its key. -/
theorem returned_of_returns {request : Request} (hwanted : request.wanted d = some wanted) {m : Mem}
    {trace : Trail} {run : Run}
    (hreturns : ((request.code d).exec request.memory).Returns trace (.ok run, m))
    (hok : ∀ event ∈ trace, Confirmed db event.1 event.2) : Returned wanted run db := by
  cases request with
  | orchestratorFire tenantId runId wf trigger buffer =>
      obtain rfl := Option.some.inj hwanted
      rw [exec_orchestratorFire] at hreturns
      exact returned_creating hwanted rfl hreturns hok
  | apiFire tenantId runId wfName trigger =>
      have hwanted' := hwanted
      obtain ⟨wf, hwf, rfl⟩ := Option.map_eq_some_iff.mp hwanted'
      rw [exec_apiFire d trigger hwf] at hreturns
      cases hreturns with
      | @call op next allowed trace value tail =>
          cases allowed with
          | false => cases tail
          | true =>
              cases tail with
              | call tail =>
                  obtain ⟨-, hok⟩ := List.forall_mem_cons.mp hok
                  exact returned_creating hwanted rfl tail (List.forall_mem_cons.mp hok).2
  | orchestratorResume | runnerResume | apiResolve | apiCancel => cases hwanted

end Returned

/-! ### Any number of fires -/

/-- The thread serves a fire that wants to create `wanted`, under the key. -/
structure FiresKey (d : Deployment) (c : System) (key : String × String) (i : Nat) (request : Request)
    (wanted : Run) : Prop where
  tag : (c.threads[i]?).map Prod.fst = some request
  wants : request.wanted d = some wanted
  key : wanted.ident.triggerKey = key

/-- The thread's insertion was accepted. -/
def Creates (labels : List (Pool.Label Request Call Call.Res)) (i : Nat) (wanted : Run) : Prop :=
  ∃ m, .call i ⟨m, .insertRun wanted⟩ true ∈ labels

/-- The fires of one key have created one run. -/
structure FiredOnce (d : Deployment) (key : String × String)
    (labels : List (Pool.Label Request Call Call.Res)) (c : System) : Prop where
  /-- Once one of them has tried, exactly one has created a run. -/
  creator : ∀ i request wanted, FiresKey d c key i request wanted →
    (∃ m inserted, .call i ⟨m, .insertRun wanted⟩ inserted ∈ labels) →
      ∃! j, ∃ request' wanted', FiresKey d c key j request' wanted' ∧ Creates labels j wanted'
  /-- It drives the run it has created, the only one with the key. -/
  drives : ∀ i request wanted, FiresKey d c key i request wanted → Creates labels i wanted →
    DrivesCreated d request wanted (Pool.trace i labels) ∧
      ∃ row, c.shared.runs.rows.filter (fun row => row.triggerKey = key) = [row] ∧ row.id = wanted.id
  /-- The others drive nothing. -/
  others : ∀ i request wanted, FiresKey d c key i request wanted → ¬Creates labels i wanted →
    ∀ event ∈ Pool.trace i labels, event.1.op.LooksUp
  /-- Each that returns a run returns that one. -/
  returned : ∀ i request wanted run m, FiresKey d c key i request wanted →
    ((request.code d).exec request.memory).Returns (Pool.trace i labels) (.ok run, m) →
      ∃ j request' wanted', FiresKey d c key j request' wanted' ∧ Creates labels j wanted' ∧
        run.id = wanted'.id

section Fires

variable {db : DB} {labels : List (Pool.Label Request Call Call.Res)} {c : System} {key : String × String}

/-- The row of a key is the only one. -/
theorem filter_triggerKey {ident : RunIdent} (hmem : ident ∈ db.idents) (hkey : ident.triggerKey = key) :
    ∃ row, db.runs.rows.filter (fun row => row.triggerKey = key) = [row] ∧ row.id = ident.id := by
  obtain ⟨row, hrow, rfl⟩ := List.mem_map.mp hmem
  obtain ⟨before, after, hsplit⟩ := List.append_of_mem hrow
  have hunique := db.runsUnique
  rw [hsplit, List.map_append, List.map_cons, List.nodup_middle, List.nodup_cons, ← List.map_append]
    at hunique
  have hnone : ∀ other ∈ before ++ after, other.triggerKey ≠ key := by
    intro other hother heq
    exact hunique.1 (List.mem_map.mpr ⟨other, hother, heq.trans hkey.symm⟩)
  refine ⟨row, ?_, rfl⟩
  have hrow' : decide (row.triggerKey = key) = true := decide_eq_true hkey
  have hbefore : before.filter (fun row => row.triggerKey = key) = [] :=
    List.filter_eq_nil_iff.mpr fun other hother => by simp [hnone other (List.mem_append_left _ hother)]
  have hafter : after.filter (fun row => row.triggerKey = key) = [] :=
    List.filter_eq_nil_iff.mpr fun other hother => by simp [hnone other (List.mem_append_right _ hother)]
  rw [hsplit, List.filter_append, hbefore, List.nil_append, List.filter_cons, if_pos hrow', hafter]

/-- An insertion is a fire's. -/
theorem fires_of_insertion (hrun : System.Run d redact ⟨[], db⟩ labels c) {i : Nat} {m : Mem} {run : Run}
    {inserted : Bool} (hlabel : .call i ⟨m, .insertRun run⟩ inserted ∈ labels) :
    ∃ request, FiresKey d c run.ident.triggerKey i request run := by
  obtain ⟨request, htag⟩ := hrun.tag_of_mem hlabel
  have hpath := hrun.path_of_tag (Nat.zero_le i) htag
  exact ⟨request, htag, wanted_of_insertion hpath (Pool.mem_trace.mpr hlabel), rfl⟩

/-- A run that is stored and was not there at the start has exactly one creator. -/
theorem creator_of_stored (hrun : System.Run d redact ⟨[], db⟩ labels c)
    (hnew : ∀ ident ∈ db.idents, ident.triggerKey ≠ key) {ident : RunIdent}
    (hmem : ident ∈ c.shared.idents) (hkey : ident.triggerKey = key) :
    ∃ j request wanted, FiresKey d c key j request wanted ∧ Creates labels j wanted ∧
      wanted.ident = ident := by
  rcases created_of_run serves_step hrun hmem with hold | ⟨j, m, wanted, hlabel, rfl⟩
  · exact absurd hkey (hnew ident hold)
  · obtain ⟨request, hfires⟩ := fires_of_insertion hrun hlabel
    exact ⟨j, request, wanted, ⟨hfires.tag, hfires.wants, hkey⟩, ⟨m, hlabel⟩, rfl⟩

/-- However many fires of one key are in flight, and however their calls interleave with each other and
with other requests, exactly one of them creates a run and drives it, and all that return return it. -/
theorem fired_once (hrun : System.Run d redact ⟨[], db⟩ labels c)
    (hnew : ∀ ident ∈ db.idents, ident.triggerKey ≠ key)
    (hfresh : ∀ key i request wanted, FiresKey d c key i request wanted →
      ∀ ident ∈ db.idents, ident.id ≠ wanted.id)
    (hdistinct : ∀ key key' i j request request' wanted wanted', FiresKey d c key i request wanted →
      FiresKey d c key' j request' wanted' → wanted.id = wanted'.id → i = j) :
    FiredOnce d key labels c := by
  have hpath : ∀ {i : Nat} {request : Request}, (c.threads[i]?).map Prod.fst = some request →
      (request.program d).Path (Pool.Answers (Call.step d.engine.policy redact)) (Pool.trace i labels) :=
    fun htag => hrun.path_of_tag (Nat.zero_le _) htag
  have hunique : ∀ {i j : Nat} {request request' : Request} {wanted wanted' : Run},
      FiresKey d c key i request wanted →
      FiresKey d c key j request' wanted' → Creates labels i wanted → Creates labels j wanted' →
      i = j ∧ wanted = wanted' := by
    rintro i j request request' wanted wanted' hi hj ⟨m, hm⟩ ⟨m', hm'⟩
    exact inserted_unique serves_step hrun hm hm' (hi.key.trans hj.key.symm)
  have hconfirmed : ∀ i, ∀ event ∈ Pool.trace i labels, Confirmed c.shared event.1 event.2 :=
    fun i event hevent => confirmed_of_run serves_step hrun (Pool.mem_trace.mp hevent)
  constructor
  case creator =>
    rintro i request wanted hi ⟨m, inserted, hlabel⟩
    have hexists : ∃ j request' wanted', FiresKey d c key j request' wanted' ∧ Creates labels j wanted' := by
      cases inserted with
      | true => exact ⟨i, request, wanted, hi, m, hlabel⟩
      | false =>
          obtain ⟨ident, hmem, hconflict⟩ := confirmed_of_run serves_step hrun hlabel
          rcases hconflict with hid | hkey
          · rcases created_of_run serves_step hrun hmem with hold | ⟨j, m', wanted', hlabel', rfl⟩
            · exact absurd hid (hfresh key i request wanted hi ident hold)
            · obtain ⟨request', hj⟩ := fires_of_insertion hrun hlabel'
              obtain rfl := hdistinct _ _ i j _ _ _ _ hi hj hid.symm
              obtain rfl := Option.some.inj (hi.tag.symm.trans hj.tag)
              obtain rfl := Option.some.inj (hi.wants.symm.trans hj.wants)
              exact ⟨i, request, wanted, hi, m', hlabel'⟩
          · obtain ⟨j, request', wanted', hj, hcreates, -⟩ :=
              creator_of_stored hrun hnew hmem (hkey.trans hi.key)
            exact ⟨j, request', wanted', hj, hcreates⟩
    obtain ⟨j, request', wanted', hj, hcreates⟩ := hexists
    refine ⟨j, ⟨request', wanted', hj, hcreates⟩, ?_⟩
    rintro k ⟨request'', wanted'', hk, hcreates'⟩
    exact (hunique hk hj hcreates' hcreates).1
  case drives =>
    rintro i request wanted hi ⟨m, hlabel⟩
    refine ⟨?_, filter_triggerKey (confirmed_of_run serves_step hrun hlabel) hi.key⟩
    rcases fire_path hi.wants (hpath hi.tag) with hunstarted | hdrives
    · cases (hunstarted.inserts m wanted true (Pool.mem_trace.mpr hlabel)).2
    · exact hdrives
  case others =>
    intro i request wanted hi hnot
    rcases fire_path hi.wants (hpath hi.tag) with hunstarted | ⟨m, before, after, htrace, -⟩
    · exact hunstarted.looksUp
    · refine absurd ⟨m, Pool.mem_trace.mp ?_⟩ hnot
      rw [htrace]
      exact List.mem_append_right _ List.mem_cons_self
  case returned =>
    intro i request wanted run m hi hreturns
    obtain ⟨hmem, hkey⟩ := returned_of_returns hi.wants hreturns (hconfirmed i)
    obtain ⟨j, request', wanted', hj, hcreates, hident⟩ :=
      creator_of_stored hrun hnew hmem (hkey.trans hi.key)
    exact ⟨j, request', wanted', hj, hcreates, (congrArg RunIdent.id hident).symm⟩

/-- Requests under different run ids want different runs. -/
theorem fires_distinct (hids : (c.threads.map fun t => t.1.runId).Nodup) {key key' : String × String}
    {i j : Nat} {request request' : Request} {wanted wanted' : Run}
    (hi : FiresKey d c key i request wanted) (hj : FiresKey d c key' j request' wanted')
    (hid : wanted.id = wanted'.id) : i = j := by
  obtain ⟨t, ht, rfl⟩ := Option.map_eq_some_iff.mp hi.tag
  obtain ⟨t', ht', rfl⟩ := Option.map_eq_some_iff.mp hj.tag
  have hsame : t.1.runId = t'.1.runId := by
    rw [← (wanted_ident hi.wants).1, ← (wanted_ident hj.wants).1, hid]
  obtain ⟨hlt, -⟩ := List.getElem?_eq_some_iff.mp ht
  refine (List.getElem?_inj (by rwa [List.length_map]) hids).mp ?_
  rw [List.getElem?_map, List.getElem?_map, ht, ht', Option.map_some, Option.map_some, hsame]

end Fires

/-! ### Three fires -/

/-- Two fires of one event and one of another, their calls interleaved. -/
def threeFires : List (Pool.Label Request Call Call.Res) × System :=
  System.play payDeployment id (.constant .null)
    ([.spawn (stopFire "run-1" "invoice"), .spawn (stopFire "run-2" "invoice"),
      .spawn (.apiFire "acme" "run-3" "payments" (Dict.ofList [("id", .str "evt-2")])),
      .call 2, .call 1, .call 0, .call 2, .call 1, .call 0, .call 2] ++ List.replicate 4 (.call 1))
    ⟨[], DB.empty⟩

theorem fired_once_threeFires :
    FiredOnce payDeployment ("acme", "evt-1") threeFires.1 threeFires.2 := by
  refine fired_once (System.play_run _ _ _ _ _) (fun _ hmem => absurd hmem List.not_mem_nil)
    (fun _ _ _ _ _ _ hmem => absurd hmem List.not_mem_nil) fun _ _ _ _ _ _ _ _ hi hj hid => ?_
  exact fires_distinct (by decide +kernel) hi hj hid

end Bass
