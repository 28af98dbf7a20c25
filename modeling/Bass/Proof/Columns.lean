import Bass.Proof.Executions
import Bass.Proof.Secrets
import Bass.Proof.StoreLemmas

/-!
# What redaction covers

Of the columns that hold values from outside, the store writes `events.payload_json` through `redact`
and the others as they are. What differs in secrets only inside an agent's conversation comes into event
payloads and nowhere else, so the executions keep the same columns; the trigger of a new run, the result
of a tool step and the final output of an agent are stored with their secrets.
-/

namespace Bass

open Interaction EngineM Redaction

/-! ### The persisted columns -/

/-- The columns of a row of `runs` that hold values from outside, with the columns an update looks for. -/
structure RunColumns where
  id : String
  tenantId : String
  trigger : Json
  context : List (String × Json)
  result : Option Json

/-- `runs`, `events.payload_json` and `tool_effects` with its key. -/
structure Columns where
  runs : List RunColumns
  payloads : List Json
  effects : List (String × Json)

def RunRow.columns (row : RunRow) : RunColumns :=
  ⟨row.id, row.tenantId, row.triggerJson, row.contextJson.rows, row.resultJson⟩

def EffectRow.columns (row : EffectRow) : String × Json := (row.idempotencyKey, row.resultJson)

def DB.columns (db : DB) : Columns :=
  { runs := db.runs.rows.map RunRow.columns
    payloads := db.events.rows.map EventRow.payloadJson
    effects := db.toolEffects.rows.map EffectRow.columns }

namespace Columns

variable (redact : Json → Json)

/-- The row a checkpoint of the run overwrites. -/
def holds (row : RunColumns) (run : Run) : Bool := row.id = run.id ∧ row.tenantId = run.tenantId

def taken (cols : Columns) (key : String) : Bool := cols.effects.any fun effect => effect.1 = key

/-- What an answered call does to the columns. -/
def write (cols : Columns) : (op : Op) → op.Res → Columns
  | .insertRun run, inserted =>
      if inserted then
        { cols with
          runs := cols.runs ++ [⟨run.id, run.tenantId, run.triggerEvent, run.context.rows, none⟩] }
      else cols
  | .checkpoint run events, .ok _ =>
      { cols with
        runs := cols.runs.map fun row =>
          if holds row run then
            { row with context := run.context.rows, result := dumpResult run.result }
          else row
        payloads := cols.payloads ++ events.map fun ev => redact ev.payload }
  | .cancelRun .., .ok true => { cols with payloads := cols.payloads ++ [.obj []] }
  | .recordEffect _ key _ _ _ result, _ =>
      if cols.taken key then cols else { cols with effects := cols.effects ++ [(key, result)] }
  | _, _ => cols

end Columns

section Step

variable {policy : PolicyEngine} {redact : Json → Json}

theorem payloads_of_appendEvents {tenantId : String} {events : List Event} {now : ℕ → ℚ}
    {log log' : EventLog} (h : DB.appendEvents redact tenantId events now log = .ok log') :
    log'.rows.map EventRow.payloadJson =
      log.rows.map EventRow.payloadJson ++ events.map fun ev => redact ev.payload := by
  induction events generalizing now log with
  | nil =>
      cases h
      simp
  | cons ev rest ih =>
      unfold DB.appendEvents at h
      split at h
      · rw [ih h]
        simp [EventLog.append, DB.Event.row]
      · cases h

theorem taken_columns (db : DB) (key : String) :
    db.columns.taken key = (db.toolEffects.find? key).isSome := by
  unfold Columns.taken DB.columns Table.find?
  rw [List.any_map, List.isSome_find?]
  rfl

/-- The columns after a call are a function of those before it and of the call. -/
theorem columns_of_step {db db' : DB} {op : Op} {answer : op.Res}
    (h : op.step policy redact db answer db') : db'.columns = db.columns.write redact op answer := by
  cases op with
  | insertRun run =>
      obtain ⟨now, hinsert⟩ := h
      unfold DB.insertRun at hinsert
      split at hinsert
      · rename_i hnew
        cases hinsert
        have hrows := Table.insert_of_none (r := run.newRow now) (DB.find?_of_not_conflicts hnew)
        simp only [DB.columns, hrows, List.map_append]
        rfl
      · cases hinsert
        rfl
  | checkpoint run events =>
      obtain ⟨now, hcommits⟩ := h
      rcases commits_map_cases hcommits with ⟨hcp, rfl⟩ | ⟨e, -, rfl, rfl⟩
      · obtain ⟨-, hlog, hruns, -, heffects⟩ := DB.checkpoint_ok hcp
        simp only [DB.columns, hruns, heffects, payloads_of_appendEvents hlog, Columns.write,
          Columns.mk.injEq, and_self, and_true]
        rw [Table.update, List.map_map, List.map_map]
        refine List.map_congr_left fun row _ => ?_
        by_cases howner : row.id = run.id ∧ row.tenantId = run.tenantId
        · simp [Columns.holds, RunRow.columns, Run.writeRow, howner]
        · simp [Columns.holds, RunRow.columns, howner]
      · rfl
  | cancelRun tenantId target =>
      obtain ⟨now, hcommits⟩ := h
      rcases hcommits.cases with ⟨canceled, htx, rfl⟩ | ⟨e, -, rfl, rfl⟩
      · unfold DB.cancelRun at htx
        split at htx
        · cases htx
          rfl
        · split at htx
          · split at htx
            · cases htx
              rfl
            · cases htx
              simp only [DB.columns, DB.updateRuns, Table.update, EventLog.append, List.map_append,
                List.map_map, Columns.write, Columns.mk.injEq, and_true]
              refine ⟨List.map_congr_left fun row _ => ?_, rfl⟩
              by_cases howner : row.id = target ∧ row.tenantId = tenantId
              · simp [RunRow.columns, howner]
              · simp [RunRow.columns, howner]
          · cases htx
      · rfl
  | recordEffect tenantId key runId stepId tool result =>
      obtain ⟨now, rfl⟩ := h
      cases hfind : db.toolEffects.find? key with
      | none =>
          have hrows := Table.insert_of_none
            (r := EffectRow.mk key runId tenantId (some stepId) tool result (now 0)) hfind
          have htaken : db.columns.taken key = false := by rw [taken_columns, hfind]; rfl
          rw [Columns.write, htaken]
          simp only [DB.columns, DB.recordEffect, hrows, List.map_append]
          rfl
      | some row =>
          have hsame := Table.insert_of_some
            (r := EffectRow.mk key runId tenantId (some stepId) tool result (now 0)) hfind
          have htaken : db.columns.taken key = true := by rw [taken_columns, hfind]; rfl
          rw [Columns.write, htaken]
          simp only [DB.columns, DB.recordEffect, hsame]
          rfl
  | createApproval tenantId runId stepId approvers =>
      obtain ⟨approvalId, now, hcommits⟩ := h
      rcases commits_map_cases hcommits with ⟨hca, -⟩ | ⟨e, -, -, rfl⟩
      · obtain ⟨-, -, hruns, hevents, heffects⟩ := DB.createApproval_ok hca
        simp only [DB.columns, hruns, hevents, heffects]
        rfl
      · rfl
  | resolveApproval tenantId approvalId approved decidedBy note =>
      obtain ⟨now, hcommits⟩ := h
      rcases commits_map_cases hcommits with ⟨hra, -⟩ | ⟨e, -, -, rfl⟩
      · obtain ⟨-, hruns, hevents, heffects⟩ := DB.resolveApproval_ok hra
        simp only [DB.columns, hruns, hevents, heffects]
        rfl
      · rfl
  | ensureTenant =>
      obtain ⟨now, rfl⟩ := h
      rfl
  | loadRun | loadRunByKey | getEffect | latestApproval | policyCheck | execute =>
      obtain ⟨-, rfl⟩ := h
      rfl
  | allowRequest | stepSpan | respond | approvalFn =>
      obtain rfl := h
      rfl

end Step

/-! ### Stores with the same columns -/

namespace Columns

variable {classes : CharClasses}

theorem payloads_eq_of_like {events events' : List Event} (h : List.Forall₂ Event.Like events events') :
    events.map (fun ev => redact classes ev.payload) = events'.map fun ev => redact classes ev.payload := by
  induction h with
  | nil => rfl
  | cons hev _ ih => rw [List.map_cons, List.map_cons, ih, redact_eq_of_alike hev.payload]

/-- Corresponding calls that are answered accordingly write the same columns. -/
theorem write_eq {cols : Columns} {op op' : Op} {answer : op.Res} {answer' : op'.Res} (hlike : op.Like op')
    (hmatch : op.Match op' answer answer') :
    cols.write (redact classes) op answer = cols.write (redact classes) op' answer' := by
  cases hlike with
  | same =>
      cases op with
      | insertRun | checkpoint | cancelRun | recordEffect =>
          obtain rfl := eq_of_heq hmatch
          rfl
      | _ => rfl
  | insertRun hrun =>
      obtain rfl := eq_of_heq hmatch
      simp only [write, hrun.id, hrun.tenantId, hrun.triggerEvent, hrun.context]
  | @checkpoint run run' events events' hrun hevents =>
      obtain rfl := eq_of_heq hmatch
      have hholds : ∀ row, holds row run' = holds row run := fun row => by
        unfold holds
        rw [hrun.id, hrun.tenantId]
      cases answer with
      | error e => rfl
      | ok value => simp only [write, hholds, hrun.context, hrun.result, payloads_eq_of_like hevents]
  | loadRunByKey | policyCheck | respond | execute | approvalFn => rfl

end Columns

section Answers

variable {db db' : DB}

theorem find?_columns (db : DB) (runId : String) :
    (db.runs.find? runId).map RunRow.columns = db.columns.runs.find? fun row => row.id = runId := by
  unfold Table.find? DB.columns
  rw [List.find?_map]
  rfl

theorem find?_effect_columns (db : DB) (key : String) :
    (db.toolEffects.find? key).map EffectRow.columns =
      db.columns.effects.find? fun effect => effect.1 = key := by
  unfold Table.find? DB.columns
  rw [List.find?_map]
  rfl

/-- Rows with the same columns, of runs that differ in secrets, are of the same run. -/
theorem same_of_columns {row row' : RunRow} (hcols : row.columns = row'.columns)
    (hlike : row.toRun.Like row'.toRun) : row.toRun.Same row'.toRun := by
  simp only [RunRow.columns, RunColumns.mk.injEq] at hcols
  obtain ⟨-, -, htrigger, hcontext, hresult⟩ := hcols
  exact
    { id := hlike.id
      tenantId := hlike.tenantId
      workflowId := hlike.workflowId
      status := hlike.status
      cursorStep := hlike.cursorStep
      costUsd := hlike.costUsd
      stepsUsed := hlike.stepsUsed
      triggerEvent := htrigger.symm
      context := Table.rows_injective hcontext.symm
      result := congrArg loadResult hresult.symm }

/-- What is loaded differs in no secret that is stored. -/
theorem same_of_loadRun (hcols : db.columns = db'.columns) {tenantId runId : String}
    (hlike : SameOutcome (Option.Rel Run.Like) (db.loadRun tenantId runId) (db'.loadRun tenantId runId)) :
    SameOutcome (Option.Rel Run.Same) (db.loadRun tenantId runId) (db'.loadRun tenantId runId) := by
  have hfind := find?_columns db runId
  rw [hcols, ← find?_columns db' runId] at hfind
  unfold DB.loadRun DB.rowToRun at hlike ⊢
  cases hrow : db.runs.find? runId with
  | none =>
      cases hrow' : db'.runs.find? runId with
      | none => exact Option.Rel.none
      | some row' => simp [hrow, hrow'] at hfind
  | some row =>
      cases hrow' : db'.runs.find? runId with
      | none => simp [hrow, hrow'] at hfind
      | some row' =>
          rw [hrow, hrow'] at hfind hlike
          have hsame : row.columns = row'.columns := Option.some.inj hfind
          have htenant : row'.tenantId = row.tenantId := (congrArg RunColumns.tenantId hsame).symm
          dsimp only at hlike ⊢
          rw [htenant] at hlike ⊢
          by_cases howned : row.tenantId = tenantId
          · rw [if_pos howned, if_pos howned] at hlike ⊢
            cases hlike with
            | some hlike => exact Option.Rel.some (same_of_columns hsame hlike)
          · rw [if_neg howned, if_neg howned]
            rfl

theorem getEffect_eq_of_columns (hcols : db.columns = db'.columns) {tenantId key : String}
    (halike : SameOutcome Alike (db.getEffect tenantId key) (db'.getEffect tenantId key)) :
    db.getEffect tenantId key = db'.getEffect tenantId key := by
  have hfind := find?_effect_columns db key
  rw [hcols, ← find?_effect_columns db' key] at hfind
  unfold DB.getEffect at halike ⊢
  cases hrow : db.toolEffects.find? key with
  | none =>
      cases hrow' : db'.toolEffects.find? key with
      | none => rfl
      | some row' => simp [hrow, hrow'] at hfind
  | some row =>
      cases hrow' : db'.toolEffects.find? key with
      | none => simp [hrow, hrow'] at hfind
      | some row' =>
          rw [hrow, hrow'] at hfind halike
          have hresult : row.resultJson = row'.resultJson := congrArg Prod.snd (Option.some.inj hfind)
          dsimp only at halike ⊢
          rw [hresult] at halike ⊢
          by_cases howned : row.tenantId = tenantId <;> by_cases howned' : row'.tenantId = tenantId
          · rw [if_pos howned, if_pos howned']
          · rw [if_pos howned, if_neg howned'] at halike
            exact halike.elim
          · rw [if_neg howned, if_pos howned'] at halike
            exact halike.elim
          · rw [if_neg howned, if_neg howned']

theorem rel_true_of_rel {α : Type} {A : α → α → Prop} {x x' : Option α} (h : Option.Rel A x x') :
    Option.Rel (fun _ _ => True) x x' := by
  cases h with
  | none => exact Option.Rel.none
  | some _ => exact Option.Rel.some trivial

theorem match_respond {agent : Agent} {task : Args} {scratch scratch' : Scratch}
    {answer answer' : Except Exc (Response × Scratch)}
    (hagree : (Op.respond agent task scratch).Agree (.respond agent task scratch') answer answer')
    (hbrings : (Op.respond agent task scratch).Brings (.respond agent task scratch') answer answer') :
    (Op.respond agent task scratch).Match (.respond agent task scratch') answer answer' := by
  cases answer with
  | error e =>
      cases answer' with
      | error e' => exact hagree
      | ok out' => exact hagree.elim
  | ok out =>
      cases answer' with
      | error e' => exact hagree.elim
      | ok out' => exact ⟨hagree, hbrings⟩

/-- Stores with the same columns answer corresponding calls accordingly, if what tools and models bring into
the run is the same, and keep the same columns. -/
theorem columns_step {policy : PolicyEngine} {classes : CharClasses} {db₁ db₁' : DB} {op op' : Op}
    {answer : op.Res} {answer' : op'.Res} (hcols : db.columns = db'.columns) (hlike : op.Like op')
    (hagree : op.Agree op' answer answer') (hbrings : op.Brings op' answer answer')
    (h : op.step policy (redact classes) db answer db₁)
    (h' : op'.step policy (redact classes) db' answer' db₁') :
    op.Match op' answer answer' ∧ db₁.columns = db₁'.columns := by
  have hmatch : op.Match op' answer answer' := by
    cases hlike with
    | same =>
        cases op with
        | loadRun =>
            obtain ⟨rfl, -⟩ := h
            obtain ⟨rfl, -⟩ := h'
            exact same_of_loadRun hcols hagree
        | loadRunByKey => exact sameOutcome_mono (fun _ _ => rel_true_of_rel) hagree
        | getEffect =>
            obtain ⟨rfl, -⟩ := h
            obtain ⟨rfl, -⟩ := h'
            exact heq_of_eq (getEffect_eq_of_columns hcols hagree)
        | respond => exact match_respond hagree hbrings
        | execute caller =>
            cases caller with
            | step => exact heq_of_eq hbrings
            | agent => exact hagree
        | _ => exact hagree
    | loadRunByKey => exact sameOutcome_mono (fun _ _ => rel_true_of_rel) hagree
    | respond => exact match_respond hagree hbrings
    | insertRun | checkpoint | policyCheck | execute | approvalFn => exact hagree
  refine ⟨hmatch, ?_⟩
  rw [columns_of_step h, columns_of_step h', ← hcols]
  exact Columns.write_eq hlike hmatch

end Answers

/-! ### Handlings -/

/-- A request with the calls made for it and their answers. -/
structure Handling where
  request : Request
  trail : Trail

/-- The requests are handled one after the other, each to its end or to where its process was killed. -/
inductive Handled (d : Deployment) (redact : Json → Json) : DB → List Handling → DB → Prop where
  | nil (db : DB) : Handled d redact db [] db
  | cons {request : Request} {trail : Trail} {rest : List Handling} {q : Driver Unit} {db db₁ db₂ : DB}
      (head : Prog.Exec (Call.step d.engine.policy redact) (request.program d) db trail q db₁)
      (tail : Handled d redact db₁ rest db₂) : Handled d redact db (⟨request, trail⟩ :: rest) db₂

/-- A request handled to its end in a deterministic world. -/
def Request.play (d : Deployment) (redact : Json → Json) (world : World) (db : DB) (request : Request) :
    Trail × Unit × DB :=
  (request.program d).complete (fun db call => call.op.serve d.engine.policy redact world db) db

theorem handled_play (d : Deployment) (redact : Json → Json) (world : World) (db : DB) (request : Request) :
    Handled d redact db [⟨request, (request.play d redact world db).1⟩] (request.play d redact world db).2.2 :=
  .cons (Prog.complete_exec (fun db (call : Call) => call.op.serve_step d.engine.policy redact world db)
    (request.program d) db) (.nil _)

/-- The request creates a run. -/
def Handling.Creates (handling : Handling) : Prop :=
  ∃ m run, (⟨⟨m, .insertRun run⟩, true⟩ : Prog.Event Call Call.Res) ∈ handling.trail

/-- The triggers, and the answers of tools and models, differ in secrets. -/
structure Handling.Like (handling handling' : Handling) : Prop where
  request : handling.request.Like handling'.request
  answers : List.Forall₂ (fun event event' : Prog.Event Call Call.Res =>
    event.1.op.Agree event'.1.op event.2 event'.2) handling.trail handling'.trail

/-- What comes into the run is the same, secrets included: the trigger if a run is created with it,
the results of tool steps and the final outputs of agents. -/
structure Handling.Covered (handling handling' : Handling) : Prop where
  trigger : handling.Creates ∨ handling'.Creates → handling.request = handling'.request
  brought : List.Forall₂ (fun event event' : Prog.Event Call Call.Res =>
    event.1.op.Brings event'.1.op event.2 event'.2) handling.trail handling'.trail

section Handlings

variable {d : Deployment} {classes : CharClasses}

/-- The calls of a fire up to the creation of its run. -/
def Op.Opens : Op → Prop
  | .allowRequest _ | .ensureTenant .. | .insertRun _ | .loadRunByKey .. => True
  | _ => False

/-- No run is created. -/
def Op.Unborn : (op : Op) → op.Res → Prop
  | .insertRun _, created => created = false
  | _, _ => True

/-- Fires that create nothing. -/
def unbornSpec (d : Deployment) (redact : Json → Json) : Spec Call Call.Res DB :=
  .sequential
    (fun db call answer db' => call.step d.engine.policy redact db answer db' ∧ call.op.Unborn answer)
    fun _ call => call.op.Opens

theorem unborn_createOrGetRun (run : Run) (m : Mem) (db : DB) :
    Act.wp (unbornSpec d (redact classes)) (createOrGetRun run) (fun out _ _ => out.2 = false)
      (fun _ _ _ => True) m db := by
  refine (Act.wp_perform_bind _ _).mpr fun db₁ _ => ⟨trivial, fun inserted db₂ hstep => ?_⟩
  obtain rfl : inserted = false := hstep.2
  refine (Act.wp_perform_bind _ _).mpr fun db₃ _ => ⟨trivial, fun answer db₄ _ => ?_⟩
  refine (Act.wp_ofExcept_bind _ _).mpr ?_
  cases answer with
  | error e => trivial
  | ok found =>
      cases found with
      | none => trivial
      | some existing => rfl

theorem unborn_orchestratorFire (tenantId runId : String) (wf : Workflow) (trigger : Trigger) (m : Mem)
    (db : DB) :
    Act.wp (unbornSpec d (redact classes)) (Orchestrator.fire d tenantId runId wf trigger)
      (fun _ _ _ => True) (fun _ _ _ => True) m db := by
  refine (wp_modifyRun_bind _ _).mpr ((wp_getRun_bind _).mpr ((Act.wp_bind _ _).mpr ?_))
  refine Act.wp_mono _ (fun out m db hout => ?_) (fun _ _ _ _ => trivial) (unborn_createOrGetRun _ _ _)
  obtain ⟨run, created⟩ := out
  obtain rfl : created = false := hout
  trivial

theorem unborn_apiFire (tenantId runId wfName : String) (trigger : Trigger) (m : Mem) (db : DB) :
    Act.wp (unbornSpec d (redact classes)) (ApiService.fire d tenantId runId wfName trigger)
      (fun _ _ _ => True) (fun _ _ _ => True) m db := by
  refine (Act.wp_ofExcept_bind _ _).mpr ?_
  cases d.workflowsByName.get? wfName with
  | none => trivial
  | some wf =>
      refine (Act.wp_perform_bind _ _).mpr fun db₁ _ => ⟨trivial, fun allowed db₂ _ => ?_⟩
      cases allowed with
      | false => trivial
      | true =>
          refine (Act.wp_perform_bind _ _).mpr fun db₃ _ => ⟨trivial, fun _ db₄ _ => ?_⟩
          refine (wp_modifyRun_bind _ _).mpr ((wp_getRun_bind _).mpr ((Act.wp_bind _ _).mpr ?_))
          refine Act.wp_mono _ (fun out m db hout => ?_) (fun _ _ _ _ => trivial)
            (unborn_createOrGetRun _ _ _)
          obtain ⟨run, created⟩ := out
          obtain rfl : created = false := hout
          trivial

/-- Requests that differ are fires. -/
theorem unborn_program {request request' : Request} (hlike : request.Like request')
    (hne : request ≠ request') (db db' : DB) :
    (request.program d).wp (unbornSpec d (redact classes)) (fun _ _ => True) db ∧
      (request'.program d).wp (unbornSpec d (redact classes)) (fun _ _ => True) db' := by
  unfold Request.program
  rw [Prog.wp_bind, Prog.wp_bind]
  cases hlike with
  | same => exact absurd rfl hne
  | orchestratorFire tenantId runId wf =>
      exact ⟨Prog.wp_mono (fun _ _ _ => trivial) _ (unborn_orchestratorFire tenantId runId wf _ _ db),
        Prog.wp_mono (fun _ _ _ => trivial) _ (unborn_orchestratorFire tenantId runId wf _ _ db')⟩
  | apiFire tenantId runId wfName =>
      exact ⟨Prog.wp_mono (fun _ _ _ => trivial) _ (unborn_apiFire tenantId runId wfName _ _ db),
        Prog.wp_mono (fun _ _ _ => trivial) _ (unborn_apiFire tenantId runId wfName _ _ db')⟩

/-- A fire that creates no run leaves the columns alone. -/
theorem columns_of_unborn {handling : Handling} {db db' : DB} {q : Driver Unit}
    (hwp : (handling.request.program d).wp (unbornSpec d (redact classes)) (fun _ _ => True) db)
    (hunborn : ¬ handling.Creates)
    (h : Prog.Exec (Call.step d.engine.policy (redact classes)) (handling.request.program d) db
      handling.trail q db') :
    db'.columns = db.columns := by
  have hevents : ∀ event ∈ handling.trail, event.1.op.Unborn event.2 := by
    rintro ⟨⟨m, op⟩, answer⟩ hmem
    cases op with
    | insertRun run =>
        refine Bool.eq_false_iff.mpr fun htrue => hunborn ⟨m, run, ?_⟩
        rwa [← htrue]
    | _ => trivial
  refine Prog.Exec.preserves_guar (K := fun db db' : DB => db'.columns = db.columns) (fun _ => rfl)
    (fun _ _ _ hfirst hrest => hrest.trans hfirst) ?_ (h.with_events hevents) hwp
  rintro db ⟨m, op⟩ answer db' hopens ⟨hstep, hidle⟩
  rw [columns_of_step hstep]
  cases op with
  | insertRun run =>
      obtain rfl : answer = false := hidle
      rfl
  | allowRequest | ensureTenant | loadRunByKey => rfl
  | _ => exact hopens.elim

/-- Handling one request. -/
theorem columns_handling {handling handling' : Handling} (hlike : handling.Like handling')
    (hcovered : handling.Covered handling') {db db' db₁ db₁' : DB} (hcols : db.columns = db'.columns)
    {q q' : Driver Unit}
    (h : Prog.Exec (Call.step d.engine.policy (redact classes)) (handling.request.program d) db
      handling.trail q db₁)
    (h' : Prog.Exec (Call.step d.engine.policy (redact classes)) (handling'.request.program d) db'
      handling'.trail q' db₁') :
    db₁.columns = db₁'.columns := by
  by_cases hsame : handling.request = handling'.request
  · rw [← hsame] at h'
    refine Prog.Exec.lockstep_inv (I := fun db db' : DB => db.columns = db'.columns)
      (G := fun call call' answer answer' => call.op.Agree call'.op answer answer' ∧
        call.op.Brings call'.op answer answer')
      (fun hI hcalls hgiven hstep hstep' => columns_step hI hcalls hgiven.1 hgiven.2 hstep hstep') h h'
      (lockstep_program d handling.request) hcols ?_
    rw [List.forall₂_iff_zip]
    have hagree := List.forall₂_iff_zip.mp hlike.answers
    have hbrings := List.forall₂_iff_zip.mp hcovered.brought
    exact ⟨hagree.1, fun hmem => ⟨hagree.2 hmem, hbrings.2 hmem⟩⟩
  · have hfirst : ¬ handling.Creates := fun hcreates => hsame (hcovered.trigger (.inl hcreates))
    have hsecond : ¬ handling'.Creates := fun hcreates => hsame (hcovered.trigger (.inr hcreates))
    rw [columns_of_unborn (unborn_program hlike.request hsame db db').1 hfirst h,
      columns_of_unborn (unborn_program hlike.request hsame db db').2 hsecond h', hcols]

end Handlings

/-- Two executions whose triggers, tool answers and model answers differ in secrets keep the same columns
as long as what comes into their runs is the same. -/
theorem columns_same {d : Deployment} {classes : CharClasses} {handlings handlings' : List Handling}
    (hlike : List.Forall₂ Handling.Like handlings handlings')
    (hcovered : List.Forall₂ Handling.Covered handlings handlings') {db db' db₁ db₁' : DB}
    (hcols : db.columns = db'.columns) (h : Handled d (redact classes) db handlings db₁)
    (h' : Handled d (redact classes) db' handlings' db₁') : db₁.columns = db₁'.columns := by
  induction h generalizing handlings' db' with
  | nil db =>
      cases hlike
      cases h'
      exact hcols
  | cons head _ ih =>
      obtain _ | ⟨hfirst, hrest⟩ := hlike
      obtain _ | ⟨hcovers, hcoverage⟩ := hcovered
      obtain _ | ⟨head', htail⟩ := h'
      exact ih hrest hcoverage (columns_handling hfirst hcovers hcols head head') htail

section Examples

def passwordTrigger (password : String) : Trigger :=
  Dict.ofList [("id", .str "order"), ("password", .str password)]

def passwordFire (password : String) : Request :=
  .orchestratorFire "acme" "r1" payWorkflow (passwordTrigger password) []

theorem like_passwordFire (password password' : String) :
    (passwordFire password).Like (passwordFire password') := by
  have hsecret : AlikeUnder "password" (.str password) (.str password') := fun h => by
    exact absurd h (by decide)
  have htrigger : AlikeDict (passwordTrigger password) (passwordTrigger password') :=
    List.Forall₂.cons ⟨rfl, fun _ => .refl _⟩ (List.Forall₂.cons ⟨rfl, hsecret⟩ List.Forall₂.nil)
  exact .orchestratorFire "acme" "r1" payWorkflow htrigger []

theorem discreet_passwordFire (password : String) : (passwordFire password).Discreet payDeployment := by
  rintro _ _ ⟨⟩ step ⟨name, hget⟩
  change Dict.get? (Dict.set Table.empty "pay" payStep) name = some step at hget
  by_cases hname : "pay" = name
  · subst hname
    rw [Dict.get?_set_self] at hget
    obtain rfl := Option.some.inj hget
    exact ⟨fun _ _ _ => .refl _, fun _ _ _ => rfl⟩
  · rw [Dict.get?_set_of_ne _ _ hname] at hget
    cases hget

/-- A fire that has created its run. -/
def createdRun (password : String) : DB :=
  (DB.empty.insertRun (Run.ofTrigger payDeployment.builtins "acme" "r1" payWorkflow
    (passwordTrigger password)) fun _ => 0).1

def createdTrail (password : String) : Trail :=
  [⟨⟨⟨Run.ofTrigger payDeployment.builtins "acme" "r1" payWorkflow (passwordTrigger password), []⟩,
    .insertRun (Run.ofTrigger payDeployment.builtins "acme" "r1" payWorkflow (passwordTrigger password))⟩,
    true⟩]

theorem exec_createdRun (password : String) :
    ∃ q, Prog.Exec (Call.step payDeployment.engine.policy (redact CharClasses.ascii))
      ((passwordFire password).program payDeployment) DB.empty (createdTrail password) q
      (createdRun password) :=
  ⟨_, .cons ⟨fun _ => 0, rfl⟩ (.nil _ _)⟩

/-- Two fires whose triggers differ in a password: it is stored in `trigger_json`. -/
theorem password_stored :
    ∃ q q', (passwordFire "a").Like (passwordFire "b") ∧ (passwordFire "a").Discreet payDeployment ∧
      Prog.Exec (Call.step payDeployment.engine.policy (redact CharClasses.ascii))
        ((passwordFire "a").program payDeployment) DB.empty (createdTrail "a") q (createdRun "a") ∧
      Prog.Exec (Call.step payDeployment.engine.policy (redact CharClasses.ascii))
        ((passwordFire "b").program payDeployment) DB.empty (createdTrail "b") q' (createdRun "b") ∧
      List.Forall₂ (fun event event' : Prog.Event Call Call.Res =>
        event.1.op.Agree event'.1.op event.2 event'.2) (createdTrail "a") (createdTrail "b") ∧
      (createdRun "a").columns ≠ (createdRun "b").columns := by
  obtain ⟨q, h⟩ := exec_createdRun "a"
  obtain ⟨q', h'⟩ := exec_createdRun "b"
  refine ⟨q, q', like_passwordFire "a" "b", discreet_passwordFire "a", h, h',
    List.Forall₂.cons HEq.rfl List.Forall₂.nil, ?_⟩
  intro hcols
  have hstored : ∀ password, (createdRun password).columns.runs.map RunColumns.trigger =
      [.obj [("id", .str "order"), ("password", .str password)]] := fun _ => rfl
  have htriggers := congrArg (fun cols => cols.runs.map RunColumns.trigger) hcols
  simp [hstored] at htriggers

/-- The agent's tool answers with a token. -/
def tokenWorld (token : String) : World :=
  { World.constant (.obj [("token", .str token)]) with respond := paysThenStops.respond }

def tokenPlay (token : String) : Trail × Unit × DB :=
  (Request.runnerResume "acme" "run").play payerDeployment (redact CharClasses.ascii) (tokenWorld token)
    (DB.withRun "run" "payments")

def tokenHandling (token : String) : Handling := ⟨.runnerResume "acme" "run", (tokenPlay token).1⟩

theorem handled_token (token : String) :
    Handled payerDeployment (redact CharClasses.ascii) (DB.withRun "run" "payments") [tokenHandling token]
      (tokenPlay token).2.2 :=
  handled_play payerDeployment (redact CharClasses.ascii) (tokenWorld token) _ _

theorem like_tokenHandling : (tokenHandling "x").Like (tokenHandling "y") := by
  have hsecret : AlikeUnder "token" (.str "x") (.str "y") := fun h => by
    exact absurd h (by decide)
  have htoken : Alike (.obj [("token", .str "x")]) (.obj [("token", .str "y")]) :=
    alike_obj (List.Forall₂.cons ⟨rfl, hsecret⟩ List.Forall₂.nil)
  have hrun : ∀ run : Run, run.Like run := fun run =>
    ⟨rfl, rfl, rfl, rfl, rfl, rfl, rfl, .refl _, .refl _, .refl _⟩
  have hasks : ∀ call : ToolCall, call.Like call := fun call => ⟨rfl, rfl, .refl _⟩
  exact ⟨.same _, .cons (Option.Rel.some (hrun _)) (.cons HEq.rfl (.cons
    ⟨rfl, rfl, .some (.cons (hasks _) .nil), .none⟩ (.cons HEq.rfl (.cons htoken (.cons
      ⟨rfl, rfl, .none, .some (.refl _)⟩ (.cons HEq.rfl .nil))))))⟩

theorem covered_tokenHandling : (tokenHandling "x").Covered (tokenHandling "y") := by
  refine ⟨fun _ => rfl, ?_⟩
  exact .cons trivial (.cons trivial (.cons (fun _ => rfl) (.cons trivial (.cons trivial (.cons (fun _ => rfl)
    (.cons trivial .nil))))))

/-- What is stored of an answer that is a token. -/
theorem redact_tokenResult (token : String) :
    redact CharClasses.ascii (.obj [("tool", .str "pay"), ("result", .obj [("token", .str token)])]) =
      .obj [("tool", .str "pay"), ("result", .obj [("token", .str redacted)])] := by
  have hpay : scrubStr CharClasses.ascii "pay" = "pay" :=
    scrubStr_eq _ (by decide) (by decide) (by decide) (by decide)
  have htool : isSecretKey "tool" = false := by decide
  have hresult : isSecretKey "result" = false := by decide
  have htoken : isSecretKey "token" = true := by decide
  simp [redact, redactFields, hpay, htool, hresult, htoken]

/-- Two executions in which the agent's tool answers with another token: the events of both say that there
was one, and nothing stored says which. -/
theorem columns_same_token :
    (.obj [("tool", .str "pay"), ("result", .obj [("token", .str redacted)])]) ∈
        (tokenPlay "x").2.2.columns.payloads ∧
      (tokenPlay "x").2.2.columns = (tokenPlay "y").2.2.columns := by
  refine ⟨?_, columns_same (.cons like_tokenHandling .nil) (.cons covered_tokenHandling .nil) rfl
    (handled_token "x") (handled_token "y")⟩
  rw [← redact_tokenResult "x"]
  exact .tail _ (.tail _ (.tail _ (.head _)))

end Examples

end Bass
