import Bass.Proof.Visits

/-!
# Visits of a run without interruption

The ledger is keyed by the run, the step and the tool, and not by the visit. The first visit to a
mutating tool step executes its tool on the arguments the context gives at the entry; a later visit,
on a cycle of the graph, finds the result of the first one in the ledger and takes it over.
-/

namespace Bass

open Interaction EngineM

variable {cfg : EngineConfig} {wf : Workflow} {redact : Json → Json}

/-- The engine moves on from a visit with these calls: what comes next is the entry into another
step, or the last of them has committed the success of the run. -/
def MovesOn (calls rest : Trail) : Prop :=
  (∃ m step after, rest = ⟨⟨m, .stepSpan step⟩, ()⟩ :: after) ∨
    ∃ work m run events, calls = work ++ [⟨⟨m, .checkpoint run events⟩, .ok ()⟩] ∧
      run.status = .succeeded

/-- The last call of the visit in progress, if there is one, has committed its end. -/
def Closed (cfg : EngineConfig) (trail : Trail) : Prop :=
  ∀ visit, lastVisit trail = some visit → ∃ work m run events,
    visit.calls = work ++ [⟨⟨m, .checkpoint run events⟩, .ok ()⟩] ∧
      Concluded cfg ⟨visit.entry, visit.step, work⟩ run

theorem reopens_closed : Reopens cfg (Closed cfg) := by
  intro trail visit m hlast hconcluded visit' hlast'
  have hne : ∀ step, Op.checkpoint m.run m.buffer ≠ .stepSpan step := fun _ heq => nomatch heq
  rw [lastVisit_concat hne, hlast] at hlast'
  cases hlast'
  exact ⟨visit.calls, m, m.run, m.buffer, rfl, hconcluded⟩

section Run

variable {m : Mem} {db db' : DB} {p : Driver (Except Exc Unit × Mem)}

/-- Every call of a run of the engine is made as the visits before it demand. -/
theorem visitCall_of_exec {before after : Trail} {call : Call} {answer : call.Res}
    (hexec : Prog.Exec (Call.step cfg.policy redact) ((WorkflowEngine.resume cfg wf).exec m) db
      (before ++ ⟨call, answer⟩ :: after) p db') :
    ∃ db₁, VisitCall cfg (Closed cfg) (db₁, before) call := by
  have hwp : Act.wp (visitSpec cfg redact (Closed cfg)) (WorkflowEngine.resume cfg wf)
      (fun _ _ _ => True) (fun _ _ _ => True) m (db, []) :=
    visited_resume reopens_closed m fun _ hlast => nomatch hlast
  obtain ⟨p₁, x₁, x₂, hbefore, hguar, -⟩ := (hexec.recorded []).guaranteed hwp
  have htrail : x₁.2 = before := hbefore.eq_append
  exact ⟨x₁.1, by rw [← htrail]; exact hguar⟩

/-- A visit from which the engine moves on has been concluded and committed. -/
theorem concluded_of_movesOn {m₀ : Mem} {step : Step} {before calls rest : Trail}
    (hexec : Prog.Exec (Call.step cfg.policy redact) ((WorkflowEngine.resume cfg wf).exec m) db
      (before ++ ⟨⟨m₀, .stepSpan step⟩, ()⟩ :: calls ++ rest) p db')
    (hinside : Inside calls) (hon : MovesOn calls rest) :
    ∃ work m₁ run events, calls = work ++ [⟨⟨m₁, .checkpoint run events⟩, .ok ()⟩] ∧
      Concluded cfg ⟨m₀, step, work⟩ run := by
  have hvisit : ∀ work, Inside work →
      lastVisit (before ++ ⟨⟨m₀, .stepSpan step⟩, ()⟩ :: work) = some ⟨m₀, step, work⟩ := by
    intro work hwork
    rw [List.append_cons, lastVisit_append hwork, lastVisit_span]
    rfl
  rcases hon with ⟨m', step', after, rfl⟩ | ⟨work, m₁, run, events, rfl, hsucceeded⟩
  · obtain ⟨db₁, hclosed⟩ := visitCall_of_exec hexec
    exact hclosed _ (hvisit calls hinside)
  · rw [← List.cons_append, ← List.append_assoc, List.append_assoc, List.singleton_append] at hexec
    obtain ⟨db₁, hcommit⟩ := visitCall_of_exec hexec
    obtain ⟨visit, hlast, hconcluded⟩ := hcommit (Or.inr hsucceeded)
    rw [hvisit work fun event hevent => hinside event (List.mem_append_left _ hevent)] at hlast
    cases hlast
    exact ⟨work, m₁, run, events, rfl, hconcluded⟩

/-- A value in the ledger was there before the run of calls or was recorded by one of them. -/
theorem recorded_of_exec {α : Type} {policy : PolicyEngine} {q q' : Driver α} {calls : Trail}
    {key : String} {row : EffectRow}
    (hexec : Prog.Exec (Call.step policy redact) q db calls q' db')
    (hrow : db'.toolEffects.find? key = some row) :
    db.toolEffects.find? key = some row ∨ ∃ m tenantId runId stepId tool,
      ⟨⟨m, .recordEffect tenantId key runId stepId tool row.resultJson⟩, ()⟩ ∈ calls := by
  induction hexec with
  | nil q db => exact Or.inl hrow
  | @cons call next db db₁ db' answer calls q' head _ ih =>
      rcases ih hrow with hmiddle | ⟨m, tenantId, runId, stepId, tool, hmem⟩
      · obtain ⟨m, op⟩ := call
        rcases effects_of_step head with hsame |
          ⟨tenantId, key', runId, stepId, tool, result, now, rfl, hinsert⟩
        · rw [hsame] at hmiddle
          exact Or.inl hmiddle
        · cases hfind : db.toolEffects.find? key with
          | some old =>
              rw [hinsert, Table.find?_insert_of_some _ hfind] at hmiddle
              exact Or.inl hmiddle
          | none =>
              by_cases hkey : key' = key
              · subst hkey
                have hself := Table.find?_insert_self db.toolEffects
                  ⟨key', runId, tenantId, some stepId, tool, result, now⟩
                rw [← hinsert, hmiddle, hfind] at hself
                cases hself
                exact Or.inr ⟨m, tenantId, runId, stepId, tool, List.mem_cons_self⟩
              · rw [hinsert, Table.find?_insert_of_ne _ hkey, hfind] at hmiddle
                cases hmiddle
      · exact Or.inr ⟨m, tenantId, runId, stepId, tool, List.mem_cons_of_mem _ hmem⟩

theorem row_of_getEffect {tenantId key : String} {value : Json}
    (h : db.getEffect tenantId key = .ok value) (hvalue : value ≠ .null) :
    ∃ row, db.toolEffects.find? key = some row ∧ row.resultJson = value := by
  unfold DB.getEffect at h
  split at h
  · cases h
    exact absurd rfl hvalue
  · rename_i row hrow
    split at h
    · cases h
      exact ⟨row, hrow, rfl⟩
    · cases h

/-- What a visit to a mutating tool step has done, entered in `m₀` after the calls `before` of a run
that began with the database `db`. With nothing under its key in the ledger the tool has been executed,
on the arguments resolved at the entry and no others, and its result is the output of the step.
Otherwise it has not been executed, and the output is the value that was recorded before. -/
def MutatingVisit (db : DB) (before : Trail) (m₀ : Mem) (step : Step) (calls : Trail) : Prop :=
  ∃ (work : Trail) (m₁ : Mem) (run : Run) (events : List Event) (name : String) (args : Args)
    (value : Json),
    calls = work ++ [⟨⟨m₁, .checkpoint run events⟩, .ok ()⟩] ∧ step.tool = some name ∧
    resolve step.args m₀.run.context = .ok args ∧
    (∃ m₂, ⟨⟨m₂, .getEffect m₀.run.tenantId (ledgerKey m₀.run.id step.id name)⟩, .ok value⟩ ∈
      work) ∧
    if value.isNone then ∃ result,
      (∃ m₂, ⟨⟨m₂, .execute (.step step.id) name (Dict.set args "_idempotency_key"
        (.str (ledgerKey m₀.run.id step.id name)))⟩, .ok result⟩ ∈ work) ∧
      (∀ event ∈ work, ∀ caller tool sent, event.1.op = .execute caller tool sent →
        sent = Dict.set args "_idempotency_key" (.str (ledgerKey m₀.run.id step.id name))) ∧
      run.context = Dict.set m₀.run.context step.id result
    else
      (∀ event ∈ work, ∀ caller tool sent, event.1.op ≠ .execute caller tool sent) ∧
      ((∃ row, db.toolEffects.find? (ledgerKey m₀.run.id step.id name) = some row ∧
          row.resultJson = value) ∨
        ∃ m₂ tenantId runId stepId tool, ⟨⟨m₂, .recordEffect tenantId
          (ledgerKey m₀.run.id step.id name) runId stepId tool value⟩, ()⟩ ∈ before) ∧
      run.context = Dict.set m₀.run.context step.id value

/-- Every visit to a mutating tool step from which the engine moves on, on a cycle or not. -/
theorem mutating_visit {m₀ : Mem} {step : Step} {before calls rest : Trail}
    (hexec : Prog.Exec (Call.step cfg.policy redact) ((WorkflowEngine.resume cfg wf).exec m) db
      (before ++ ⟨⟨m₀, .stepSpan step⟩, ()⟩ :: calls ++ rest) p db')
    (hinside : Inside calls) (hon : MovesOn calls rest) (htype : step.nodeType = .tool)
    (hmutating : ∀ name tool, step.tool = some name → cfg.tools.get name = .ok tool →
      tool.sideEffect = true) :
    MutatingVisit db before m₀ step calls := by
  obtain ⟨work, m₁, run, events, rfl, hconcluded⟩ := concluded_of_movesOn hexec hinside hon
  have htool : ToolConcluded cfg step m₀ work run.context := hconcluded.tool htype
  obtain ⟨name, tool, args, output, hts, hcontext, hreplayed | hacted⟩ := htool
  · obtain ⟨-, hrecorded, m₂, rfl⟩ := hreplayed
    refine ⟨_, m₁, run, events, name, args, output, rfl, hts.named, hts.resolved,
      ⟨m₂, List.mem_singleton_self _⟩, ?_⟩
    rw [if_neg fun hnone => hrecorded (Json.isNone_iff.mp hnone)]
    refine ⟨fun event hevent caller tool' sent hop => ?_, ?_, hcontext⟩
    · rw [List.mem_singleton.mp hevent] at hop
      cases hop
    · rw [List.append_cons, List.append_assoc] at hexec
      obtain ⟨q, db₁, hbefore, hafter⟩ := hexec.split
      cases hafter with
      | cons head tail =>
          obtain ⟨row, hrow, hvalue⟩ := row_of_getEffect head.1.symm hrecorded
          subst hvalue
          rcases recorded_of_exec hbefore hrow with hold | ⟨m₃, tenantId, runId, stepId, tool', hmem⟩
          · exact Or.inl ⟨row, hold, rfl⟩
          · refine Or.inr ⟨m₃, tenantId, runId, stepId, tool', ?_⟩
            rcases List.mem_append.mp hmem with hmem | hspan
            · exact hmem
            · cases List.mem_singleton.mp hspan
  · have hside := hmutating name tool hts.named hts.found
    have hsent : sentArgs tool args (ledgerKey m₀.run.id step.id name) =
        Dict.set args "_idempotency_key" (.str (ledgerKey m₀.run.id step.id name)) := if_pos hside
    refine ⟨work, m₁, run, events, name, args, .null, rfl, hts.named, hts.resolved,
      hacted.looked hside, output, ?_, fun event hevent caller tool' sent hop => ?_, hcontext⟩
    · rw [← hsent]
      exact hacted.acted
    · rw [← hsent]
      exact (hacted.executed event hevent caller tool' sent hop).2.2

end Run

/-! ### A cycle -/

/-- A bill for the amount that the context calls for: more once a note has been taken. -/
def billStep : Step :=
  { id := "bill"
    nodeType := .tool
    tool := some "pay"
    args := Dict.ofList [("amount", .fn fun context =>
      .ok (if (context.get? "note").isSome then .int 2 else .int 1))]
    next := some "check" }

/-- Bill, take a note, bill again. -/
def billingWorkflow : Workflow :=
  { name := "billing"
    steps := Dict.ofList [("bill", billStep),
      ("check",
        { id := "check"
          nodeType := .branch
          branches := [(some fun context => .ok (context.get? "note").isSome, "stop")]
          next := some "note" }),
      ("note",
        { id := "note"
          nodeType := .tool
          tool := some "note"
          next := some "bill" }),
      ("stop",
        { id := "stop"
          nodeType := .terminate })]
    start := "bill"
    id := "billing" }

def billingEngine : EngineConfig :=
  { payDeployment.engine with
    tools :=
      { tools := Dict.ofList [("pay", payTool),
          ("note",
            { name := "note"
              connector := "bank" })]
        connectors := ["bank"]
        named := by decide
        connected := by decide } }

/-- The gate, if it was asked, allowed. -/
def allowed : Prog.Event Call Call.Res → Bool
  | ⟨⟨_, .policyCheck ..⟩, decision⟩ => decision.effect = .allow
  | _ => true

/-- Tools that answer with the amount they were given. -/
def echo : World :=
  { World.constant .null with
    execute := fun _ args => .ok ((args.get? "amount").getD (.str "noted"))
    raises := by simp }

/-- A run of the cycle, from its start to its success. -/
def billingRun : Trail × (Except Exc Unit × Mem) × DB :=
  playResume billingEngine billingWorkflow echo "run"

theorem billingRun_split (i n : Nat) {event : Prog.Event Call Call.Res}
    (hevent : billingRun.1[i]? = some event) :
    billingRun.1.take i ++ event :: ((billingRun.1.drop (i + 1)).take n) ++
      (billingRun.1.drop (i + 1)).drop n = billingRun.1 := by
  obtain ⟨hlt, rfl⟩ := List.getElem?_eq_some_iff.mp hevent
  rw [List.append_assoc, List.cons_append, List.take_append_drop, List.getElem_cons_drop,
    List.take_append_drop]

/-- The run, around the visit that begins with call number `i` and makes `n` more. -/
theorem billingRun_exec (i n : Nat) {event : Prog.Event Call Call.Res}
    (hevent : billingRun.1[i]? = some event) :
    Prog.Exec (Call.step billingEngine.policy id)
      ((WorkflowEngine.resume billingEngine billingWorkflow).exec
        ⟨(newRow "run" "billing").toRun, []⟩) (DB.withRun "run" "billing")
      (billingRun.1.take i ++ event :: ((billingRun.1.drop (i + 1)).take n) ++
        (billingRun.1.drop (i + 1)).drop n) (.pure billingRun.2.1) billingRun.2.2 := by
  rw [billingRun_split i n hevent]
  exact playResume_exec billingEngine billingWorkflow echo "run"

theorem inside_of_all {calls : Trail}
    (h : calls.all (fun event => match event.1.op with
      | .stepSpan _ => false
      | _ => true) = true) : Inside calls := by
  intro event hevent step hop
  have hspan := List.all_eq_true.mp h event hevent
  rw [hop] at hspan
  cases hspan

/-- The memory of call number `i`. -/
def billingRun_mem (i : Nat) : Mem :=
  ((billingRun.1[i]?).map (·.1.mem)).getD ⟨(newRow "run" "billing").toRun, []⟩

theorem billingRun_first :
    billingRun.1[0]? = some ⟨⟨billingRun_mem 0, .stepSpan billStep⟩, ()⟩ := by
  with_unfolding_all rfl

theorem billingRun_second :
    billingRun.1[12]? = some ⟨⟨billingRun_mem 12, .stepSpan billStep⟩, ()⟩ := by
  with_unfolding_all rfl

/-- The call after the one with number `n` of a trail enters a step. -/
def entersAt (trail : Trail) (n : Nat) : Bool :=
  match trail[n]? with
  | some ⟨⟨_, .stepSpan _⟩, _⟩ => true
  | _ => false

theorem movesOn_of_entersAt {calls trail : Trail} {n : Nat} (h : entersAt trail n = true) :
    MovesOn calls (trail.drop n) := by
  unfold entersAt at h
  split at h
  · rename_i m step answer hget
    obtain ⟨hlt, hevent⟩ := List.getElem?_eq_some_iff.mp hget
    exact Or.inl ⟨m, step, trail.drop (n + 1), by rw [← List.getElem_cons_drop hlt, hevent]⟩
  · cases h

theorem eq_int_of_any {value : Option Json} {n : Int}
    (h : value.any (fun v => match v with
      | .int k => k = n
      | _ => false) = true) : value = some (.int n) := by
  obtain ⟨v, rfl, hv⟩ := (Option.any_eq_true _ _).mp h
  cases v with
  | int k => rw [of_decide_eq_true hv]
  | _ => cases hv

theorem mutating_visit_billing :
    MutatingVisit (DB.withRun "run" "billing") [] (billingRun_mem 0) billStep
      ((billingRun.1.drop 1).take 5) := by
  refine mutating_visit (billingRun_exec 0 5 billingRun_first) (inside_of_all (by decide +kernel))
    (movesOn_of_entersAt (by decide +kernel)) rfl ?_
  rintro name tool ⟨rfl⟩ hget
  cases hget
  rfl

/-- A run of the cycle to its success, in which every gate allows. Its second visit is entered with
the amount 2 and left without an execution, and the output stays at the amount of the first. -/
def idle : Prog.Event Call Call.Res → Bool
  | ⟨⟨_, .execute ..⟩, _⟩ => false
  | _ => true

theorem revisit_not_executed_billing :
    ∃ (before : Trail) (m₀ : Mem) (calls rest : Trail) (m₁ : Mem) (db : DB) (args : Args),
      Prog.Exec (Call.step billingEngine.policy id)
        ((WorkflowEngine.resume billingEngine billingWorkflow).exec
          ⟨(newRow "run" "billing").toRun, []⟩) (DB.withRun "run" "billing")
        (before ++ ⟨⟨m₀, .stepSpan billStep⟩, ()⟩ :: calls ++ rest) (.pure (.ok (), m₁)) db ∧
      m₁.run.status = .succeeded ∧
      (∀ event ∈ before ++ ⟨⟨m₀, .stepSpan billStep⟩, ()⟩ :: calls ++ rest,
        allowed event = true) ∧
      resolve billStep.args m₀.run.context = .ok args ∧ args.get? "amount" = some (.int 2) ∧
      Inside calls ∧ MovesOn calls rest ∧
      (∀ event ∈ calls, ∀ caller tool sent, event.1.op ≠ .execute caller tool sent) ∧
      m₁.run.context.get? "bill" = some (.int 1) := by
  have hamount : (resolve billStep.args (billingRun_mem 12).run.context).toOption.bind
      (·.get? "amount") = some (.int 2) := eq_int_of_any (by decide +kernel)
  cases hargs : resolve billStep.args (billingRun_mem 12).run.context with
  | error e =>
      rw [hargs] at hamount
      cases hamount
  | ok args =>
      rw [hargs] at hamount
      have hend : billingRun.2.1 = (.ok (), billingRun.2.1.2) := by
        have hok : billingRun.2.1.1.toOption = some () := by decide +kernel
        cases hout : billingRun.2.1.1 with
        | ok value => exact Prod.ext hout rfl
        | error e =>
            rw [hout] at hok
            cases hok
      have hbill : billingRun.2.1.2.run.context.get? "bill" = some (.int 1) :=
        eq_int_of_any (by decide +kernel)
      have hexec := billingRun_exec 12 2 billingRun_second
      rw [hend] at hexec
      have hallowed : billingRun.1.all allowed = true := by decide +kernel
      have hidle : ((billingRun.1.drop 13).take 2).all idle = true := by decide +kernel
      refine ⟨_, _, _, _, _, _, args, hexec, by decide +kernel, ?_, hargs, hamount,
        inside_of_all (by decide +kernel), movesOn_of_entersAt (by decide +kernel), ?_, hbill⟩
      · rw [billingRun_split 12 2 billingRun_second]
        exact fun event hevent => List.all_eq_true.mp hallowed event hevent
      · intro event hevent caller tool sent hop
        have hexecute := List.all_eq_true.mp hidle event hevent
        obtain ⟨⟨m, op⟩, answer⟩ := event
        obtain rfl : op = .execute caller tool sent := hop
        cases hexecute

end Bass
