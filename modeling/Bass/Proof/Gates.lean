import Bass.Interaction.Trace
import Bass.Proof.Decisions
import Bass.Proof.RequestInvariant

/-!
# Approvals of one gate

A driver without an approval callback looks the latest approval of the gate up and requests one when
there is none, in two transactions. What another driver does in between decides whether the gate gets
a second approval, and with it whether a decision about the first one is ever read.
-/

namespace Bass

open Interaction EngineM

/-! ### What the approvals are about -/

/-- A gate: the tenant, the run and the step. -/
abbrev Gate : Type := String × String × String

def ApprovalRow.gate (row : ApprovalRow) : Gate := (row.tenantId, row.runId, row.stepId)

/-- The gates of the stored approvals, one entry for each approval. -/
def DB.gates (db : DB) : List Gate := db.approvals.rows.map ApprovalRow.gate

/-- The gate that a call gives an approval to. -/
def Op.opened : (op : Op) → op.Res → Option Gate
  | .createApproval tenantId runId stepId _, .ok _ => some (tenantId, runId, stepId)
  | _, _ => none

def openedBy : Pool.Label Request Call Call.Res → Option Gate
  | .call _ call answer => call.op.opened answer
  | _ => none

/-- The gates that the drivers gave approvals to, in order. -/
def openedGates (labels : List (Pool.Label Request Call Call.Res)) : List Gate :=
  labels.filterMap openedBy

section Store

variable {policy : PolicyEngine} {redact : Json → Json} {db db' : DB}

/-- A call adds the gate that it opens, and a decision moves no approval to another gate. -/
theorem gates_of_step {op : Op} {answer : op.Res} (h : op.step policy redact db answer db') :
    db'.gates = db.gates ++ (op.opened answer).toList := by
  by_cases hop : ∃ tenantId runId stepId approvers, op = .createApproval tenantId runId stepId approvers
  · obtain ⟨tenantId, runId, stepId, approvers, rfl⟩ := hop
    obtain ⟨approvalId, now, hcommits⟩ := h
    rcases commits_map_cases hcommits with ⟨hcreated, rfl⟩ | ⟨e, -, rfl, rfl⟩
    · rw [DB.gates, (DB.createApproval_ok hcreated).2.1, List.map_append]
      rfl
    · exact (List.append_nil _).symm
  · have hclosed : op.opened answer = none := by
      cases op with
      | createApproval tenantId runId stepId approvers => exact absurd ⟨_, _, _, _, rfl⟩ hop
      | _ => rfl
    rw [hclosed, Option.toList_none, List.append_nil]
    unfold DB.gates
    rcases approvals_cases h with hsame | ⟨_, _, _, _, _, _, heq, -⟩ | ⟨_, _, _, _, _, _, -, hra⟩
    · rw [hsame]
    · cases heq
      exact absurd ⟨_, _, _, _, rfl⟩ hop
    · obtain ⟨f, hf, hdecided⟩ := (DB.resolveApproval_ok hra).1
      have hgate : ApprovalRow.gate ∘ f = ApprovalRow.gate := by
        funext row
        obtain ⟨-, hrun, htenant, hstep, -⟩ := hf row
        rw [Function.comp_apply, ApprovalRow.gate, ApprovalRow.gate, htenant, hrun, hstep]
      rw [hdecided, List.map_map, hgate]

/-- Nothing is looked up for a gate that has no approval, and only then nothing. -/
theorem latestApproval_eq_none {tenantId runId stepId : String} :
    db.latestApproval tenantId runId stepId = none ↔ (tenantId, runId, stepId) ∉ db.gates := by
  have hrows : db.latestApproval tenantId runId stepId = none ↔ (db.approvals.rows.filter fun row =>
      row.runId = runId ∧ row.tenantId = tenantId ∧ row.stepId = stepId) = [] := by
    rw [DB.latestApproval, Option.map_eq_none_iff]
    constructor
    · intro hnone
      cases hfilter : (db.approvals.rows.filter fun row =>
          row.runId = runId ∧ row.tenantId = tenantId ∧ row.stepId = stepId) with
      | nil => rfl
      | cons row rows =>
          rw [hfilter] at hnone
          exact absurd hnone (latest_cons row rows)
    · intro hnil
      rw [hnil]
      rfl
  rw [hrows, List.filter_eq_nil_iff, DB.gates, List.mem_map]
  constructor
  · rintro hnone ⟨row, hmem, hgate⟩
    obtain ⟨htenant, hrun, hstep⟩ : row.tenantId = tenantId ∧ row.runId = runId ∧ row.stepId = stepId := by
      simpa [ApprovalRow.gate] using hgate
    exact hnone row hmem (by simp [htenant, hrun, hstep])
  · intro hnone row hmem hsame
    obtain ⟨hrun, htenant, hstep⟩ := of_decide_eq_true hsame
    exact hnone ⟨row, hmem, by rw [ApprovalRow.gate, htenant, hrun, hstep]⟩

/-- The only approval of a gate is its latest. -/
theorem latestApproval_of_count {tenantId runId stepId : String} {row : ApprovalRow}
    (hmem : row ∈ db.approvals.rows) (hgate : row.gate = (tenantId, runId, stepId))
    (hcount : db.gates.count (tenantId, runId, stepId) ≤ 1) :
    db.latestApproval tenantId runId stepId = some (row.id, row.status) := by
  have hlength : (db.approvals.rows.filter fun row =>
      row.runId = runId ∧ row.tenantId = tenantId ∧ row.stepId = stepId).length =
        db.gates.count (tenantId, runId, stepId) := by
    rw [DB.gates, List.count_eq_countP, List.countP_map, List.countP_eq_length_filter]
    congr 2
    funext row
    simp only [ApprovalRow.gate, Function.comp_apply, beq_eq_decide, Prod.mk.injEq]
    congr 1
    exact propext and_left_comm
  have hkept : row ∈ db.approvals.rows.filter fun row =>
      row.runId = runId ∧ row.tenantId = tenantId ∧ row.stepId = stepId := by
    obtain ⟨rfl, hrest⟩ := Prod.mk.inj hgate
    obtain ⟨rfl, rfl⟩ := Prod.mk.inj hrest
    exact List.mem_filter.mpr ⟨hmem, by simp⟩
  rw [DB.latestApproval]
  generalize (db.approvals.rows.filter fun row =>
    row.runId = runId ∧ row.tenantId = tenantId ∧ row.stepId = stepId) = rows at hlength hkept ⊢
  cases rows with
  | nil => exact absurd hkept List.not_mem_nil
  | cons first rows =>
      obtain rfl : rows = [] := by
        rw [← hlength, List.length_cons] at hcount
        exact List.eq_nil_of_length_eq_zero (by omega)
      obtain rfl := List.mem_singleton.mp hkept
      rfl

end Store

/-! ### Looking up before creating -/

/-- Before an approval is created its gate has been looked up, in the call before, and nothing was
found. -/
def LookedUp (before : Trail) (call : Call) : Prop :=
  ∀ tenantId runId stepId approvers, call.op = .createApproval tenantId runId stepId approvers →
    ∃ earlier m, before = earlier ++ [⟨⟨m, .latestApproval tenantId runId stepId⟩, none⟩]

section Engine

variable {ok : (call : Call) → call.Res → Prop} {cfg : EngineConfig}

/-- A call that creates no approval owes nothing. -/
theorem lookedUp_of_ne {before : Trail} {call : Call}
    (h : ∀ tenantId runId stepId approvers, call.op ≠ .createApproval tenantId runId stepId approvers) :
    LookedUp before call :=
  fun tenantId runId stepId approvers heq => absurd heq (h tenantId runId stepId approvers)

theorem lookedUp_perform {op : Op}
    (h : ∀ tenantId runId stepId approvers, op ≠ .createApproval tenantId runId stepId approvers) :
    Act.Keeps (.history ok LookedUp) (fun _ _ => True) (perform op) :=
  Act.keeps_perform fun _ _ _ _ _ => ⟨lookedUp_of_ne h, fun _ _ _ => trivial⟩

theorem lookedUp_checkpoint : Act.Keeps (.history ok LookedUp) (fun _ _ => True) EngineM.checkpoint :=
  keeps_checkpoint_call fun _ _ _ _ _ =>
    ⟨lookedUp_of_ne (fun _ _ _ _ heq => nomatch heq), fun _ _ _ => ⟨trivial, trivial⟩⟩

theorem lookedUp_awaitAsync (step : Step) (approvers : List String) (tool : String) (args : Args) :
    Act.Keeps (.history ok LookedUp) (fun _ _ => True)
      (WorkflowEngine.awaitAsync step approvers tool args) := by
  intro m before _
  refine (wp_getRun_bind _).mpr ((Act.wp_perform_history _ _).mpr ⟨?_, fun latest _ => ?_⟩)
  · exact lookedUp_of_ne fun _ _ _ _ heq => nomatch heq
  cases latest with
  | none =>
      refine (Act.wp_perform_history _ _).mpr ⟨?_, fun created _ => ?_⟩
      · rintro tenantId runId stepId approvers' heq
        cases heq
        exact ⟨before, m, rfl⟩
      · refine (Act.wp_ofExcept_bind _ _).mpr ?_
        cases created with
        | error e => trivial
        | ok approvalId =>
            refine (wp_modifyRun_bind _ _).mpr ((wp_emit_bind _ _ _ _ _ _).mpr ((Act.wp_bind _ _).mpr ?_))
            exact lookedUp_checkpoint _ _ trivial
  | some found =>
      obtain ⟨approvalId, status⟩ := found
      dsimp only
      split
      · refine (wp_modifyRun_bind _ _).mpr ((Act.wp_bind _ _).mpr ?_)
        exact lookedUp_checkpoint _ _ trivial
      · exact (wp_emit_bind _ _ _ _ _ _).mpr trivial

/-- The engine without an approval callback looks up before it creates. -/
theorem lookedUp_engineInv (hasync : cfg.approvalFn = false) (wf : Workflow) :
    EngineInv cfg wf (.history ok LookedUp) fun _ _ => True := by
  have hawait : ∀ step approvers tool args, Act.Keeps (.history ok LookedUp) (fun _ _ => True)
      (WorkflowEngine.awaitApproval cfg step approvers tool args) := by
    intro step approvers tool args
    rw [WorkflowEngine.awaitApproval, if_neg (by simp [hasync])]
    exact lookedUp_awaitAsync step approvers tool args
  have hacting : ∀ op : Op, op.Acting →
      Act.Keeps (.history ok LookedUp) (fun _ _ => True) (perform op) := by
    intro op hop
    refine lookedUp_perform fun _ _ _ _ heq => ?_
    rw [heq] at hop
    exact hop
  exact {
    memory := fun _ _ _ _ _ => trivial
    output := fun _ _ _ _ _ _ _ => trivial
    respond := fun _ _ _ => hacting _ trivial
    execCall := fun agent _ call =>
      keeps_execCall (fun _ _ _ _ _ _ => trivial) (fun op hop _ => hacting op hop) agent call
    await := hawait
    tool := fun step _ _ =>
      leaves_runTool (fun _ _ _ _ => trivial) (fun _ _ _ _ _ => trivial) hacting hawait step
    count := fun _ _ _ => trivial
    span := fun _ => lookedUp_perform (by rintro _ _ _ _ ⟨⟩)
    failed := savedIn_of_keeps lookedUp_checkpoint _
    checkpoint := lookedUp_checkpoint }

theorem lookedUp_program {d : Deployment} (hasync : d.engine.approvalFn = false) (request : Request)
    (before : Trail) : (request.program d).wp (.history ok LookedUp) (fun _ _ => True) before := by
  have hservice : ∀ op : Op, op.Service →
      Act.Keeps (.history ok LookedUp) (fun _ _ => True) (perform op) := by
    intro op hop
    refine lookedUp_perform fun _ _ _ _ heq => ?_
    rw [heq] at hop
    exact hop
  have hwithout : ∀ wf, EngineInv d.engine.asynchronous wf (.history ok LookedUp) fun _ _ => True :=
    lookedUp_engineInv rfl
  exact respects_program hservice (fun wf => (lookedUp_engineInv hasync wf).resume)
    (fun wf => (hwithout wf).resume) request trivial

end Engine

section Interleaving

variable {d : Deployment} {redact : Json → Json} {c c' : System}
  {labels : List (Pool.Label Request Call Call.Res)}

theorem gates_of_run (hrun : System.Run d redact c labels c') :
    c'.shared.gates = c.shared.gates ++ openedGates labels := by
  induction hrun with
  | nil c => exact (List.append_nil _).symm
  | @cons c c₁ c' label labels head _ ih =>
      have hfirst : c₁.shared.gates = c.shared.gates ++ (openedBy label).toList := by
        cases head with
        | call hthread hstep => exact gates_of_step hstep
        | spawn | crash => exact (List.append_nil _).symm
        | env henv => exact False.elim henv
      rw [ih, hfirst, List.append_assoc]
      congr 1
      cases hopened : openedBy label <;> simp [openedGates, hopened]

/-- What a driver looked up and did not find is still missing when the driver creates it: no other
driver has created an approval for the gate in between. -/
def LookupsStand (labels : List (Pool.Label Request Call Call.Res)) : Prop :=
  ∀ before between after i m m' tenantId runId stepId approvers approvalId,
    labels = before ++ .call i ⟨m, .latestApproval tenantId runId stepId⟩ none ::
      (between ++ .call i ⟨m', .createApproval tenantId runId stepId approvers⟩ (.ok approvalId) :: after) →
    Pool.trace i between = [] → (tenantId, runId, stepId) ∉ openedGates between

/-- No gate is given two approvals, and an approval that was created for a gate is the one that is
looked up there, in whatever way it has been decided. -/
def SingleApprovals (labels : List (Pool.Label Request Call Call.Res)) (db : DB) : Prop :=
  (openedGates labels).Nodup ∧
    ∀ i m tenantId runId stepId approvers approvalId,
      .call i ⟨m, .createApproval tenantId runId stepId approvers⟩ (.ok approvalId) ∈ labels →
      ∃ row, db.approvals.find? approvalId = some row ∧
        db.latestApproval tenantId runId stepId = some (approvalId, row.status)

/-- A gate that is given an approval had none before. -/
theorem opened_fresh {db₀ : DB} (hasync : d.engine.approvalFn = false)
    {before after : List (Pool.Label Request Call Call.Res)} {i : Nat} {m : Mem}
    {tenantId runId stepId approvalId : String} {approvers : List String}
    (hrun : System.Run d redact ⟨[], db₀⟩ (before ++
      .call i ⟨m, .createApproval tenantId runId stepId approvers⟩ (.ok approvalId) :: after) c)
    (hstands : LookupsStand (before ++
      .call i ⟨m, .createApproval tenantId runId stepId approvers⟩ (.ok approvalId) :: after)) :
    (tenantId, runId, stepId) ∉ db₀.gates ++ openedGates before := by
  obtain ⟨earlier, m', htrace⟩ :=
    hrun.owed (Pool.trace_call _ _ _ _ _) (fun request => lookedUp_program hasync request [])
      tenantId runId stepId approvers rfl
  obtain ⟨first, between, rfl, hquiet⟩ := Pool.trace_concat htrace
  rw [List.append_assoc, List.cons_append] at hrun
  have hclosed := hstands first between after i m' m tenantId runId stepId approvers approvalId
    (by rw [List.append_assoc, List.cons_append]) hquiet
  obtain ⟨c₁, hfirst, hrest⟩ := hrun.split
  have hgates := gates_of_run hfirst
  cases hrest with
  | cons head tail =>
      cases head with
      | call hthread hstep =>
          have hnone := latestApproval_eq_none.mp hstep.1.symm
          rw [hgates] at hnone
          rw [openedGates, List.filterMap_append, List.filterMap_cons_none rfl, ← List.append_assoc,
            List.mem_append]
          exact fun hmem => hmem.elim hnone hclosed

/-- The approval is stored, and for this gate. -/
def DB.HasApproval (db : DB) (approvalId : String) (gate : Gate) : Prop :=
  ∃ row, db.approvals.find? approvalId = some row ∧ row.gate = gate

/-- Approvals are never deleted and never change their gate. -/
theorem hasApproval_of_run (hrun : System.Run d redact c labels c') {approvalId : String} {gate : Gate}
    (h : c.shared.HasApproval approvalId gate) : c'.shared.HasApproval approvalId gate := by
  refine hrun.shared (P := fun db db' => db.HasApproval approvalId gate → db'.HasApproval approvalId gate)
    (fun _ h => h) (fun _ _ _ h h' hdb => h' (h hdb)) ?_ (fun _ _ henv => False.elim henv) h
  rintro db call answer db' hstep ⟨row, hrow, hgate⟩
  rcases approvalRow_of_step hstep hrow with hsame | ⟨approved, decidedBy, note, now, -, hresolved⟩
  · exact ⟨row, hsame, hgate⟩
  · exact ⟨row.resolved approved decidedBy note now, hresolved, hgate⟩

/-- An approval that was created on the way is still there in the end. -/
theorem hasApproval_of_created (hrun : System.Run d redact c labels c') {i : Nat} {m : Mem}
    {tenantId runId stepId approvalId : String} {approvers : List String}
    (hmem : .call i ⟨m, .createApproval tenantId runId stepId approvers⟩ (.ok approvalId) ∈ labels) :
    c'.shared.HasApproval approvalId (tenantId, runId, stepId) := by
  obtain ⟨before, after, rfl⟩ := List.append_of_mem hmem
  obtain ⟨c₁, -, hrest⟩ := hrun.split
  cases hrest with
  | cons head tail =>
      refine hasApproval_of_run tail ?_
      cases head with
      | call hthread hstep =>
          obtain ⟨drawn, now, hcommits⟩ := hstep
          rcases commits_map_cases hcommits with ⟨hcreated, heq⟩ | ⟨e, -, heq, -⟩
          · obtain rfl := Except.ok.inj heq
            obtain ⟨hfree, hrows, -⟩ := DB.createApproval_ok hcreated
            refine ⟨⟨approvalId, runId, tenantId, stepId, .pending, approvers, none, none, now 0, none⟩, ?_, rfl⟩
            rw [Table.find?] at hfree ⊢
            rw [hrows, List.find?_append, hfree]
            simp
          · cases heq

/-- What opens a gate is the creation of an approval for it. -/
theorem creation_of_opened {label : Pool.Label Request Call Call.Res} {gate : Gate}
    (h : openedBy label = some gate) : ∃ i m approvers approvalId,
      label = .call i ⟨m, .createApproval gate.1 gate.2.1 gate.2.2 approvers⟩ (.ok approvalId) := by
  cases label with
  | call i call answer =>
      obtain ⟨m, op⟩ := call
      cases op with
      | createApproval tenantId runId stepId approvers =>
          cases answer with
          | ok approvalId =>
              cases h
              exact ⟨i, m, approvers, approvalId, rfl⟩
          | error e => cases h
      | _ => cases h
  | spawn | crash | env => cases h

/-- Gates that are only opened while they are closed are opened once. -/
theorem nodup_openedGates
    (h : ∀ before label after gate, labels = before ++ label :: after → openedBy label = some gate →
      gate ∉ openedGates before) : (openedGates labels).Nodup := by
  induction labels using List.reverseRecOn with
  | nil => exact List.nodup_nil
  | append_singleton labels label ih =>
      have hbefore : (openedGates labels).Nodup := by
        refine ih fun before label' after gate heq => ?_
        exact h before label' (after ++ [label]) gate (by rw [heq, List.append_assoc, List.cons_append])
      have hsplit : openedGates (labels ++ [label]) = openedGates labels ++ (openedBy label).toList := by
        rw [openedGates, List.filterMap_append]
        cases hopened : openedBy label <;> simp [openedGates, hopened]
      rw [hsplit]
      cases hopened : openedBy label with
      | none => rwa [Option.toList_none, List.append_nil]
      | some gate =>
          rw [Option.toList_some, ← List.concat_eq_append]
          exact List.Nodup.concat (h labels label [] gate rfl hopened) hbefore

/-- A lookup that another creation overtakes opens its gate again. -/
theorem lookupsStand_of_nodup (hnodup : (openedGates labels).Nodup) : LookupsStand labels := by
  rintro before between after i m m' tenantId runId stepId approvers approvalId rfl - hmem
  rw [openedGates, List.filterMap_append, List.filterMap_cons_none rfl, List.filterMap_append] at hnodup
  have hinner := (List.nodup_append.mp hnodup).2.1
  have hlast : (tenantId, runId, stepId) ∈ openedGates
      (.call i ⟨m', .createApproval tenantId runId stepId approvers⟩ (.ok approvalId) :: after) :=
    List.mem_filterMap.mpr ⟨_, List.mem_cons_self, rfl⟩
  exact (List.nodup_append.mp hinner).2.2 _ hmem _ hlast rfl

/-- Drivers without an approval callback give every gate at most one approval, the one that all of them
go by from then on, if and only if no lookup is overtaken by another driver's creation. -/
theorem gate_approved_once_iff {db₀ : DB} (hasync : d.engine.approvalFn = false)
    (hrun : System.Run d redact ⟨[], db₀⟩ labels c) :
    SingleApprovals labels c.shared ↔ LookupsStand labels := by
  constructor
  · rintro ⟨hnodup, -⟩
    exact lookupsStand_of_nodup hnodup
  · intro hstands
    have hfresh : ∀ before label after gate, labels = before ++ label :: after →
        openedBy label = some gate → gate ∉ db₀.gates ++ openedGates before := by
      rintro before label after ⟨tenantId, runId, stepId⟩ rfl hopened
      obtain ⟨i, m, approvers, approvalId, rfl⟩ := creation_of_opened hopened
      exact opened_fresh hasync hrun hstands
    have hnodup : (openedGates labels).Nodup := by
      refine nodup_openedGates fun before label after gate heq hopened hmem => ?_
      exact hfresh before label after gate heq hopened (List.mem_append_right _ hmem)
    refine ⟨hnodup, fun i m tenantId runId stepId approvers approvalId hmem => ?_⟩
    obtain ⟨row, hrow, hgate⟩ := hasApproval_of_created hrun hmem
    obtain rfl : row.id = approvalId := Table.key_of_find? hrow
    refine ⟨row, hrow, latestApproval_of_count (Table.mem_of_find? hrow) hgate ?_⟩
    obtain ⟨before, after, heq⟩ := List.append_of_mem hmem
    have hnew : (tenantId, runId, stepId) ∉ db₀.gates := fun hold =>
      hfresh before _ after _ heq rfl (List.mem_append_left _ hold)
    calc
      c.shared.gates.count (tenantId, runId, stepId)
        = db₀.gates.count (tenantId, runId, stepId) +
            (openedGates labels).count (tenantId, runId, stepId) := by
          rw [gates_of_run hrun, List.count_append]
      _ = (openedGates labels).count (tenantId, runId, stepId) := by
          rw [List.count_eq_zero.mpr hnew, Nat.zero_add]
      _ ≤ 1 := List.nodup_iff_count_le_one.mp hnodup _

end Interleaving

/-! ### Two workers at one gate -/

/-- A world that draws two approval ids. -/
def twoIds : World :=
  { World.constant .null with
    newId := fun db => if db.approvals.rows.isEmpty then "appr_000000000000" else "appr_000000000001" }

/-- Two workers resume the same run, each for `n` calls, and then go on one after the other. -/
def twoWorkers (n : Nat) : List (Pool.Label Request Call Call.Res) × System :=
  System.play waitingDeployment id twoIds
    (.spawn (.runnerResume "acme" "run") :: .spawn (.runnerResume "acme" "run") ::
      List.replicate n (.call 0) ++ List.replicate n (.call 1) ++ List.replicate 5 (.call 0) ++
        List.replicate 5 (.call 1))
    ⟨[], DB.withRun "run" "payments"⟩

/-- The second worker finds the approval that the first one has created. -/
theorem gate_approved_once_inTurn :
    openedGates (twoWorkers 5).1 = [("acme", "run", "gate")] ∧
      SingleApprovals (twoWorkers 5).1 (twoWorkers 5).2.shared := by
  have hopened : openedGates (twoWorkers 5).1 = [("acme", "run", "gate")] := by decide +kernel
  have hstands : LookupsStand (twoWorkers 5).1 := by
    apply lookupsStand_of_nodup
    rw [hopened]
    exact List.nodup_singleton _
  exact ⟨hopened, (gate_approved_once_iff rfl (System.play_run _ _ _ _ _)).mpr hstands⟩

/-- Two workers look the gate up before either creates an approval; the first approval is approved. -/
def decidedFirst : List (Pool.Label Request Call Call.Res) × System :=
  System.play waitingDeployment id twoIds
    (.spawn (.apiResolve "acme" "run" "appr_000000000000" true "alice" "") :: List.replicate 9 (.call 2))
    (twoWorkers 3).2

/-- Both workers give the gate an approval, and the decision about the first one is ignored. -/
theorem decision_ignored :
    System.Run waitingDeployment id ⟨[], DB.withRun "run" "payments"⟩
        ((twoWorkers 3).1 ++ decidedFirst.1) decidedFirst.2 ∧
      openedGates (twoWorkers 3).1 = [("acme", "run", "gate"), ("acme", "run", "gate")] ∧
      (decidedFirst.2.shared.approvals.find? "appr_000000000000").map ApprovalRow.status =
        some .approved ∧
      decidedFirst.2.shared.latestApproval "acme" "run" "gate" = some ("appr_000000000001", .pending) ∧
      (decidedFirst.2.shared.runs.find? "run").map RunRow.status = some .waitingApproval :=
  ⟨(System.play_run _ _ _ _ _).append (System.play_run _ _ _ _ _), by decide +kernel, by decide +kernel,
    by decide +kernel, by decide +kernel⟩

end Bass
