import Bass.Api
import Bass.Proof.Isolation
import Bass.Proof.StepCalls

/-!
# What a tenant learns of the others

Two databases that agree on the rows of one tenant are told apart by that tenant's requests only
through the keys that other tenants hold. A handler masks a foreign run as a missing one; the trace
handler answers for a missing run what it would answer for an empty one.
-/

namespace Bass

open Interaction EngineM

/-! ### Databases that agree on a tenant -/

section Lookups

variable {ρ : Type} {key owner : ρ → String} {t t' : Table key} {tenantId : String}

theorem find?_of_agree
    (h : t.rows.filter (fun row => owner row = tenantId) = t'.rows.filter fun row => owner row = tenantId)
    {k : String} {row : ρ} (hfind : t.find? k = some row) (howner : owner row = tenantId) :
    t'.find? k = some row := by
  have hmem : row ∈ t.rows.filter fun row => owner row = tenantId := by
    simp [Table.mem_of_find? hfind, howner]
  rw [h] at hmem
  rw [← Table.key_of_find? hfind]
  exact Table.find?_of_mem (List.mem_of_mem_filter hmem)

/-- A key leads to the same row of the tenant in both tables, or to no row of the tenant in either. -/
theorem lookup_cases
    (h : t.rows.filter (fun row => owner row = tenantId) = t'.rows.filter fun row => owner row = tenantId)
    (k : String) :
    (∃ row, t.find? k = some row ∧ t'.find? k = some row ∧ owner row = tenantId) ∨
      ((∀ row, t.find? k = some row → owner row ≠ tenantId) ∧
        ∀ row, t'.find? k = some row → owner row ≠ tenantId) := by
  by_cases hown : ∃ row, t.find? k = some row ∧ owner row = tenantId
  · obtain ⟨row, hfind, howner⟩ := hown
    exact Or.inl ⟨row, hfind, find?_of_agree h hfind howner, howner⟩
  · refine Or.inr ⟨fun row hfind howner => hown ⟨row, hfind, howner⟩, fun row hfind howner => ?_⟩
    exact hown ⟨row, find?_of_agree h.symm hfind howner, howner⟩

/-- The key is taken by a row of another tenant. -/
def HeldByOther (owner : ρ → String) (t : Table key) (tenantId k : String) : Prop :=
  ∃ row, t.find? k = some row ∧ owner row ≠ tenantId

theorem isSome_find?_of_agree
    (h : t.rows.filter (fun row => owner row = tenantId) = t'.rows.filter fun row => owner row = tenantId)
    {k : String} (hheld : HeldByOther owner t tenantId k ↔ HeldByOther owner t' tenantId k) :
    (t.find? k).isSome = (t'.find? k).isSome := by
  rcases lookup_cases h k with ⟨row, hfind, hfind', -⟩ | ⟨hforeign, hforeign'⟩
  · rw [hfind, hfind']
  · rw [Bool.eq_iff_iff, Option.isSome_iff_exists, Option.isSome_iff_exists]
    constructor
    · rintro ⟨row, hfind⟩
      obtain ⟨row', hfind', -⟩ := hheld.mp ⟨row, hfind, hforeign row hfind⟩
      exact ⟨row', hfind'⟩
    · rintro ⟨row, hfind⟩
      obtain ⟨row', hfind', -⟩ := hheld.mpr ⟨row, hfind, hforeign' row hfind⟩
      exact ⟨row', hfind'⟩

end Lookups

/-- The rows of one tenant are the same in both databases. -/
structure Agree (tenantId : String) (db db' : DB) : Prop where
  tenants : db.tenants.rows.filter (fun row => row.id = tenantId) =
    db'.tenants.rows.filter fun row => row.id = tenantId
  runs : db.runs.rows.filter (fun row => row.tenantId = tenantId) =
    db'.runs.rows.filter fun row => row.tenantId = tenantId
  events : db.events.rows.filter (fun row => row.tenantId = tenantId) =
    db'.events.rows.filter fun row => row.tenantId = tenantId
  approvals : db.approvals.rows.filter (fun row => row.tenantId = tenantId) =
    db'.approvals.rows.filter fun row => row.tenantId = tenantId
  toolEffects : db.toolEffects.rows.filter (fun row => row.tenantId = tenantId) =
    db'.toolEffects.rows.filter fun row => row.tenantId = tenantId

/-- The run exists and is another tenant's. -/
abbrev DB.RunOfOther (db : DB) (tenantId runId : String) : Prop :=
  HeldByOther RunRow.tenantId db.runs tenantId runId

/-- Other tenants hold, in both databases or in neither, each ledger key of the run and each id that
is drawn for an approval. -/
structure HeldAlike (around : Surroundings) (tenantId runId : String) (db db' : DB) : Prop where
  effects : ∀ stepId tool,
    HeldByOther EffectRow.tenantId db.toolEffects tenantId (ledgerKey runId stepId tool) ↔
      HeldByOther EffectRow.tenantId db'.toolEffects tenantId (ledgerKey runId stepId tool)
  approvals : ∀ trail,
    HeldByOther ApprovalRow.tenantId db.approvals tenantId ((around.world trail).newId db) ↔
      HeldByOther ApprovalRow.tenantId db'.approvals tenantId ((around.world trail).newId db')

/-! ### Two drives of one run -/

/-- What the tenant finds in the ledger under a key: nothing, a result of its own, or the row of
another tenant. -/
def DB.effectSeen (db : DB) (tenantId key : String) : Option (Option Json) :=
  (db.toolEffects.find? key).map fun row =>
    if row.tenantId = tenantId then some row.resultJson else none

theorem getEffect_eq (db : DB) (tenantId key : String) :
    db.getEffect tenantId key = match db.effectSeen tenantId key with
      | none => .ok .null
      | some (some result) => .ok result
      | some none => .error (DB.tenantIsolation "effect belongs to a different tenant") := by
  unfold DB.getEffect DB.effectSeen
  cases db.toolEffects.find? key with
  | none => rfl
  | some row => by_cases howner : row.tenantId = tenantId <;> simp [howner]

/-- As far as a driver of the tenant's run and an approval of the tenant are concerned, the databases
are the same. Ids that may be drawn are taken in both or in neither. -/
structure Twins (drawn : String → Prop) (tenantId runId approvalId : String) (db db' : DB) : Prop where
  run : ∃ row, db.runs.find? runId = some row ∧ db'.runs.find? runId = some row ∧
    row.tenantId = tenantId
  approval : ∃ row, db.approvals.find? approvalId = some row ∧ row.tenantId = tenantId
  approvals : db.approvals.rows.filter (fun row => row.tenantId = tenantId) =
    db'.approvals.rows.filter fun row => row.tenantId = tenantId
  taken : ∀ id, drawn id → (db.approvals.find? id).isSome = (db'.approvals.find? id).isSome
  effects : ∀ stepId tool, db.effectSeen tenantId (ledgerKey runId stepId tool) =
    db'.effectSeen tenantId (ledgerKey runId stepId tool)

/-- The calls that resolve an approval of the run and go on to drive it. -/
def Op.Resolving (cfg : EngineConfig) (tenantId runId approvalId : String) : Op → Prop
  | .loadRun tenant run => tenant = tenantId ∧ run = runId
  | .resolveApproval tenant id .. => tenant = tenantId ∧ id = approvalId
  | op => op.By cfg tenantId runId

section Step

variable {drawn : String → Prop} {tenantId runId approvalId : String} {db db' : DB}
  {policy : PolicyEngine} {redact : Json → Json} {world : World}

theorem assertOwns_of_run {row : RunRow} (hrow : db.runs.find? runId = some row)
    (howner : row.tenantId = tenantId) : db.assertOwns tenantId runId = .ok () := by
  rw [DB.assertOwns, hrow]
  exact if_pos howner

/-- Whether a buffer of events is accepted does not depend on the log it is appended to, and what holds
between two logs to which the same rows are added holds afterwards. -/
theorem appendEvents_alike (redact : Json → Json) {rel : EventLog → EventLog → Prop}
    (hrel : ∀ log log' ev written, rel log log' → rel (log.append (DB.Event.row redact ev written) fun _ => rfl)
      (log'.append (DB.Event.row redact ev written) fun _ => rfl))
    (tenantId : String) (events : List Event) (now : ℕ → ℚ) {log log' : EventLog} (h : rel log log') :
    (∃ out out', DB.appendEvents redact tenantId events now log = .ok out ∧
        DB.appendEvents redact tenantId events now log' = .ok out' ∧ rel out out') ∨
      ∃ e, DB.appendEvents redact tenantId events now log = .error e ∧
        DB.appendEvents redact tenantId events now log' = .error e := by
  induction events generalizing now log log' with
  | nil => exact Or.inl ⟨log, log', rfl, rfl, h⟩
  | cons ev rest ih =>
      by_cases htenant : ev.tenantId = tenantId
      · simp only [DB.appendEvents, if_pos htenant]
        exact ih _ (hrel _ _ _ _ h)
      · simp only [DB.appendEvents, if_neg htenant]
        exact Or.inr ⟨_, rfl, rfl⟩

/-- A change of the runs and the events alone. -/
theorem Twins.withRun {out out' : DB} (h : Twins drawn tenantId runId approvalId db db')
    (hrun : ∃ row, out.runs.find? runId = some row ∧ out'.runs.find? runId = some row ∧
      row.tenantId = tenantId)
    (happrovals : out.approvals = db.approvals) (happrovals' : out'.approvals = db'.approvals)
    (heffects : out.toolEffects = db.toolEffects) (heffects' : out'.toolEffects = db'.toolEffects) :
    Twins drawn tenantId runId approvalId out out' where
  run := hrun
  approval := by
    rw [happrovals]
    exact h.approval
  approvals := by
    rw [happrovals, happrovals']
    exact h.approvals
  taken := by
    rw [happrovals, happrovals']
    exact h.taken
  effects := by
    unfold DB.effectSeen
    rw [heffects, heffects']
    exact h.effects

theorem twins_checkpoint (h : Twins drawn tenantId runId approvalId db db') {run : Run}
    (htenant : run.tenantId = tenantId) (hid : run.id = runId) (events : List Event) (now : ℕ → ℚ) :
    (∃ out out', db.checkpoint redact run events now = .ok out ∧
        db'.checkpoint redact run events now = .ok out' ∧
        Twins drawn tenantId runId approvalId out out') ∨
      ∃ e, db.checkpoint redact run events now = .error e ∧
        db'.checkpoint redact run events now = .error e := by
  subst htenant hid
  obtain ⟨row, hrow, hrow', howner⟩ := h.run
  have howns := assertOwns_of_run hrow howner
  have howns' := assertOwns_of_run hrow' howner
  have hlogs := @appendEvents_alike redact (fun _ _ => True) (fun _ _ _ _ _ => trivial) run.tenantId events
    (fun i => now (i + 1)) db.events db'.events trivial
  rcases hlogs with ⟨log, log', hlog, hlog', -⟩ | ⟨e, hlog, hlog'⟩
  · have hout : ∃ out, db.checkpoint redact run events now = .ok out := by
      simp [DB.checkpoint, howns, hlog, bind, Except.bind, pure, Except.pure]
    have hout' : ∃ out, db'.checkpoint redact run events now = .ok out := by
      simp [DB.checkpoint, howns', hlog', bind, Except.bind, pure, Except.pure]
    obtain ⟨out, hout⟩ := hout
    obtain ⟨out', hout'⟩ := hout'
    obtain ⟨-, -, -, happrovals, heffects⟩ := DB.checkpoint_ok hout
    obtain ⟨-, -, -, happrovals', heffects'⟩ := DB.checkpoint_ok hout'
    have hwritten := DB.find?_checkpoint hout hrow
    have hwritten' := DB.find?_checkpoint hout' hrow'
    rw [if_pos rfl] at hwritten hwritten'
    exact Or.inl ⟨out, out', hout, hout', h.withRun ⟨_, hwritten, hwritten', howner⟩ happrovals
      happrovals' heffects heffects'⟩
  · refine Or.inr ⟨e, ?_, ?_⟩
    · simp [DB.checkpoint, howns, hlog, bind, Except.bind]
    · simp [DB.checkpoint, howns', hlog', bind, Except.bind]

theorem effectSeen_recordEffect (db : DB) (key owner : String) (stepId : Option String) (tool : String)
    (result : Json) (now : ℕ → ℚ) (k : String) :
    (db.recordEffect tenantId key owner stepId tool result now).effectSeen tenantId k =
      if key = k then some ((db.effectSeen tenantId k).getD (some result))
      else db.effectSeen tenantId k := by
  unfold DB.effectSeen DB.recordEffect
  by_cases hkey : key = k
  · subst hkey
    rw [if_pos rfl, Table.find?_insert_self]
    cases db.toolEffects.find? key with
    | none => simp
    | some row => rfl
  · rw [if_neg hkey, Table.find?_insert_of_ne _ hkey]

theorem twins_recordEffect (h : Twins drawn tenantId runId approvalId db db') (key owner : String)
    (stepId : Option String) (tool : String) (result : Json) (now : ℕ → ℚ) :
    Twins drawn tenantId runId approvalId
      (db.recordEffect tenantId key owner stepId tool result now)
      (db'.recordEffect tenantId key owner stepId tool result now) where
  run := h.run
  approval := h.approval
  approvals := h.approvals
  taken := h.taken
  effects := by
    intro step name
    rw [effectSeen_recordEffect, effectSeen_recordEffect, h.effects step name]

theorem createApproval_of_run {row : RunRow} (hrow : db.runs.find? runId = some row)
    (howner : row.tenantId = tenantId) (stepId : String) (approvers : List String) (id : String)
    (now : ℕ → ℚ) :
    db.createApproval tenantId runId stepId approvers id now =
      if (db.approvals.find? id).isSome then
        .error (.python "IntegrityError" "UNIQUE constraint failed: approvals.id")
      else .ok { db with
        approvals := db.approvals.insert
          ⟨id, runId, tenantId, stepId, .pending, approvers, none, none, now 0, none⟩ } := by
  unfold DB.createApproval
  rw [assertOwns_of_run hrow howner]
  cases db.approvals.find? id <;> rfl

theorem twins_createApproval (h : Twins drawn tenantId runId approvalId db db') {id : String}
    (hid : drawn id) (stepId : String) (approvers : List String) (now : ℕ → ℚ) :
    (∃ out out', db.createApproval tenantId runId stepId approvers id now = .ok out ∧
        db'.createApproval tenantId runId stepId approvers id now = .ok out' ∧
        Twins drawn tenantId runId approvalId out out') ∨
      ∃ e, db.createApproval tenantId runId stepId approvers id now = .error e ∧
        db'.createApproval tenantId runId stepId approvers id now = .error e := by
  obtain ⟨run, hrow, hrow', howner⟩ := h.run
  rw [createApproval_of_run hrow howner, createApproval_of_run hrow' howner, ← h.taken id hid]
  cases htaken : (db.approvals.find? id).isSome with
  | true => exact Or.inr ⟨_, if_pos rfl, if_pos rfl⟩
  | false =>
      have hnone : db.approvals.find? id = none := by simpa using htaken
      have hnone' : db'.approvals.find? id = none := by
        have := h.taken id hid
        rw [htaken] at this
        simpa using this.symm
      refine Or.inl ⟨_, _, if_neg (by simp), if_neg (by simp), h.run, ?_, ?_, ?_, h.effects⟩
      · obtain ⟨row, hfind, hown⟩ := h.approval
        exact ⟨row, Table.find?_insert_of_some _ hfind, hown⟩
      · rw [Table.insert_of_none hnone, Table.insert_of_none hnone', List.filter_append,
          List.filter_append, h.approvals]
      · intro other hother
        by_cases heq : id = other
        · subst heq
          have hself := fun table : Table ApprovalRow.id => Table.find?_insert_self table
            ⟨id, runId, tenantId, stepId, .pending, approvers, none, none, now 0, none⟩
          rw [hself, hself]
          rfl
        · rw [Table.find?_insert_of_ne _ heq, Table.find?_insert_of_ne _ heq]
          exact h.taken other hother

theorem filter_update_alike {ρ : Type} {rows rows' : List ρ} {own : ρ → Bool} (p : ρ → Bool) {f : ρ → ρ}
    (hf : ∀ row, own (f row) = own row) (h : rows.filter own = rows'.filter own) :
    (rows.map fun row => if p row then f row else row).filter own =
      (rows'.map fun row => if p row then f row else row).filter own := by
  have hown : own ∘ (fun row => if p row then f row else row) = own := by
    funext row
    by_cases hp : p row = true <;> simp [hp, hf]
  rw [List.filter_map, List.filter_map, hown, h]

theorem twins_resolveApproval (h : Twins drawn tenantId runId approvalId db db') (approved : Bool)
    (decidedBy note : String) (now : ℕ → ℚ) :
    ∃ out out', db.resolveApproval tenantId approvalId approved decidedBy note now = .ok out ∧
      db'.resolveApproval tenantId approvalId approved decidedBy note now = .ok out' ∧
      Twins drawn tenantId runId approvalId out out' := by
  obtain ⟨row, hfind, howner⟩ := h.approval
  have hfind' := find?_of_agree h.approvals hfind howner
  unfold DB.resolveApproval
  rw [hfind, hfind']
  refine ⟨_, _, if_pos howner, if_pos howner, h.run, ?_, ?_, ?_, h.effects⟩
  · rw [Table.find?_update, hfind]
    refine ⟨_, rfl, ?_⟩
    by_cases hid : row.id = approvalId <;> simp [hid, howner]
  · exact filter_update_alike _ (fun row => rfl) h.approvals
  · intro id hid
    rw [Table.find?_update, Table.find?_update, Option.isSome_map, Option.isSome_map]
    exact h.taken id hid

/-- The transactions of both databases commit, to related ones again, or raise the same. -/
theorem commit_alike {α : Type} {rel : DB → DB → Prop} (value : α) {tx tx' : Except Exc DB}
    (h : rel db db') (htx : (∃ out out', tx = .ok out ∧ tx' = .ok out' ∧ rel out out') ∨
      ∃ e, tx = .error e ∧ tx' = .error e) :
    (commit db ((·, value) <$> tx)).1 = (commit db' ((·, value) <$> tx')).1 ∧
      rel (commit db ((·, value) <$> tx)).2 (commit db' ((·, value) <$> tx')).2 := by
  rcases htx with ⟨out, out', rfl, rfl, hrel⟩ | ⟨e, rfl, rfl⟩
  · exact ⟨rfl, hrel⟩
  · exact ⟨rfl, h⟩

theorem latestApproval_alike (h : Twins drawn tenantId runId approvalId db db') (stepId : String) :
    db.latestApproval tenantId runId stepId = db'.latestApproval tenantId runId stepId := by
  have hfilter : ∀ rows : List ApprovalRow,
      rows.filter (fun row => row.runId = runId ∧ row.tenantId = tenantId ∧ row.stepId = stepId) =
        (rows.filter fun row => row.tenantId = tenantId).filter fun row =>
          row.runId = runId ∧ row.stepId = stepId := by
    intro rows
    rw [List.filter_filter]
    refine List.filter_congr fun row _ => ?_
    simp only [← Bool.decide_and]
    congr 1
    apply propext
    tauto
  unfold DB.latestApproval
  rw [hfilter, hfilter, h.approvals]

/-- A call of the drive does the same in both databases. -/
theorem serve_alike (policy : PolicyEngine) (redact : Json → Json) (h : Twins drawn tenantId runId approvalId db db')
    (hnow : world.now db = world.now db') (hnewId : world.newId db = world.newId db')
    (hdrawn : drawn (world.newId db)) {cfg : EngineConfig} (hcfg : cfg.approvalFn = false) (op : Op)
    (hop : op.Resolving cfg tenantId runId approvalId) :
    (op.serve policy redact world db).1 = (op.serve policy redact world db').1 ∧
      Twins drawn tenantId runId approvalId (op.serve policy redact world db).2
        (op.serve policy redact world db').2 := by
  cases op with
  | ensureTenant | insertRun | loadRunByKey | cancelRun | allowRequest => exact False.elim hop
  | stepSpan | policyCheck | respond | execute => exact ⟨rfl, h⟩
  | approvalFn => exact absurd hop.1 (by simp [hcfg])
  | loadRun =>
      obtain ⟨rfl, rfl⟩ := hop
      obtain ⟨row, hrow, hrow', -⟩ := h.run
      refine ⟨?_, h⟩
      simp only [Op.serve, DB.loadRun, hrow, hrow']
  | checkpoint run events =>
      simp only [Op.serve, ← hnow]
      exact commit_alike () h (twins_checkpoint h hop.1 hop.2 events _)
  | getEffect tenant key =>
      obtain ⟨rfl, stepId, name, rfl⟩ := hop
      refine ⟨?_, h⟩
      simp only [Op.serve, getEffect_eq, h.effects]
  | recordEffect tenant key owner stepId tool result =>
      obtain ⟨rfl, rfl, rfl⟩ := hop
      simp only [Op.serve, ← hnow]
      exact ⟨trivial, twins_recordEffect h _ _ _ _ _ _⟩
  | createApproval tenant owner stepId approvers =>
      obtain ⟨rfl, rfl⟩ := hop
      simp only [Op.serve, ← hnow, ← hnewId]
      exact commit_alike _ h (twins_createApproval h hdrawn stepId approvers _)
  | resolveApproval tenant id approved decidedBy note =>
      obtain ⟨rfl, rfl⟩ := hop
      simp only [Op.serve, ← hnow]
      exact commit_alike () h (Or.inl (twins_resolveApproval h approved decidedBy note _))
  | latestApproval tenant owner stepId =>
      obtain ⟨rfl, rfl⟩ := hop
      exact ⟨latestApproval_alike h stepId, h⟩

end Step

/-! ### The requests -/

section Requests

variable {cfg : EngineConfig} {tenantId runId approvalId : String}

theorem resolving_of_by (hcfg : cfg.approvalFn = false) {op : Op} (h : op.By cfg tenantId runId) :
    op.Resolving cfg tenantId runId approvalId := by
  cases op with
  | loadRun => exact False.elim h
  | resolveApproval => exact absurd h.1 (by simp [hcfg])
  | _ => exact h

/-- Every call of a driver that holds the run resolves its approval or drives the run. -/
abbrev Resolves {α : Type} (cfg : EngineConfig) (tenantId runId approvalId : String) (x : EngineM α) :
    Prop :=
  Act.Keeps (.calls fun call : Call => call.op.Resolving cfg tenantId runId approvalId)
    (fun m _ => m.Of tenantId runId) x

theorem resolves_resume (hcfg : cfg.approvalFn = false) (wf : Workflow) :
    Resolves cfg tenantId runId approvalId (WorkflowEngine.resume cfg wf) := by
  intro m s hm
  have hperforms := performs_resume cfg wf tenantId runId m s hm
  exact Prog.wp_calls_mono (fun call hcall => resolving_of_by hcfg hcall.2) _ hperforms

theorem resolves_safeResume (d : Deployment) (wf : Workflow) :
    Resolves d.engine.asynchronous tenantId runId approvalId (ApiService.safeResume d wf) := by
  refine Act.keeps_tryCatch ?_ fun e => ?_
  · exact Act.keeps_bind (resolves_resume rfl wf) fun _ => keeps_getRun
  · split
    · intro m s hm
      refine (wp_getRun_bind _).mpr ?_
      have hreload : Resolves d.engine.asynchronous tenantId runId approvalId
          (perform (.loadRun m.run.tenantId m.run.id)) :=
        Act.keeps_perform fun _ _ hm' _ _ => ⟨hm, fun _ _ _ => hm'⟩
      refine Act.keeps_bind hreload (fun answer => ?_) m s hm
      exact Act.keeps_bind (Act.keeps_ofExcept _) fun _ => Act.keeps_pure _
    · exact Act.keeps_throw _

theorem resolves_decision (d : Deployment) (approvalId workflowId : String) (approved : Bool)
    (decidedBy note : String) :
    Resolves d.engine.asynchronous tenantId runId approvalId (do
      let answer ← perform (.resolveApproval tenantId approvalId approved decidedBy note)
      Act.ofExcept answer
      let wf ← Act.ofExcept (item workflowId (d.workflowsById.get? workflowId))
      ApiService.safeResume d wf) := by
  refine Act.keeps_bind (Act.keeps_perform fun _ _ hm _ _ => ⟨⟨rfl, rfl⟩, fun _ _ _ => hm⟩) fun answer => ?_
  refine Act.keeps_bind (Act.keeps_ofExcept _) fun _ => ?_
  exact Act.keeps_bind (Act.keeps_ofExcept _) fun wf => resolves_safeResume d wf

/-- A request loads the run it names before it does anything with it. -/
theorem exec_hydrate_bind {α : Type} (f : Run → EngineM α) (m : Mem) :
    (hydrate tenantId runId >>= f).exec m = .call ⟨m, .loadRun tenantId runId⟩ fun answer =>
      match answer with
      | .ok (some run) => (f run).exec { m with run := run }
      | .ok none => .pure (.error (.keyError runId), m)
      | .error e => .pure (.error e, m) := by
  rw [Act.exec_bind]
  unfold hydrate
  rw [Act.exec_perform_bind, Prog.call_bind]
  congr 1
  funext answer
  rcases answer with e | _ | run <;> rfl

/-- The driver's relation between the two runs of one request: the same has been answered so far. -/
def Surroundings.Twins (around : Surroundings) (tenantId runId approvalId : String)
    (x y : DB × Trail) : Prop :=
  x.2 = y.2 ∧ Bass.Twins (fun id => ∃ trail db, id = (around.world trail).newId db) tenantId runId
    approvalId x.1 y.1

theorem Surroundings.serve_alike {around : Surroundings} {policy : PolicyEngine} {redact : Json → Json}
    (hcfg : cfg.approvalFn = false) {x y : DB × Trail} {call : Call}
    (h : around.Twins tenantId runId approvalId x y)
    (hcall : call.op.Resolving cfg tenantId runId approvalId) :
    (around.serve policy redact x call).1 = (around.serve policy redact y call).1 ∧
      around.Twins tenantId runId approvalId (around.serve policy redact x call).2
        (around.serve policy redact y call).2 := by
  obtain ⟨db, trail⟩ := x
  obtain ⟨db', trail'⟩ := y
  obtain ⟨htrail, htwins⟩ := h
  obtain rfl : trail = trail' := htrail
  obtain ⟨hanswer, hout⟩ := Bass.serve_alike policy redact htwins
    (around.now_blind trail db db') (around.newId_blind trail db db') ⟨trail, db, rfl⟩ hcfg call.op hcall
  refine ⟨hanswer, ?_, hout⟩
  simp only [Surroundings.serve, hanswer]

theorem loadRun_of_not_own {db : DB}
    (h : ∀ row, db.runs.find? runId = some row → row.tenantId ≠ tenantId) :
    db.loadRun tenantId runId = .ok none ∨
      ∃ message, db.loadRun tenantId runId = .error (DB.tenantIsolation message) := by
  unfold DB.loadRun
  cases hfind : db.runs.find? runId with
  | none => exact Or.inl rfl
  | some row =>
      refine Or.inr ⟨"run belongs to a different tenant", ?_⟩
      simp only [DB.rowToRun, if_neg (h row hfind)]
      rfl

theorem loadRun_of_own {db : DB} {row : RunRow} (hrow : db.runs.find? runId = some row)
    (howner : row.tenantId = tenantId) : db.loadRun tenantId runId = .ok (some row.toRun) := by
  unfold DB.loadRun
  simp only [hrow, DB.rowToRun, if_pos howner]
  rfl

/-- The exceptions that the handlers of `cancel` and `resolve` answer with 404. -/
def Exc.isMasked (e : Exc) : Bool := e.isKeyError || e.isTenantIsolationError

theorem resolveApproval_of_not_own {db : DB}
    (h : ∀ row, db.approvals.find? approvalId = some row → row.tenantId ≠ tenantId) (approved : Bool)
    (decidedBy note : String) (now : ℕ → ℚ) :
    ∃ e, db.resolveApproval tenantId approvalId approved decidedBy note now = .error e ∧
      e.isMasked = true := by
  unfold DB.resolveApproval
  cases hfind : db.approvals.find? approvalId with
  | none => exact ⟨_, rfl, rfl⟩
  | some row => exact ⟨_, if_neg (h row hfind), rfl⟩

variable {d : Deployment} {redact : Json → Json} {around : Surroundings} {db db' : DB}

/-- What a request that starts by loading its run comes to. -/
theorem outcome_hydrate (f : Run → EngineM Run) :
    Endpoint.outcome d redact around db tenantId runId (hydrate tenantId runId >>= f) =
      match db.loadRun tenantId runId with
      | .ok (some run) =>
          (((f run).exec { Mem.request tenantId runId [] with run := run }).complete
            (around.serve d.engine.policy redact) (db,
              [⟨⟨Mem.request tenantId runId [], .loadRun tenantId runId⟩,
                db.loadRun tenantId runId⟩])).2.1.1
      | .ok none => .error (.keyError runId)
      | .error e => .error e := by
  rw [Endpoint.outcome, exec_hydrate_bind]
  simp only [Prog.complete, Surroundings.serve, Op.serve, List.nil_append]
  rcases db.loadRun tenantId runId with e | _ | run <;> rfl

/-- A run that is not the tenant's is not found, whether it exists or not. -/
theorem outcome_hydrate_of_not_own
    (h : ∀ row, db.runs.find? runId = some row → row.tenantId ≠ tenantId) (f : Run → EngineM Run) :
    ∃ e, Endpoint.outcome d redact around db tenantId runId (hydrate tenantId runId >>= f) = .error e ∧
      e.isMasked = true := by
  rw [outcome_hydrate]
  rcases loadRun_of_not_own h with hload | ⟨message, hload⟩ <;> rw [hload]
  · exact ⟨_, rfl, rfl⟩
  · exact ⟨_, rfl, rfl⟩

theorem ofExcept_of_masked {α : Type} {view : α → Json} {x : Except Exc α} {e : Exc} (hx : x = .error e)
    (he : e.isMasked = true) :
    HttpResponse.ofExcept (fun e => e.isKeyError || e.isTenantIsolationError) (view <$> x) =
      HttpResponse.notFound := by
  subst hx
  exact if_pos he

theorem outcome_resolve_of_not_own (d : Deployment) (redact : Json → Json) (around : Surroundings)
    {row : RunRow} (hrow : db.runs.find? runId = some row)
    (howner : row.tenantId = tenantId)
    (h : ∀ row, db.approvals.find? approvalId = some row → row.tenantId ≠ tenantId) (approved : Bool)
    (decidedBy note : String) :
    ∃ e, Endpoint.outcome d redact around db tenantId runId
        (ApiService.resolveApproval d tenantId runId approvalId approved decidedBy note) = .error e ∧
      e.isMasked = true := by
  unfold ApiService.resolveApproval
  rw [outcome_hydrate, loadRun_of_own hrow howner]
  simp only [perform, Act.exec_perform_bind, Prog.complete, Surroundings.serve, Op.serve]
  obtain ⟨e, hresolve, he⟩ := resolveApproval_of_not_own h approved decidedBy note _
  rw [hresolve]
  exact ⟨e, rfl, he⟩

theorem effectSeen_of_agree (hagree : Agree tenantId db db') {key : String}
    (hheld : HeldByOther EffectRow.tenantId db.toolEffects tenantId key ↔
      HeldByOther EffectRow.tenantId db'.toolEffects tenantId key) :
    db.effectSeen tenantId key = db'.effectSeen tenantId key := by
  unfold DB.effectSeen
  have htaken := isSome_find?_of_agree hagree.toolEffects hheld
  rcases lookup_cases hagree.toolEffects key with ⟨effect, hfind, hfind', -⟩ | ⟨hforeign, hforeign'⟩
  · rw [hfind, hfind']
  · cases hfind : db.toolEffects.find? key with
    | none =>
        rw [hfind] at htaken
        rw [Option.isSome_eq_false_iff.mp htaken.symm |> Option.isNone_iff_eq_none.mp]
    | some effect =>
        rw [hfind] at htaken
        obtain ⟨effect', hfind'⟩ := Option.isSome_iff_exists.mp htaken.symm
        rw [hfind', Option.map_some, Option.map_some, if_neg (hforeign effect hfind),
          if_neg (hforeign' effect' hfind')]

/-- On the tenant's own run and approval the databases start as twins. -/
theorem twins_of_agree (hagree : Agree tenantId db db') (hheld : HeldAlike around tenantId runId db db')
    {row : RunRow} (hrow : db.runs.find? runId = some row) (howner : row.tenantId = tenantId)
    {approval : ApprovalRow} (happroval : db.approvals.find? approvalId = some approval)
    (hown : approval.tenantId = tenantId) :
    Twins (fun id => ∃ trail db, id = (around.world trail).newId db) tenantId runId approvalId db db'
    where
  run := ⟨row, hrow, find?_of_agree hagree.runs hrow howner, howner⟩
  approval := ⟨approval, happroval, hown⟩
  approvals := hagree.approvals
  taken := by
    rintro id ⟨trail, db₀, rfl⟩
    have htaken := hheld.approvals trail
    rw [around.newId_blind trail db db₀, around.newId_blind trail db' db₀] at htaken
    exact isSome_find?_of_agree hagree.approvals htaken
  effects := fun stepId tool => effectSeen_of_agree hagree (hheld.effects stepId tool)

/-- On the tenant's own run and approval the request does the same in both databases. -/
theorem outcome_resolve_of_own (d : Deployment) (redact : Json → Json)
    (hagree : Agree tenantId db db') (hheld : HeldAlike around tenantId runId db db') {row : RunRow}
    (hrow : db.runs.find? runId = some row) (howner : row.tenantId = tenantId) {approval : ApprovalRow}
    (happroval : db.approvals.find? approvalId = some approval) (hown : approval.tenantId = tenantId)
    (approved : Bool) (decidedBy note : String) :
    Endpoint.outcome d redact around db tenantId runId
        (ApiService.resolveApproval d tenantId runId approvalId approved decidedBy note) =
      Endpoint.outcome d redact around db' tenantId runId
        (ApiService.resolveApproval d tenantId runId approvalId approved decidedBy note) := by
  unfold ApiService.resolveApproval
  rw [outcome_hydrate, outcome_hydrate, loadRun_of_own hrow howner,
    loadRun_of_own (find?_of_agree hagree.runs hrow howner) howner]
  have hcalls := resolves_decision d approvalId row.workflowId approved decidedBy note
    { Mem.request tenantId runId [] with run := row.toRun } ()
    ⟨howner, show row.id = runId from Table.key_of_find? hrow⟩
  have hserve : ∀ x y (call : Call), around.Twins tenantId runId approvalId x y →
      call.op.Resolving d.engine.asynchronous tenantId runId approvalId →
      (around.serve d.engine.policy redact x call).1 = (around.serve d.engine.policy redact y call).1 ∧
        around.Twins tenantId runId approvalId (around.serve d.engine.policy redact x call).2
          (around.serve d.engine.policy redact y call).2 :=
    fun _ _ _ h hcall => Surroundings.serve_alike rfl h hcall
  have htwins : ∀ trail, around.Twins tenantId runId approvalId (db, trail) (db', trail) :=
    fun _ => ⟨rfl, twins_of_agree hagree hheld hrow howner happroval hown⟩
  exact congrArg Prod.fst (Prog.complete_related hserve _ hcalls (htwins _)).1

theorem resolve_alike (hagree : Agree tenantId db db')
    (hheld : HeldAlike around tenantId runId db db') (approvalId : String) (approved : Bool)
    (decidedBy note : String) :
    HttpResponse.ofExcept (fun e => e.isKeyError || e.isTenantIsolationError)
        (runView <$> Endpoint.outcome d redact around db tenantId runId
          (ApiService.resolveApproval d tenantId runId approvalId approved decidedBy note)) =
      HttpResponse.ofExcept (fun e => e.isKeyError || e.isTenantIsolationError)
        (runView <$> Endpoint.outcome d redact around db' tenantId runId
          (ApiService.resolveApproval d tenantId runId approvalId approved decidedBy note)) := by
  rcases lookup_cases hagree.runs runId with ⟨row, hrow, hrow', howner⟩ | ⟨hforeign, hforeign'⟩
  · rcases lookup_cases hagree.approvals approvalId with
      ⟨approval, happroval, -, hown⟩ | ⟨hnone, hnone'⟩
    · rw [outcome_resolve_of_own d redact hagree hheld hrow howner happroval hown]
    · obtain ⟨e, hout, he⟩ := outcome_resolve_of_not_own d redact around hrow howner hnone approved
        decidedBy note
      obtain ⟨e', hout', he'⟩ := outcome_resolve_of_not_own d redact around hrow' howner hnone' approved
        decidedBy note
      rw [ofExcept_of_masked hout he, ofExcept_of_masked hout' he']
  · obtain ⟨e, hout, he⟩ := outcome_hydrate_of_not_own hforeign _
    obtain ⟨e', hout', he'⟩ := outcome_hydrate_of_not_own hforeign' _
    exact (ofExcept_of_masked hout he).trans (ofExcept_of_masked hout' he').symm

theorem cancelRun_of_not_own {db : DB}
    (h : ∀ row, db.runs.find? runId = some row → row.tenantId ≠ tenantId) (now : ℕ → ℚ) :
    db.cancelRun tenantId runId now = .ok (db, false) ∧ db.loadRun tenantId runId = .ok none ∨
      ∃ message, db.cancelRun tenantId runId now = .error (DB.tenantIsolation message) := by
  unfold DB.cancelRun DB.loadRun
  cases hfind : db.runs.find? runId with
  | none => exact Or.inl ⟨rfl, rfl⟩
  | some row =>
      exact Or.inr ⟨_, if_neg (h row hfind)⟩

theorem outcome_cancel :
    Endpoint.outcome d redact around db tenantId runId (ApiService.cancel tenantId runId) =
      match db.cancelRun tenantId runId ((around.world []).now db) with
      | .error e => .error e
      | .ok (out, _) =>
          match out.loadRun tenantId runId with
          | .ok (some run) => .ok run
          | .ok none => .error (.keyError runId)
          | .error e => .error e := by
  rw [Endpoint.outcome]
  unfold ApiService.cancel hydrate
  simp only [perform, Act.exec_perform_bind, Prog.complete, Surroundings.serve, Op.serve]
  cases db.cancelRun tenantId runId ((around.world []).now db) with
  | error e => rfl
  | ok out =>
      obtain ⟨out, canceled⟩ := out
      simp only [commit, Act.exec_ofExcept_bind, Act.exec_perform_bind, Prog.complete,
        Surroundings.serve, Op.serve]
      rcases out.loadRun tenantId runId with e | _ | run <;> rfl

theorem outcome_cancel_of_not_own (d : Deployment) (redact : Json → Json) (around : Surroundings)
    (h : ∀ row, db.runs.find? runId = some row → row.tenantId ≠ tenantId) :
    ∃ e, Endpoint.outcome d redact around db tenantId runId (ApiService.cancel tenantId runId) =
      .error e ∧ e.isMasked = true := by
  rw [outcome_cancel]
  rcases cancelRun_of_not_own h ((around.world []).now db) with ⟨hcancel, hload⟩ | ⟨message, hcancel⟩
  · rw [hcancel]
    simp only [hload]
    exact ⟨_, rfl, rfl⟩
  · rw [hcancel]
    exact ⟨_, rfl, rfl⟩

/-- A run of the tenant that is canceled is returned as it is stored then. -/
theorem cancelRun_of_own {row : RunRow} (hrow : db.runs.find? runId = some row)
    (howner : row.tenantId = tenantId) (now : ℕ → ℚ) :
    ∃ out canceled, db.cancelRun tenantId runId now = .ok (out, canceled) ∧
      out.loadRun tenantId runId = .ok (some (if row.status.terminal then row.toRun
        else { row.toRun with status := .canceled })) := by
  unfold DB.cancelRun
  simp only [hrow, if_pos howner]
  cases hterminal : row.status.terminal with
  | true => exact ⟨db, false, if_pos rfl, loadRun_of_own hrow howner⟩
  | false =>
      have hid : row.id = runId := Table.key_of_find? hrow
      have hcanceled : (db.runs.update (fun row => row.id = runId ∧ row.tenantId = tenantId)
          (fun row => { row with status := .canceled, updatedAt := now 0 })
          fun _ => rfl).find? runId = some { row with status := .canceled, updatedAt := now 0 } := by
        rw [Table.find?_update, hrow]
        simp [hid, howner]
      refine ⟨_, true, if_neg (by simp), ?_⟩
      exact @loadRun_of_own tenantId runId _ { row with status := .canceled, updatedAt := now 0 }
        hcanceled howner

theorem outcome_cancel_of_own (d : Deployment) (redact : Json → Json) (around : Surroundings)
    {row : RunRow} (hrow : db.runs.find? runId = some row) (howner : row.tenantId = tenantId) :
    Endpoint.outcome d redact around db tenantId runId (ApiService.cancel tenantId runId) =
      .ok (if row.status.terminal then row.toRun else { row.toRun with status := .canceled }) := by
  obtain ⟨out, canceled, hcancel, hload⟩ := cancelRun_of_own hrow howner ((around.world []).now db)
  rw [outcome_cancel, hcancel]
  simp only [hload]

theorem cancel_alike (d : Deployment) (redact : Json → Json) (around : Surroundings)
    (hagree : Agree tenantId db db') (runId : String) :
    HttpResponse.ofExcept (fun e => e.isKeyError || e.isTenantIsolationError)
        (runView <$> Endpoint.outcome d redact around db tenantId runId
          (ApiService.cancel tenantId runId)) =
      HttpResponse.ofExcept (fun e => e.isKeyError || e.isTenantIsolationError)
        (runView <$> Endpoint.outcome d redact around db' tenantId runId
          (ApiService.cancel tenantId runId)) := by
  rcases lookup_cases hagree.runs runId with ⟨row, hrow, hrow', howner⟩ | ⟨hforeign, hforeign'⟩
  · rw [outcome_cancel_of_own d redact around hrow howner,
      outcome_cancel_of_own d redact around hrow' howner]
  · obtain ⟨e, hout, he⟩ := outcome_cancel_of_not_own d redact around hforeign
    obtain ⟨e', hout', he'⟩ := outcome_cancel_of_not_own d redact around hforeign'
    rw [ofExcept_of_masked hout he, ofExcept_of_masked hout' he']

theorem stored_listRuns (hagree : Agree tenantId db db') (limit : Int) (status : Option String) :
    db.listRuns tenantId limit status = db'.listRuns tenantId limit status := by
  have hfilter : ∀ rows : List RunRow,
      rows.filter (fun row => row.tenantId = tenantId ∧
          status.all fun value => value = "" ∨ row.status.value = value) =
        (rows.filter fun row => row.tenantId = tenantId).filter fun row =>
          status.all fun value => value = "" ∨ row.status.value = value := by
    intro rows
    rw [List.filter_filter]
    refine List.filter_congr fun row _ => ?_
    simp [Bool.and_comm]
  unfold DB.listRuns
  rw [hfilter, hfilter, hagree.runs]

variable {principal : Principal}

theorem listRuns_alike (d : Deployment) (redact : Json → Json) (around : Surroundings)
    (hagree : Agree principal.tenantId db db') (status : String) (limit : Int) :
    Endpoint.respond d redact around db principal (.listRuns status limit) =
      Endpoint.respond d redact around db' principal (.listRuns status limit) := by
  simp only [Endpoint.respond, stored_listRuns hagree]

theorem getRun_of_not_own (d : Deployment) (redact : Json → Json) (around : Surroundings)
    (h : ∀ row, db.runs.find? runId = some row → row.tenantId ≠ principal.tenantId) :
    Endpoint.respond d redact around db principal (.getRun runId) = HttpResponse.notFound := by
  rcases loadRun_of_not_own h with hload | ⟨message, hload⟩
  · simp only [Endpoint.respond, hload]
  · simp only [Endpoint.respond, hload]
    rfl

theorem getRun_alike (d : Deployment) (redact : Json → Json) (around : Surroundings)
    (hagree : Agree principal.tenantId db db') (runId : String) :
    Endpoint.respond d redact around db principal (.getRun runId) =
      Endpoint.respond d redact around db' principal (.getRun runId) := by
  rcases lookup_cases hagree.runs runId with ⟨row, hrow, hrow', howner⟩ | ⟨hforeign, hforeign'⟩
  · simp only [Endpoint.respond, loadRun_of_own hrow howner, loadRun_of_own hrow' howner]
  · rw [getRun_of_not_own d redact around hforeign, getRun_of_not_own d redact around hforeign']

/-! ### The trace of a run -/

theorem getTrace_of_other (d : Deployment) (redact : Json → Json) (around : Surroundings)
    (h : db.RunOfOther principal.tenantId runId) :
    Endpoint.respond d redact around db principal (.getTrace runId) = HttpResponse.notFound := by
  obtain ⟨row, hrow, hother⟩ := h
  simp only [Endpoint.respond, DB.listEvents, DB.assertOwns, hrow, if_neg hother]
  rfl

/-- The trace of the tenant's own run and that of a missing run are answered alike. -/
theorem getTrace_of_not_other (d : Deployment) (redact : Json → Json) (around : Surroundings)
    (h : ¬db.RunOfOther principal.tenantId runId) :
    Endpoint.respond d redact around db principal (.getTrace runId) =
      HttpResponse.ok (.obj [("events", .arr ((db.events.rows.filter fun row =>
        row.runId = runId ∧ row.tenantId = principal.tenantId).map eventView))]) := by
  have howns : db.assertOwns principal.tenantId runId = .ok () := by
    unfold DB.assertOwns
    cases hrow : db.runs.find? runId with
    | none => rfl
    | some row => exact if_pos (by_contra fun hother => h ⟨row, hrow, hother⟩)
  simp only [Endpoint.respond, DB.listEvents, howns]
  rfl

theorem getTrace_alike (d : Deployment) (redact : Json → Json) (around : Surroundings)
    (hagree : Agree principal.tenantId db db')
    (h : db.RunOfOther principal.tenantId runId ↔ db'.RunOfOther principal.tenantId runId) :
    Endpoint.respond d redact around db principal (.getTrace runId) =
      Endpoint.respond d redact around db' principal (.getTrace runId) := by
  have hfilter : ∀ rows : List EventRow,
      rows.filter (fun row => row.runId = runId ∧ row.tenantId = principal.tenantId) =
        (rows.filter fun row => row.tenantId = principal.tenantId).filter fun row =>
          row.runId = runId := by
    intro rows
    rw [List.filter_filter]
    refine List.filter_congr fun row _ => ?_
    simp
  by_cases hother : db.RunOfOther principal.tenantId runId
  · rw [getTrace_of_other d redact around hother, getTrace_of_other d redact around (h.mp hother)]
  · rw [getTrace_of_not_other d redact around hother,
      getTrace_of_not_other d redact around fun hother' => hother (h.mpr hother'), hfilter, hfilter,
      hagree.events]

end Requests

/-! ### The endpoints together -/

section Endpoints

variable {d : Deployment} {redact : Json → Json} {around : Surroundings} {principal : Principal}
  {runId : String} {db db' : DB}

/-- Every endpoint but the one that drives the run. -/
theorem respond_alike (hagree : Agree principal.tenantId db db')
    (hother : db.RunOfOther principal.tenantId runId ↔ db'.RunOfOther principal.tenantId runId)
    {endpoint : Endpoint} (hnamed : ∀ named ∈ endpoint.runId?, named = runId)
    (hdrives : endpoint.drives = false) :
    endpoint.respond d redact around db principal = endpoint.respond d redact around db' principal := by
  cases endpoint with
  | listRuns status limit => exact listRuns_alike d redact around hagree status limit
  | getRun named => exact getRun_alike d redact around hagree named
  | getTrace named =>
      obtain rfl : named = runId := hnamed named rfl
      exact getTrace_alike d redact around hagree hother
  | cancel named =>
      simp only [Endpoint.respond]
      rw [cancel_alike d redact around hagree named]
  | resolve => cases hdrives

theorem respond_resolve_alike (hagree : Agree principal.tenantId db db')
    (hheld : HeldAlike around principal.tenantId runId db db') (approvalId : String) (approved : Json)
    (note : String) :
    Endpoint.respond d redact around db principal (.resolve runId approvalId approved note) =
      Endpoint.respond d redact around db' principal (.resolve runId approvalId approved note) := by
  simp only [Endpoint.respond]
  rw [resolve_alike hagree hheld approvalId approved.truthy principal.subject note]

/-- The answers to a request for the trace tell whether the run is another tenant's. -/
theorem other_of_getTrace
    (h : Endpoint.respond d redact around db principal (.getTrace runId) =
      Endpoint.respond d redact around db' principal (.getTrace runId))
    (hother : db.RunOfOther principal.tenantId runId) : db'.RunOfOther principal.tenantId runId := by
  by_contra hnot
  rw [getTrace_of_other d redact around hother, getTrace_of_not_other d redact around hnot] at h
  have hstatus := congrArg HttpResponse.status h
  simp [HttpResponse.notFound, HttpResponse.error, HttpResponse.ok] at hstatus

end Endpoints

/-- Two databases that agree on the caller's tenant are answered from alike, by every endpoint that
names the run and does not drive it, exactly when the run is another tenant's in both or in neither.
The endpoint that drives the run is no exception as long as the other tenants hold the same keys among
those that the drive looks up. -/
theorem endpoints_agree_iff (d : Deployment) (redact : Json → Json) (around : Surroundings)
    (principal : Principal) (runId : String) (db db' : DB) (hagree : Agree principal.tenantId db db') :
    ((∀ endpoint : Endpoint, (∀ named ∈ endpoint.runId?, named = runId) → endpoint.drives = false →
        endpoint.respond d redact around db principal =
          endpoint.respond d redact around db' principal) ↔
      (db.RunOfOther principal.tenantId runId ↔ db'.RunOfOther principal.tenantId runId)) ∧
    (HeldAlike around principal.tenantId runId db db' →
      ((∀ endpoint : Endpoint, (∀ named ∈ endpoint.runId?, named = runId) →
        endpoint.respond d redact around db principal =
          endpoint.respond d redact around db' principal) ↔
      (db.RunOfOther principal.tenantId runId ↔ db'.RunOfOther principal.tenantId runId))) := by
  have hnamed : ∀ named ∈ (Endpoint.getTrace runId).runId?, named = runId := by
    intro named hmem
    exact (Option.some.inj hmem).symm
  have htrace : Endpoint.respond d redact around db principal (.getTrace runId) =
      Endpoint.respond d redact around db' principal (.getTrace runId) →
      (db.RunOfOther principal.tenantId runId ↔ db'.RunOfOther principal.tenantId runId) :=
    fun h => ⟨other_of_getTrace h, other_of_getTrace h.symm⟩
  refine ⟨⟨fun h => htrace (h _ hnamed rfl), fun hother _ => respond_alike hagree hother⟩, ?_⟩
  refine fun hheld => ⟨fun h => htrace (h _ hnamed), fun hother endpoint hname => ?_⟩
  by_cases hdrives : endpoint.drives = true
  · cases endpoint with
    | resolve named approvalId approved note =>
        obtain rfl : named = runId := hname named rfl
        exact respond_resolve_alike hagree hheld approvalId approved note
    | _ => cases hdrives
  · exact respond_alike hagree hother hname (by simpa using hdrives)

/-! ### Two tenants -/

/-- A standstill, with one id for all approvals. -/
def Surroundings.constant (result : Json) (id : String) : Surroundings where
  world := fun _ => { World.constant result with newId := fun _ => id }
  now_blind := fun _ _ _ => rfl
  newId_blind := fun _ _ _ => rfl

/-- A database with a run of each of two tenants. -/
def DB.shared : DB :=
  { DB.empty with
    runs := ⟨[newRow "run_1" "payments", { newRow "run_2" "payments" with tenantId := "globex" }],
      by decide⟩
    runsUnique := by decide }

def approver : Principal := ⟨"acme", "alice", ["approver"]⟩

theorem agree_shared : Agree "acme" DB.shared (DB.withRun "run_1" "payments") := by
  constructor <;> simp [DB.shared, DB.withRun, DB.empty, Table.empty, EventLog.empty, newRow]

theorem not_heldByOther_empty {ρ : Type} {key owner : ρ → String} {tenantId k : String} :
    ¬HeldByOther owner (Table.empty : Table key) tenantId k := by
  rintro ⟨row, hfind, -⟩
  cases hfind

theorem heldAlike_shared (around : Surroundings) (runId : String) :
    HeldAlike around "acme" runId DB.shared (DB.withRun "run_1" "payments") where
  effects := fun _ _ => iff_of_false not_heldByOther_empty not_heldByOther_empty
  approvals := fun _ => iff_of_false not_heldByOther_empty not_heldByOther_empty

/-- What the caller does with the run of its own tenant does not show the other tenant. -/
theorem endpoints_agree_shared :
    Endpoint.respond payDeployment id (.constant .null "appr_1") DB.shared approver
        (.getTrace "run_1") =
      Endpoint.respond payDeployment id (.constant .null "appr_1") (DB.withRun "run_1" "payments")
        approver (.getTrace "run_1") ∧
    Endpoint.respond payDeployment id (.constant .null "appr_1") DB.shared approver
        (.resolve "run_1" "appr_2" (.bool true) "") =
      Endpoint.respond payDeployment id (.constant .null "appr_1") (DB.withRun "run_1" "payments")
        approver (.resolve "run_1" "appr_2" (.bool true) "") := by
  have howned : ¬DB.shared.RunOfOther "acme" "run_1" := by
    rintro ⟨row, hfind, hother⟩
    cases hfind
    exact hother rfl
  have howned' : ¬(DB.withRun "run_1" "payments").RunOfOther "acme" "run_1" := by
    rintro ⟨row, hfind, hother⟩
    cases hfind
    exact hother rfl
  have hagree := endpoints_agree_iff payDeployment id (.constant .null "appr_1") approver "run_1" DB.shared
    (DB.withRun "run_1" "payments") agree_shared
  refine ⟨hagree.1.mpr (iff_of_false howned howned') _ ?_ rfl,
    (hagree.2 (heldAlike_shared _ _)).mpr (iff_of_false howned howned') _ ?_⟩
  · intro named hmem
    exact (Option.some.inj hmem).symm
  · intro named hmem
    exact (Option.some.inj hmem).symm

/-- The trace of another tenant's run is refused, that of a missing run is empty. -/
theorem getTrace_discloses :
    Agree "acme" DB.shared (DB.withRun "run_1" "payments") ∧
      (Endpoint.respond payDeployment id (.constant .null "appr_1") DB.shared approver
        (.getTrace "run_2")).status = 404 ∧
      (Endpoint.respond payDeployment id (.constant .null "appr_1") (DB.withRun "run_1" "payments")
        approver (.getTrace "run_2")).status = 200 :=
  ⟨agree_shared, rfl, rfl⟩

end Bass
