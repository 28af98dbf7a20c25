import Bass.Proof.RunIsolation
import Mathlib.Data.List.TakeWhile

/-!
# Runs on one engine

An orchestrator drives its runs one after the other on one engine, whose event buffer outlives a drive.
Apart from that buffer a drive leaves the next run what it would have found anyway. The buffer is emptied
by an accepted checkpoint only: what was emitted after the last one is written with the next run.
-/

namespace Bass

open Interaction EngineM

variable {d : Deployment} {redact : Json → Json} {around : Surroundings} {tenantId : String}

/-- Drive a job to its end, on an engine whose buffer holds `buffer`. -/
def Job.play (d : Deployment) (redact : Json → Json) (around : Surroundings) (tenantId runId : String)
    (buffer : List Event) (db : DB) (job : Job) : Trail × (Except Exc Run × Mem) × DB × Trail :=
  (job.program d tenantId runId buffer).complete (around.serve d.engine.policy redact) (db, [])

/-- Each checkpoint writes only events of the run that it is made for. -/
def OwnCheckpoints (trace : Trail) : Prop :=
  ∀ call ∈ trace, ∀ run events, call.1.op = .checkpoint run events → ∀ ev ∈ events, ev.runId = run.id

/-- What the second job is to the first run, whose drive left `db`: it is about another trigger, and the
ids under which it writes are not the first run's. -/
structure Apart (d : Deployment) (around : Surroundings) (tenantId : String) (db : DB)
    (first second : String) (job : Job) : Prop where
  trigger : ∀ ident ∈ db.idents, ident.id = first → job.key? d tenantId second ≠ some ident.triggerKey
  ledger : ∀ stepId tool stepId' tool', ledgerKey first stepId tool ≠ ledgerKey second stepId' tool'
  drawn : ∀ trail db' row, db.approvals.find? ((around.world trail).newId db') = some row →
    row.runId ≠ first

/-- The job does what it would do on a new engine over the database from before the other drive: it returns
or raises the same, it leaves the same stored state and trace, and it writes its own events only. -/
structure Undisturbed (d : Deployment) (redact : Json → Json) (around : Surroundings)
    (tenantId runId : String) (job : Job) (buffer : List Event) (db₀ db₁ : DB) : Prop where
  outcome : (job.play d redact around tenantId runId buffer db₁).2.1.1 =
    (job.play d redact around tenantId runId [] db₀).2.1.1
  stored : StoredAlike (job.key? d tenantId runId) runId
    (job.play d redact around tenantId runId buffer db₁).2.2.1
    (job.play d redact around tenantId runId [] db₀).2.2.1
  own : OwnCheckpoints (job.play d redact around tenantId runId buffer db₁).1

/-! ### On a clean engine -/

section Clean

variable {db₀ db₁ : DB} {first second : String} {job next : Job}

theorem Apart.ne (h : Apart d around tenantId db₁ first second next) : second ≠ first :=
  fun heq => h.ledger "" "" "" "" (by rw [heq])

/-- The other drive leaves the job what it would have found. -/
theorem servedAlike_of_apart (hframe : SameOtherRuns first db₀ db₁)
    (h : Apart d around tenantId db₁ first second next) :
    ServedAlike (fun id => ∃ trail db, id = (around.world trail).newId db) (next.key? d tenantId second)
      second db₁ db₀ where
  runs := by
    have hother : ∀ row : RunRow, row.ident ∈ db₁.idents →
        row.mine (next.key? d tenantId second) second = true → decide (row.id ≠ first) = true := by
      intro row hmem hmine
      refine decide_eq_true fun hfirst => ?_
      rcases of_decide_eq_true hmine with hsecond | hkey
      · exact h.ne (hsecond.symm.trans hfirst)
      · exact h.trigger row.ident hmem hfirst hkey
    refine filter_of_own (fun row hrow => hother row (List.mem_map_of_mem hrow)) (fun row hrow => ?_)
      hframe.runs
    exact hother row (hframe.idents (List.mem_map_of_mem hrow))
  events := by
    have hother : ∀ row : EventRow, decide (row.runId = second) = true → decide (row.runId ≠ first) = true :=
      fun row hrow => decide_eq_true fun hfirst => h.ne ((of_decide_eq_true hrow).symm.trans hfirst)
    unfold EventLog.traceOf
    rw [filter_of_own (fun row _ => hother row) (fun row _ => hother row) hframe.events]
  approvals := by
    have hother : ∀ row : ApprovalRow, decide (row.runId = second) = true →
        decide (row.runId ≠ first) = true :=
      fun row hrow => decide_eq_true fun hfirst => h.ne ((of_decide_eq_true hrow).symm.trans hfirst)
    exact filter_of_own (fun row _ => hother row) (fun row _ => hother row) hframe.approvals
  effects := fun stepId tool => hframe.effects _ fun stepId' tool' => h.ledger stepId' tool' stepId tool
  taken := by
    rintro id ⟨trail, db', rfl⟩
    have hother : ∀ row ∈ db₁.approvals.rows, decide (row.id = (around.world trail).newId db') = true →
        decide (row.runId ≠ first) = true := by
      intro row hmem hrow
      refine decide_eq_true (h.drawn trail db' row ?_)
      rw [← of_decide_eq_true hrow]
      exact Table.find?_of_mem hmem
    have hother₀ : ∀ row ∈ db₀.approvals.rows, decide (row.id = (around.world trail).newId db') = true →
        decide (row.runId ≠ first) = true := by
      intro old hold hdrawn
      obtain ⟨row, hmem, hsubject⟩ := hframe.asked old hold
      have hid : row.id = old.id := congrArg Prod.fst hsubject
      have howner : row.runId = old.runId := congrArg (fun subject => subject.2.1) hsubject
      rw [← howner]
      exact hother row hmem (by rw [hid]; exact hdrawn)
    unfold Table.find?
    rw [← List.head?_filter, ← List.head?_filter, filter_of_own hother hother₀ hframe.approvals]

/-- The environment of a job, seen as the store alone. -/
theorem serve_faultyStep (x : DB × Trail) (call : Call) :
    Call.faultyStep d.engine.policy redact x.1 call (around.serve d.engine.policy redact x call).1
      (around.serve d.engine.policy redact x call).2.1 :=
  Or.inl (call.op.serve_step d.engine.policy redact (around.world x.2) x.1)

theorem id_of_ownCheckpoint {db : DB} {call : Call} (hcall : call.op.OfJob d tenantId second next db)
    {run : Run} {events : List Event} (hop : call.op = .checkpoint run events) :
    ∀ ev ∈ events, ev.runId = run.id := by
  obtain ⟨m, op⟩ := call
  obtain rfl : op = .checkpoint run events := hop
  exact fun ev hmem => (hcall.2.2 ev hmem).1.trans hcall.2.1.symm

/-- On a clean engine a job writes its own events only. -/
theorem ownCheckpoints_play (job : Job) (runId : String) (db : DB) :
    OwnCheckpoints (job.play d redact around tenantId runId [] db).1 := by
  intro call hmem run events hop
  obtain ⟨db', hcall⟩ := Prog.complete_owed (fun x : DB × Trail => x.1) serve_faultyStep
    (job.program d tenantId runId []) (job_program job db) hmem
  exact id_of_ownCheckpoint hcall hop

theorem ownCheckpoints_exec {runId : String} {db db' : DB} {trace : Trail}
    {p : Driver (Except Exc Run × Mem)}
    (hexec : Prog.Exec (Call.faultyStep d.engine.policy redact) (job.program d tenantId runId []) db trace
      p db') : OwnCheckpoints trace := by
  rintro ⟨call, answer⟩ hmem run events hop
  obtain ⟨before, after, rfl⟩ := List.append_of_mem hmem
  obtain ⟨p₁, db₁, db₂, -, hcall, -⟩ := hexec.guaranteed (job_program job db)
  exact id_of_ownCheckpoint hcall hop

/-- The store of one run of a job, between two runs of it that have been answered the same so far. -/
def Surroundings.Follows (around : Surroundings) (key? : Option (String × String)) (runId : String) (db : DB)
    (x y : DB × Trail) : Prop :=
  db = x.1 ∧ x.2 = y.2 ∧
    ServedAlike (fun id => ∃ trail db, id = (around.world trail).newId db) key? runId x.1 y.1

theorem follows_serve {db : DB} {x y : DB × Trail} {call : Call}
    (h : around.Follows (next.key? d tenantId second) second db x y)
    (hcall : call.op.OfJob d tenantId second next db) :
    (around.serve d.engine.policy redact x call).1 = (around.serve d.engine.policy redact y call).1 ∧
      ∃ db', Call.faultyStep d.engine.policy redact db call (around.serve d.engine.policy redact x call).1 db' ∧
        around.Follows (next.key? d tenantId second) second db' (around.serve d.engine.policy redact x call).2
          (around.serve d.engine.policy redact y call).2 := by
  obtain ⟨db₁, trail⟩ := x
  obtain ⟨db₀, trail'⟩ := y
  obtain ⟨rfl, htrail, halike⟩ := h
  obtain rfl : trail = trail' := htrail
  obtain ⟨hanswer, hout⟩ := servedAlike_serve halike (around.now_blind trail _ _)
    (around.newId_blind trail _ _) ⟨trail, _, rfl⟩ call.op hcall
  refine ⟨hanswer, _, serve_faultyStep _ call, rfl, ?_, hout⟩
  exact congrArg (fun answer => trail ++ [⟨call, answer⟩]) hanswer

/-- On a clean engine a job does not notice the drive before it. -/
theorem undisturbed_of_clean (hframe : SameOtherRuns first db₀ db₁)
    (h : Apart d around tenantId db₁ first second next) :
    Undisturbed d redact around tenantId second next [] db₀ db₁ := by
  have hserve : ∀ (db : DB) (x y : DB × Trail) (call : Call),
      around.Follows (next.key? d tenantId second) second db x y → call.op.OfJob d tenantId second next db →
      (around.serve d.engine.policy redact x call).1 = (around.serve d.engine.policy redact y call).1 ∧
        ∃ db', Call.faultyStep d.engine.policy redact db call
            (around.serve d.engine.policy redact x call).1 db' ∧
          around.Follows (next.key? d tenantId second) second db'
            (around.serve d.engine.policy redact x call).2 (around.serve d.engine.policy redact y call).2 :=
    fun _ _ _ _ => follows_serve
  have hstart : around.Follows (next.key? d tenantId second) second db₁ (db₁, []) (db₀, []) :=
    ⟨rfl, rfl, servedAlike_of_apart hframe h⟩
  obtain ⟨-, houtcome, -, -, -, -, hstored⟩ := Prog.complete_follow (fun _ => rfl) hserve
    (next.program d tenantId second []) (job_program next db₁) hstart
  exact ⟨congrArg Prod.fst houtcome, hstored.toStoredAlike, ownCheckpoints_play next second db₁⟩

end Clean

/-! ### On an engine with events left -/

/-- There is a string without colons that is longer than any of the list. -/
theorem exists_longer (texts : List String) :
    ∃ fresh : String, (∀ c ∈ fresh.toList, c ≠ ':') ∧ 0 < fresh.length ∧
      ∀ text ∈ texts, text.length < fresh.length := by
  induction texts with
  | nil =>
      refine ⟨String.ofList ['+'], by simp, ?_, fun _ hmem => absurd hmem List.not_mem_nil⟩
      rw [String.length_ofList]
      exact Nat.one_pos
  | cons text rest ih =>
      obtain ⟨fresh, hcolon, hpos, hlonger⟩ := ih
      refine ⟨fresh ++ String.ofList (List.replicate text.length '+'), ?_, ?_, fun other hmem => ?_⟩
      · intro c hc
        rw [String.toList_append, List.mem_append] at hc
        rcases hc with hold | hnew
        · exact hcolon c hold
        · rw [String.toList_ofList] at hnew
          rw [List.eq_of_mem_replicate hnew]
          decide
      · rw [String.length_append]
        omega
      · rw [String.length_append, String.length_ofList, List.length_replicate]
        rcases List.mem_cons.mp hmem with rfl | hrest
        · omega
        · have := hlonger other hrest
          omega

/-- Ids that differ before their first colon have no ledger key in common. -/
theorem ledgerKey_apart {first second : String}
    (h : first.toList.takeWhile (· ≠ ':') ≠ second.toList.takeWhile (· ≠ ':')) (stepId tool stepId' tool' : String) :
    ledgerKey first stepId tool ≠ ledgerKey second stepId' tool' := by
  have hhead : ∀ runId stepId tool : String,
      (ledgerKey runId stepId tool).toList.takeWhile (· ≠ ':') = runId.toList.takeWhile (· ≠ ':') := by
    intro runId stepId tool
    have htext : (ledgerKey runId stepId tool).toList =
        runId.toList ++ ':' :: (stepId.toList ++ ':' :: tool.toList) := by
      simp [ledgerKey, toString]
    rw [htext, List.takeWhile_append]
    split
    · rename_i hlength
      rw [List.takeWhile_cons_of_neg (by decide), List.append_nil]
      exact ((List.takeWhile_prefix _).eq_of_length hlength).symm
    · rfl
  intro heq
  apply h
  rw [← hhead first stepId tool, heq, hhead]

section Dirty

variable {db₀ db₁ : DB} {first : String}

def probeTrigger (key : String) : Trigger := Dict.ofList [("id", .str key)]

/-- A job that ends at its first step. -/
def probe (key : String) : Job := .fire (stopWorkflow "probe") (probeTrigger key)

def probeRun (d : Deployment) (tenantId runId key : String) : Run :=
  Run.ofTrigger d.builtins tenantId runId (stopWorkflow "probe") (probeTrigger key)

theorem idempotencyKey_probeRun (d : Deployment) (tenantId runId : String) {key : String} (h : key ≠ "") :
    (probeRun d tenantId runId key).idempotencyKey = key := by
  have hsource : (["idempotency_key", "message_id", "delivery_id", "id"].findSome? fun name =>
      ((probeTrigger key).get? name).filter Json.truthy) = some (.str key) := by
    simp [probeTrigger, List.findSome?, Dict.ofList, Dict.get?, Dict.set, Table.find?, Table.update,
      Table.insert, Table.empty, Option.filter, Json.truthy, h]
  unfold probeRun Run.ofTrigger deriveIdempotencyKey
  rw [hsource]
  rfl

/-- The probe comes to its one checkpoint with the buffer it found. -/
theorem driving_probe (d : Deployment) (tenantId runId key : String) (buffer : List Event) :
    ∃ m₁ m₂ step next,
      ((Request.orchestratorFire tenantId runId (stopWorkflow "probe") (probeTrigger key) buffer).driving
          d).exec ⟨probeRun d tenantId runId key, buffer⟩ =
        .call ⟨m₁, .stepSpan step⟩ (fun _ => .call ⟨m₂, .checkpoint m₂.run m₂.buffer⟩ next) ∧
      m₂.run.id = runId ∧ ∀ ev ∈ buffer, ev ∈ m₂.buffer := by
  refine ⟨_, _, _, _, rfl, rfl, fun ev hmem => ?_⟩
  exact List.mem_append_left _ (List.mem_append_left _ (List.mem_append_left _ hmem))

/-- If the probe's run is new, whatever is left in the buffer is written with it. -/
theorem probe_writes {runId key : String} {buffer : List Event} {db : DB}
    (hnew : db.conflicts (probeRun d tenantId runId key) = false)
    (hown : OwnCheckpoints ((probe key).play d redact around tenantId runId buffer db).1) :
    ∀ ev ∈ buffer, ev.runId = runId := by
  obtain ⟨m₁, m₂, step, next, hdrive, hid, hleft⟩ := driving_probe d tenantId runId key buffer
  have hinserted : (around.serve d.engine.policy redact (db, []) ⟨⟨probeRun d tenantId runId key, buffer⟩,
      .insertRun (probeRun d tenantId runId key)⟩).1 = true := by
    simp only [Surroundings.serve, Op.serve, DB.insertRun, dif_pos hnew]
  have hprogram : (probe key).program d tenantId runId buffer =
      (Request.orchestratorFire tenantId runId (stopWorkflow "probe") (probeTrigger key) buffer).creating d
        (probeRun d tenantId runId key) ⟨probeRun d tenantId runId key, buffer⟩ :=
    program_fire d tenantId runId buffer _ _
  have hmade : ∃ answer, (⟨⟨m₂, .checkpoint m₂.run m₂.buffer⟩, answer⟩ : Prog.Event Call Call.Res) ∈
      ((probe key).play d redact around tenantId runId buffer db).1 := by
    rw [Job.play, hprogram, Request.creating]
    simp only [Prog.complete, hinserted, if_true, hdrive]
    exact ⟨_, List.mem_cons_of_mem _ (List.mem_cons_of_mem _ List.mem_cons_self)⟩
  obtain ⟨answer, hmem⟩ := hmade
  exact fun ev hev => (hown _ hmem m₂.run m₂.buffer rfl ev (hleft ev hev)).trans hid

/-- What a drive leaves in the buffer of a clean engine is its own. -/
theorem leavesOwn_of_exec {runId : String} {job : Job} {db db' : DB} {trace : Trail}
    {out : Except Exc Run × Mem}
    (hexec : Prog.Exec (Call.faultyStep d.engine.policy redact) (job.program d tenantId runId []) db trace
      (.pure out) db') : LeavesOwn tenantId runId out :=
  hexec.wp (job_program job db)

/-- There is always a probe that has nothing to do with the run and is new. -/
theorem exists_probe (d : Deployment) (tenantId first : String) (db : DB) :
    ∃ second key id, Apart d (.constant .null id) tenantId db first second (probe key) ∧
      db.conflicts (probeRun d tenantId second key) = false := by
  obtain ⟨fresh, hcolon, hpos, hlonger⟩ := exists_longer (first :: (db.runs.rows.map RunRow.id ++
    (db.runs.rows.map RunRow.idempotencyKey ++ db.approvals.rows.map ApprovalRow.id)))
  have hne : ∀ text ∈ first :: (db.runs.rows.map RunRow.id ++ (db.runs.rows.map RunRow.idempotencyKey ++
      db.approvals.rows.map ApprovalRow.id)), text ≠ fresh := by
    rintro text hmem rfl
    exact absurd (hlonger text hmem) (lt_irrefl _)
  have hid : ∀ row ∈ db.runs.rows, row.id ≠ fresh := fun row hrow =>
    hne _ (List.mem_cons_of_mem _ (List.mem_append_left _ (List.mem_map_of_mem hrow)))
  have hkey : ∀ row ∈ db.runs.rows, row.idempotencyKey ≠ fresh := fun row hrow =>
    hne _ (List.mem_cons_of_mem _ (List.mem_append_right _ (List.mem_append_left _
      (List.mem_map_of_mem hrow))))
  have hprobe : (probeRun d tenantId fresh fresh).idempotencyKey = fresh := by
    refine idempotencyKey_probeRun d tenantId fresh ?_
    rintro rfl
    exact absurd hpos (by decide)
  refine ⟨fresh, fresh, fresh, ⟨?_, ledgerKey_apart fun hhead => ?_, ?_⟩, ?_⟩
  · rintro ident hident - heq
    obtain ⟨row, hrow, rfl⟩ := List.mem_map.mp hident
    exact hkey row hrow ((congrArg Prod.snd (Option.some.inj heq)).symm.trans hprobe)
  · have hwhole : fresh.toList.takeWhile (· ≠ ':') = fresh.toList :=
      List.takeWhile_eq_self_iff.mpr fun c hc => decide_eq_true (hcolon c hc)
    have hle := (List.takeWhile_prefix (· ≠ ':') (l := first.toList)).length_le
    rw [hhead, hwhole, String.length_toList, String.length_toList] at hle
    have := hlonger first List.mem_cons_self
    omega
  · intro trail db' row hfind
    have happroval : row.id ≠ fresh :=
      hne _ (List.mem_cons_of_mem _ (List.mem_append_right _ (List.mem_append_right _
        (List.mem_map_of_mem (Table.mem_of_find? hfind)))))
    exact absurd (Table.key_of_find? hfind) happroval
  · refine List.any_eq_false.mpr fun row hrow => ?_
    rw [decide_eq_true_eq]
    rintro (hsame | hsame)
    · exact hid row hrow hsame
    · exact hkey row hrow ((congrArg Prod.snd hsame).trans hprobe)

/-- An engine on which every other job goes undisturbed has no events left. -/
theorem clean_of_undisturbed {job : Job} {trace : Trail} {out : Except Exc Run} {m : Mem}
    (hexec : Prog.Exec (Call.faultyStep d.engine.policy redact) (job.program d tenantId first []) db₀ trace
      (.pure (out, m)) db₁)
    (h : ∀ around second next, Apart d around tenantId db₁ first second next →
      Undisturbed d redact around tenantId second next m.buffer db₀ db₁) : m.buffer = [] := by
  obtain ⟨second, key, id, hapart, hnew⟩ := exists_probe d tenantId first db₁
  have hwritten := probe_writes hnew (h _ _ _ hapart).own
  refine List.eq_nil_iff_forall_not_mem.mpr fun ev hev => hapart.ne ?_
  exact (hwritten ev hev).symm.trans (leavesOwn_of_exec hexec ev hev).1

end Dirty

/-! ### Main results -/

/-- An engine can be used for other runs exactly if the drive before left no events in its buffer. Only an
accepted checkpoint removes them, so this is a drive that emitted nothing after its last one: a drive that
completes, pauses, or fails with a status it could store; and not one that an exception of another kind or
a rejected checkpoint has ended. -/
theorem engine_reusable_iff (d : Deployment) (redact : Json → Json) {tenantId first : String} {job : Job}
    {db₀ db₁ : DB} {trace : Trail} {out : Except Exc Run} {m : Mem}
    (hexec : Prog.Exec (Call.faultyStep d.engine.policy redact) (job.program d tenantId first []) db₀ trace
      (.pure (out, m)) db₁) :
    (OwnCheckpoints trace ∧ ∀ around second next, Apart d around tenantId db₁ first second next →
      Undisturbed d redact around tenantId second next m.buffer db₀ db₁) ↔ m.buffer = [] := by
  constructor
  · exact fun h => clean_of_undisturbed hexec h.2
  · intro hclean
    refine ⟨ownCheckpoints_exec hexec, fun around second next hapart => ?_⟩
    rw [hclean]
    exact undisturbed_of_clean (sameOtherRuns_of_job hexec) hapart

/-- A fire on a clean engine over an empty database, in a world at a standstill. -/
def playFirst (wf : Workflow) : Trail × (Except Exc Run × Mem) × DB :=
  ((Job.fire wf (probeTrigger "evt-1")).program payDeployment "acme" "run_1" []).complete
    (fun db call => call.op.serve payDeployment.engine.policy id (.constant .null) db) DB.empty

theorem playFirst_exec (wf : Workflow) :
    Prog.Exec (Call.faultyStep payDeployment.engine.policy id)
      ((Job.fire wf (probeTrigger "evt-1")).program payDeployment "acme" "run_1" []) DB.empty
      (playFirst wf).1 (.pure ((playFirst wf).2.1.1, (playFirst wf).2.1.2)) (playFirst wf).2.2 := by
  have hserve : ∀ (db : DB) (call : Call), Call.faultyStep payDeployment.engine.policy id db call
      (call.op.serve payDeployment.engine.policy id (.constant .null) db).1
      (call.op.serve payDeployment.engine.policy id (.constant .null) db).2 :=
    fun db call => Or.inl (call.op.serve_step payDeployment.engine.policy id _ db)
  exact Prog.complete_exec hserve _ _

/-- After a run that succeeded the engine is as good as new. -/
theorem engine_reusable_payWorkflow :
    OwnCheckpoints (playFirst payWorkflow).1 ∧ ∀ around second next,
      Apart payDeployment around "acme" (playFirst payWorkflow).2.2 "run_1" second next →
        Undisturbed payDeployment id around "acme" second next (playFirst payWorkflow).2.1.2.buffer DB.empty
          (playFirst payWorkflow).2.2 :=
  (engine_reusable_iff payDeployment id (playFirst_exec payWorkflow)).mpr rfl

/-- A workflow whose only step names a tool that is not registered. -/
def ghostWorkflow : Workflow :=
  { name := "ghost"
    steps := Dict.ofList [("ghost",
      { id := "ghost"
        nodeType := .tool
        tool := some "ghost" })]
    start := "ghost"
    id := "ghost" }

/-- The `ToolError` of the first run leaves its events in the buffer, and the second run stores them. -/
theorem engine_disturbed_ghostWorkflow :
    Apart payDeployment (.constant .null "appr_1") "acme" (playFirst ghostWorkflow).2.2 "run_1" "run_2"
        (probe "evt-2") ∧
      ¬Undisturbed payDeployment id (.constant .null "appr_1") "acme" "run_2" (probe "evt-2")
        (playFirst ghostWorkflow).2.1.2.buffer DB.empty (playFirst ghostWorkflow).2.2 := by
  refine ⟨⟨?_, ledgerKey_apart (by decide), ?_⟩, fun h => ?_⟩
  · rintro ident hident - heq
    obtain rfl := List.mem_singleton.mp hident
    revert heq
    decide
  · rintro trail db' row ⟨⟩
  · have hleft : (playFirst ghostWorkflow).2.1.2.buffer.map (·.runId) = ["run_1", "run_1"] := rfl
    obtain ⟨ev, hev, hid⟩ := List.mem_map.mp (hleft ▸ List.mem_cons_self)
    exact absurd (hid.symm.trans (probe_writes rfl h.own ev hev)) (by decide)

end Bass
