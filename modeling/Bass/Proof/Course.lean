import Bass.Course
import Bass.Proof.Redrive

/-!
# A drive follows the course of its run

What the abstract course says of a step is what the code of the step does when nobody else drives the run, both
ways round: where the course passes on, some answers of the tools bring the code on in the same way, and where no
`KeyError` can come out of the step, none does.
-/

namespace Bass

open Interaction EngineM WorkflowEngine

/-- A driver that is alone with the database. -/
abbrev soloSpec (cfg : EngineConfig) (redact : Json → Json) : Spec Call Call.Res DB :=
  .sequential (Call.step cfg.policy redact) fun _ _ => True

/-- The driver has the run in memory, and finds the ledger of the stored database and what its approvals say. -/
structure Abreast (run : Run) (stored : DB) (m : Mem) (db : DB) : Prop where
  memory : m.run = run
  effects : db.toolEffects = stored.toolEffects
  approvals : ∀ tenantId runId stepId, db.latestApproval tenantId runId stepId =
    stored.latestApproval tenantId runId stepId
  row : ∃ row, db.runs.find? run.id = some row ∧ row.tenantId = run.tenantId
  buffer : ∀ ev ∈ m.buffer, ev.tenantId = run.tenantId

/-- The driver once the tool of a step has acted. -/
def Mem.acted (m : Mem) (tool : Tool) (step : Step) (name : String) (result : Json) : Mem where
  run := { m.run with
    costUsd := m.run.costUsd + tool.costUsd, context := Dict.set m.run.context step.id result }
  buffer := m.buffer ++ [⟨m.run.id, m.run.tenantId, "tool_result", .obj [("tool", .str name), ("result", result)],
    some step.id, "system", tool.costUsd⟩]

/-- It is neither a `KeyError` nor one after which the step is tried again. -/
def Exc.Halts (e : Exc) : Prop := e.isKeyError = false ∧ e.isConnectorError = false

theorem DB.halts_of_createApproval {db : DB} {tenantId runId stepId drawn : String} {approvers : List String}
    {now : ℕ → ℚ} {e : Exc} (h : db.createApproval tenantId runId stepId approvers drawn now = .error e) :
    e.Halts := by
  unfold DB.createApproval at h
  cases howns : db.assertOwns tenantId runId with
  | error e' =>
      obtain ⟨message, rfl⟩ := isolation_of_assertOwns howns
      rw [howns] at h
      cases h
      exact ⟨rfl, rfl⟩
  | ok _ =>
      simp only [howns, bind, Except.bind] at h
      split at h <;> cases h
      exact ⟨rfl, rfl⟩

section Solo

variable {cfg : EngineConfig} {redact : Json → Json} {α : Type}
  {Q : α → Mem → DB → Prop} {E : Exc → Mem → DB → Prop} {m : Mem} {db : DB} {run : Run} {stored : DB}

/-- A call that changes nothing and has one answer. -/
theorem solo_perform_bind {op : Op} {f : op.Res → EngineM α} (answer : op.Res)
    (hstep : ∀ answer' db', op.step cfg.policy redact db answer' db' ↔ answer' = answer ∧ db' = db) :
    Act.wp (soloSpec cfg redact) (perform op >>= f) Q E m db ↔
      Act.wp (soloSpec cfg redact) (f answer) Q E m db := by
  rw [Act.wp_perform_bind]
  constructor
  · intro h
    exact (h db rfl).2 answer db ((hstep answer db).mpr ⟨rfl, rfl⟩)
  · rintro h _ rfl
    refine ⟨trivial, fun answer' db' hs => ?_⟩
    obtain ⟨rfl, rfl⟩ := (hstep answer' db').mp hs
    exact h

/-- A checkpoint is rejected for a foreign tenant only. -/
theorem halts_checkpoint {Q : Unit → Mem → DB → Prop} (hQ : ∀ m' db', Q () m' db') :
    Act.wp (soloSpec cfg redact) EngineM.checkpoint Q (fun e _ _ => e.Halts) m db := by
  refine EngineM.wp_checkpoint.mpr fun s₁ _ => ⟨trivial, fun answer db' hs => ?_⟩
  have hstep : (Op.checkpoint m.run m.buffer).step cfg.policy redact s₁ answer db' := hs
  cases answer with
  | ok value => exact hQ _ _
  | error e =>
      obtain ⟨message, rfl⟩ := isolation_of_checkpoint hstep
      exact ⟨rfl, rfl⟩

namespace Abreast

theorem emit (h : Abreast run stored m db) (type : String) (payload : Json) (stepId : Option String)
    (costUsd : ℚ) (actor : String) :
    Abreast run stored { m with
      buffer := m.buffer ++ [⟨m.run.id, m.run.tenantId, type, payload, stepId, actor, costUsd⟩] } db := by
  refine ⟨h.memory, h.effects, h.approvals, h.row, fun ev hmem => ?_⟩
  rcases List.mem_append.mp hmem with hold | hnew
  · exact h.buffer ev hold
  · rw [List.mem_singleton.mp hnew, ← h.memory]

theorem modifyRun (h : Abreast run stored m db) (f : Run → Run) (hid : (f run).id = run.id)
    (htenant : (f run).tenantId = run.tenantId) : Abreast (f run) stored { m with run := f m.run } db where
  memory := congrArg f h.memory
  effects := h.effects
  approvals := h.approvals
  row := by
    rw [hid, htenant]
    exact h.row
  buffer := by
    rw [htenant]
    exact h.buffer

theorem getEffect (h : Abreast run stored m db) (tenantId key : String) :
    db.getEffect tenantId key = stored.getEffect tenantId key := by
  rw [DB.getEffect, DB.getEffect, h.effects]

/-- The driver's checkpoint is accepted. -/
theorem committed (h : Abreast run stored m db) {answer : Except Exc Unit} {db' : DB}
    (hs : (Op.checkpoint m.run m.buffer).step cfg.policy redact db answer db') :
    answer = .ok () ∧ Abreast run stored { m with buffer := [] } db' := by
  obtain ⟨rfl, heffects, happrovals, ⟨row, hrow, htenant⟩, hbuffer⟩ := h
  obtain ⟨haccepted, hsame, now, hnew⟩ := accepts_checkpoint hrow htenant hbuffer hs
  refine ⟨haccepted, rfl, hsame.toolEffects.trans heffects, fun tenantId runId stepId => ?_, ⟨_, hnew, htenant⟩,
    fun _ hmem => absurd hmem List.not_mem_nil⟩
  rw [← happrovals, DB.latestApproval, DB.latestApproval, hsame.approvals]

theorem wp_checkpoint (h : Abreast run stored m db) {Q : Unit → Mem → DB → Prop}
    (hQ : ∀ m' db', Abreast run stored m' db' → Q () m' db') :
    Act.wp (soloSpec cfg redact) EngineM.checkpoint Q E m db := by
  refine EngineM.wp_checkpoint.mpr fun s₁ hrely => ?_
  obtain rfl : db = s₁ := hrely
  refine ⟨trivial, fun answer db' hs => ?_⟩
  have hstep : (Op.checkpoint m.run m.buffer).step cfg.policy redact db answer db' := hs
  obtain ⟨rfl, hcommitted⟩ := h.committed hstep
  exact hQ _ _ hcommitted

theorem of_wp_checkpoint (h : Abreast run stored m db) {Q : Unit → Mem → DB → Prop}
    (hwp : Act.wp (soloSpec cfg redact) EngineM.checkpoint Q E m db) :
    ∃ m' db', Q () m' db' ∧ Abreast run stored m' db' := by
  have hs := (Op.checkpoint m.run m.buffer).serve_step cfg.policy redact (.constant .null) db
  obtain ⟨haccepted, hcommitted⟩ := h.committed hs
  rw [haccepted] at hs
  exact ⟨_, _, (EngineM.wp_checkpoint.mp hwp db rfl).2 (.ok ()) _ hs, hcommitted⟩

/-- The ledger lookup has one outcome. -/
theorem wp_cachedEffect (h : Abreast run stored m db) (tool : Tool) (key : String) {Q : Json → Mem → DB → Prop} :
    Act.wp (soloSpec cfg redact) (cachedEffect tool key) Q E m db ↔
      match stored.recorded tool run key with
      | .ok cached => Q cached m db
      | .error e => E e m db := by
  unfold cachedEffect DB.recorded
  split
  · rw [wp_getRun_bind, solo_perform_bind (db.getEffect m.run.tenantId key) fun _ _ => Iff.rfl, Act.wp_ofExcept,
      h.getEffect, h.memory]
    cases stored.getEffect run.tenantId key <;> rfl
  · rfl

variable (redact) in
/-- A step whose latest approval was approved goes on at once. -/
theorem wp_awaitApproval (hasync : cfg.approvalFn = false) (h : Abreast run stored m db) {step : Step}
    (happroved : stored.Approved run step) (approvers : List String) (name : String) (args : Args) :
    ∃ m', Abreast run stored m' db ∧ ∀ {Q : Bool → Mem → DB → Prop} {E : Exc → Mem → DB → Prop},
      Act.wp (soloSpec cfg redact) (awaitApproval cfg step approvers name args) Q E m db ↔ Q true m' db := by
  obtain ⟨approvalId, hlatest⟩ := happroved
  refine ⟨_, h.emit "approval_resolved" (approvalResolved approvalId true) (some step.id) 0 "system", ?_⟩
  intro Q E
  have hanswer : db.latestApproval m.run.tenantId m.run.id step.id = some (approvalId, .approved) := by
    rw [h.approvals, h.memory, hlatest]
  unfold awaitApproval awaitAsync
  rw [hasync, if_neg Bool.false_ne_true, wp_getRun_bind,
    solo_perform_bind (some (approvalId, .approved)) fun answer db' => by rw [← hanswer]; exact Iff.rfl]
  exact Iff.rfl

variable (redact) in
/-- An open gate is passed. -/
theorem wp_gate (hasync : cfg.approvalFn = false) (h : Abreast run stored m db) {step : Step} {tool : Tool}
    {name : String} {args : Args} (hcleared : step.Cleared cfg tool name args run stored) :
    ∃ m', Abreast run stored m' db ∧ ∀ {Q : Unit → Mem → DB → Prop} {E : Exc → Mem → DB → Prop},
      Act.wp (soloSpec cfg redact) (gate cfg step tool name args) Q E m db ↔ Q () m' db := by
  have hcontext : m.run.context = run.context := congrArg Run.context h.memory
  unfold Step.Cleared at hcleared
  rw [← hcontext] at hcleared
  have hemit := h.emit "policy_decision" (AgentRuntime.decisionPayload name
    (cfg.policy.check (systemAgent name) tool args m.run.context)) (some step.id) 0 "system"
  cases heffect : (cfg.policy.check (systemAgent name) tool args m.run.context).effect with
  | deny => exact absurd hcleared (by simp [heffect])
  | allow =>
      refine ⟨_, hemit, fun {Q E} => ?_⟩
      unfold gate
      rw [wp_getRun_bind, solo_perform_bind (cfg.policy.check (systemAgent name) tool args m.run.context)
        fun _ _ => Iff.rfl, wp_emit_bind, heffect]
      exact Iff.rfl
  | requireApproval =>
      rw [heffect] at hcleared
      obtain ⟨m', habreast, hwp⟩ := hemit.wp_awaitApproval redact hasync hcleared
        (cfg.policy.check (systemAgent name) tool args m.run.context).approvers name args
      refine ⟨m', habreast, fun {Q E} => ?_⟩
      unfold gate
      rw [wp_getRun_bind, solo_perform_bind (cfg.policy.check (systemAgent name) tool args m.run.context)
        fun _ _ => Iff.rfl, wp_emit_bind, heffect]
      dsimp only
      rw [Act.wp_bind, hwp]
      exact Iff.rfl

theorem acted (h : Abreast run stored m db) (tool : Tool) (step : Step) (name : String) (result : Json)
    (now : ℕ → ℚ) :
    Abreast { run with costUsd := run.costUsd + tool.costUsd, context := Dict.set run.context step.id result }
      (stored.acted tool run step name result now) (m.acted tool step name result)
      (db.acted tool run step name result now) := by
  obtain ⟨hmemory, heffects, happrovals, hrow, hbuffer⟩ := h.emit "tool_result"
    (.obj [("tool", .str name), ("result", result)]) (some step.id) tool.costUsd "system"
  obtain rfl : m.run = run := hmemory
  refine ⟨rfl, ?_, ?_, ?_, hbuffer⟩ <;> unfold DB.acted <;> split
  · rw [DB.recordEffect, DB.recordEffect, heffects]
  · exact heffects
  · exact happrovals
  · exact happrovals
  · exact hrow
  · exact hrow

/-- A tool raises what a tool may raise, or acts with some result. -/
theorem wp_act (h : Abreast run stored m db) {step : Step} {tool : Tool} {name : String} {args : Args}
    {Q : Option String → Mem → DB → Prop} :
    Act.wp (soloSpec cfg redact) (act step tool name args (ledgerKey run.id step.id name)) Q E m db ↔
      (∀ e, e.ofExecute = true → E e m db) ∧ ∀ result now, Q step.next (m.acted tool step name result)
        (db.acted tool run step name result now) := by
  obtain rfl : m.run = run := h.memory
  have hbook : ∀ result db', Act.wp (soloSpec cfg redact) (do
      EngineM.modifyRun fun run => { run with costUsd := run.costUsd + tool.costUsd }
      EngineM.emit "tool_result" (.obj [("tool", .str name), ("result", result)]) (some step.id) tool.costUsd
      EngineM.modifyRun fun run => { run with context := Dict.set run.context step.id result }
      return step.next) Q E m db' ↔ Q step.next (m.acted tool step name result) db' := fun _ _ => Iff.rfl
  unfold act
  rw [Act.wp_perform_bind]
  constructor
  · intro hwp
    have hanswer := (hwp db rfl).2
    refine ⟨fun e he => (Act.wp_ofExcept_bind _ _).mp (hanswer (.error e) db ⟨fun e' heq => ?_, rfl⟩),
      fun result now => ?_⟩
    · cases heq
      exact he
    · have hresult := (Act.wp_ofExcept_bind _ _).mp (hanswer (.ok result) db ⟨fun e' heq => (by cases heq), rfl⟩)
      dsimp only at hresult
      rw [wp_getRun_bind] at hresult
      unfold DB.acted
      split at hresult
      · rename_i hmutating
        rw [if_pos hmutating]
        rw [Act.wp_perform_bind] at hresult
        exact (hbook result _).mp ((hresult db rfl).2 () _ ⟨now, rfl⟩)
      · rename_i hreading
        rw [if_neg hreading]
        exact (hbook result db).mp hresult
  · rintro ⟨hraised, hacted⟩ s₁ hrely
    obtain rfl : db = s₁ := hrely
    refine ⟨trivial, fun answer db' hs => (Act.wp_ofExcept_bind _ _).mpr ?_⟩
    obtain ⟨hanswer, rfl⟩ := hs
    cases answer with
    | error e => exact hraised e (hanswer e rfl)
    | ok result =>
        refine (wp_getRun_bind _).mpr ?_
        have hnow := hacted result
        unfold DB.acted at hnow
        split
        · rename_i hmutating
          refine (Act.wp_perform_bind _ _).mpr fun s₁ hrely => ⟨trivial, fun _ db₂ hrecord => ?_⟩
          obtain rfl : db' = s₁ := hrely
          obtain ⟨now, rfl⟩ := hrecord
          have hbooked := hnow now
          rw [if_pos hmutating] at hbooked
          exact (hbook result _).mpr hbooked
        · rename_i hreading
          have hbooked := hnow fun _ => 0
          rw [if_neg hreading] at hbooked
          exact (hbook result db').mpr hbooked

/-- A step whose latest approval was not approved is not let through, and what it raises ends its attempts. -/
theorem wp_awaitApproval_of_not (hasync : cfg.approvalFn = false) (h : Abreast run stored m db) {step : Step}
    (hnot : ¬stored.Approved run step) (approvers : List String) (name : String) (args : Args) :
    Act.wp (soloSpec cfg redact) (awaitApproval cfg step approvers name args) (fun granted _ _ => granted = false)
      (fun e _ _ => e.Halts) m db := by
  have hpause : ∀ (m : Mem) (db : DB) (approvalId : String), Act.wp (soloSpec cfg redact) (do
      EngineM.checkpoint
      throw (.paused approvalId) : EngineM Bool) (fun granted _ _ => granted = false) (fun e _ _ => e.Halts) m db := by
    intro m db approvalId
    exact (Act.wp_bind _ _).mpr (halts_checkpoint fun _ _ => ⟨rfl, rfl⟩)
  obtain rfl : m.run = run := h.memory
  unfold awaitApproval awaitAsync
  rw [hasync, if_neg Bool.false_ne_true, wp_getRun_bind,
    solo_perform_bind (db.latestApproval m.run.tenantId m.run.id step.id) fun _ _ => Iff.rfl]
  cases hlatest : db.latestApproval m.run.tenantId m.run.id step.id with
  | none =>
      refine (Act.wp_perform_bind _ _).mpr fun s₁ _ => ⟨trivial, fun answer db' hs => ?_⟩
      refine (Act.wp_ofExcept_bind _ _).mpr ?_
      obtain ⟨drawn, now, hcommits⟩ := hs
      rcases commits_map_cases hcommits with ⟨-, rfl⟩ | ⟨e, herror, rfl, -⟩
      · exact (wp_modifyRun_bind _ _).mpr ((wp_emit_bind _ _ _ _ _ _).mpr (hpause _ db' drawn))
      · exact DB.halts_of_createApproval herror
  | some latest =>
      obtain ⟨approvalId, status⟩ := latest
      dsimp only
      split
      · exact (wp_modifyRun_bind _ _).mpr (hpause _ db approvalId)
      · refine (wp_emit_bind _ _ _ _ _ _).mpr (decide_eq_false fun happroved => hnot ⟨approvalId, ?_⟩)
        rw [← h.approvals, hlatest, happroved]

/-- A closed gate is not passed. -/
theorem wp_gate_of_not (hasync : cfg.approvalFn = false) (h : Abreast run stored m db) {step : Step} {tool : Tool}
    {name : String} {args : Args} (hnot : ¬step.Cleared cfg tool name args run stored)
    {Q : Unit → Mem → DB → Prop} :
    Act.wp (soloSpec cfg redact) (gate cfg step tool name args) Q (fun e _ _ => e.Halts) m db := by
  have hcontext : m.run.context = run.context := congrArg Run.context h.memory
  unfold Step.Cleared at hnot
  rw [← hcontext] at hnot
  have hemit := h.emit "policy_decision" (AgentRuntime.decisionPayload name
    (cfg.policy.check (systemAgent name) tool args m.run.context)) (some step.id) 0 "system"
  unfold gate
  rw [wp_getRun_bind, solo_perform_bind (cfg.policy.check (systemAgent name) tool args m.run.context)
    fun _ _ => Iff.rfl, wp_emit_bind]
  cases heffect : (cfg.policy.check (systemAgent name) tool args m.run.context).effect with
  | allow => exact absurd trivial (by simp only [heffect, not_true_eq_false] at hnot)
  | deny => exact ⟨rfl, rfl⟩
  | requireApproval =>
      rw [heffect] at hnot
      refine (Act.wp_bind _ _).mpr (Act.wp_mono _ (fun granted m' db' hgranted => ?_) (fun _ _ _ he => he)
        (hemit.wp_awaitApproval_of_not hasync hnot _ name args))
      rw [hgranted]
      exact ⟨rfl, rfl⟩

/-- A tool step whose arguments are resolved: the ledger, then the gate, then the tool. -/
theorem wp_runTool (h : Abreast run stored m db) {step : Step} {tool : Tool} {name : String} {args : Args}
    (htool : step.tool = some name) (hfound : cfg.tools.get name = .ok tool)
    (hargs : resolve step.args run.context = .ok args) {Q : Option String → Mem → DB → Prop} :
    Act.wp (soloSpec cfg redact) (runTool cfg step) Q E m db ↔
      match stored.recorded tool run (ledgerKey run.id step.id name) with
      | .error e => E e m db
      | .ok cached =>
          if cached.isNone then
            Act.wp (soloSpec cfg redact) (gate cfg step tool name args) (fun _ m' db' =>
              Act.wp (soloSpec cfg redact) (act step tool name args (ledgerKey run.id step.id name)) Q E m' db') E m db
          else Q step.next
            { run := { m.run with context := Dict.set m.run.context step.id cached }
              buffer := m.buffer ++ [⟨m.run.id, m.run.tenantId, "tool_result_replayed",
                .obj [("tool", .str name), ("result", cached)], some step.id, "system", 0⟩] } db := by
  obtain rfl : m.run = run := h.memory
  unfold runTool
  rw [htool]
  dsimp only
  rw [hfound, Act.wp_ofExcept_bind]
  dsimp only
  rw [wp_getRun_bind, hargs, Act.wp_ofExcept_bind]
  dsimp only
  rw [Act.wp_bind, h.wp_cachedEffect]
  cases stored.recorded tool m.run (ledgerKey m.run.id step.id name) with
  | error e => exact Iff.rfl
  | ok cached =>
      dsimp only
      split
      · exact Act.wp_bind _ _
      · exact Iff.rfl

end Abreast

/-- What a failed attempt leaves: no `KeyError`, and the run as it was if the step is tried again. -/
def Stays (run : Run) (stored : DB) (e : Exc) (m : Mem) (db : DB) : Prop :=
  e.isKeyError = false ∧ (e.isConnectorError = true → Abreast run stored m db)

theorem Exc.Halts.stays {e : Exc} (h : e.Halts) : Stays run stored e m db :=
  ⟨h.1, fun hconnector => by rw [h.2] at hconnector; cases hconnector⟩

theorem halts_of_get {name : String} {e : Exc} (h : cfg.tools.get name = .error e) : e.Halts := by
  unfold ToolRegistry.get at h
  split at h <;> cases h
  exact ⟨rfl, rfl⟩

theorem halts_of_recorded {tool : Tool} {key : String} {e : Exc} (h : stored.recorded tool run key = .error e) :
    e.Halts := by
  unfold DB.recorded DB.getEffect at h
  split at h
  · split at h
    · cases h
    · split at h <;> cases h
      exact ⟨rfl, rfl⟩
  · cases h

theorem not_keyError_of_ofExecute {e : Exc} (h : e.ofExecute = true) : e.isKeyError = false := by
  cases e with
  | bass cls message => rfl
  | paused approvalId => rfl
  | python cls message =>
      unfold Exc.isKeyError
      split
      · rename_i heq
        cases heq
        simp [Exc.ofExecute] at h
      · rfl

/-- What a step does that no `KeyError` can come out of. -/
def Advances (cfg : EngineConfig) (step : Step) (run : Run) (stored : DB) (next : Option String) (m : Mem) (db : DB) :
    Prop :=
  ∃ run' stored', step.Passes cfg run stored next run' stored' ∧ Abreast run' stored' m db

namespace Abreast

theorem sound_runTool (hasync : cfg.approvalFn = false) (h : Abreast run stored m db) {step : Step}
    (hnode : step.nodeType = .tool) (hsure : ¬step.Falters cfg run.context) :
    Act.wp (soloSpec cfg redact) (runTool cfg step) (Advances cfg step run stored) (Stays run stored) m db := by
  cases htool : step.tool with
  | none =>
      unfold runTool
      rw [htool]
      exact Exc.Halts.stays ⟨rfl, rfl⟩
  | some name =>
      cases hfound : cfg.tools.get name with
      | error e =>
          unfold runTool
          rw [htool]
          refine (Act.wp_ofExcept_bind _ _).mpr ?_
          rw [hfound]
          exact (halts_of_get hfound).stays
      | ok tool =>
          cases hargs : resolve step.args run.context with
          | error e =>
              unfold runTool
              rw [htool]
              refine (Act.wp_ofExcept_bind _ _).mpr ?_
              rw [hfound]
              refine (wp_getRun_bind _).mpr ((Act.wp_ofExcept_bind _ _).mpr ?_)
              rw [h.memory, hargs]
              refine ⟨?_, fun _ => h⟩
              by_contra hkey
              exact hsure (.args hnode htool hfound hargs (by simpa using hkey))
          | ok args =>
              refine (h.wp_runTool htool hfound hargs).mpr ?_
              cases hrecorded : stored.recorded tool run (ledgerKey run.id step.id name) with
              | error e => exact (halts_of_recorded hrecorded).stays
              | ok cached =>
                  dsimp only
                  split
                  · rename_i hnone
                    rw [Json.isNone_iff.mp hnone] at hrecorded
                    by_cases hcleared : step.Cleared cfg tool name args run stored
                    · obtain ⟨m', hopen, hgate⟩ := h.wp_gate redact hasync hcleared
                      refine hgate.mpr (hopen.wp_act.mpr ⟨fun e he => ⟨not_keyError_of_ofExecute he, fun _ => hopen⟩,
                        fun result now => ⟨_, _, .acts result now hnode htool hfound hargs hrecorded hcleared,
                          hopen.acted tool step name result now⟩⟩)
                    · exact Act.wp_mono _ (fun _ _ _ hfalse => hfalse.elim) (fun _ _ _ he => he.stays)
                        (h.wp_gate_of_not (Q := fun _ _ _ => False) hasync hcleared)
                  · rename_i hsome
                    have hne : cached ≠ .null := fun hnull => hsome (Json.isNone_iff.mpr hnull)
                    refine ⟨_, _, .replays hnode htool hfound hargs hrecorded hne, ?_⟩
                    exact (h.emit _ _ _ _ _).modifyRun
                      (fun run => { run with context := Dict.set run.context step.id cached }) rfl rfl

theorem sound_runAgent (h : Abreast run stored m db) {step : Step} (hnode : step.nodeType = .agent)
    (hsure : ¬step.Falters cfg run.context) :
    Act.wp (soloSpec cfg redact) (runAgent cfg step) (Advances cfg step run stored) (Stays run stored) m db := by
  unfold runAgent
  split
  · exact Exc.Halts.stays ⟨rfl, rfl⟩
  · rename_i agent hagent
    refine (wp_getRun_bind _).mpr ((Act.wp_ofExcept_bind _ _).mpr ?_)
    rw [h.memory]
    cases hargs : resolve step.args run.context with
    | error e =>
        refine ⟨?_, fun _ => h⟩
        by_contra hkey
        exact hsure (.task hnode hagent hargs (by simpa using hkey))
    | ok args =>
        -- the loop of such an agent has no iteration
        have hidle : agent.maxSteps.toNat = 0 := by
          by_contra hasks
          exact hsure (.model hnode hagent hargs (by omega))
        dsimp only
        unfold AgentRuntime.run
        rw [hidle]
        exact (Act.wp_bind _ _).mpr (Exc.Halts.stays ⟨rfl, rfl⟩)

/-- A step that no `KeyError` can come out of passes, or raises what leaves the run as it was. -/
theorem sound_runStep (hasync : cfg.approvalFn = false) (h : Abreast run stored m db) {step : Step}
    (hsure : ¬step.Falters cfg run.context) :
    Act.wp (soloSpec cfg redact) (runStep cfg step) (Advances cfg step run stored) (Stays run stored) m db := by
  unfold runStep
  cases hnode : step.nodeType with
  | agent => exact h.sound_runAgent hnode hsure
  | tool => exact h.sound_runTool hasync hnode hsure
  | branch =>
      refine (wp_getRun_bind _).mpr ((Act.wp_ofExcept_bind _ _).mpr ?_)
      rw [h.memory]
      cases hchoice : chooseBranch run.context step.branches with
      | error e =>
          refine ⟨?_, fun _ => h⟩
          by_contra hkey
          exact hsure (.branches hnode hchoice (by simpa using hkey))
      | ok choice =>
          have hpasses : step.Passes cfg run stored (choice.or step.next) run stored := .branches hnode hchoice
          cases choice with
          | none => exact ⟨_, _, hpasses, h⟩
          | some goto => exact (wp_emit_bind _ _ _ _ _ _).mpr ⟨_, _, hpasses, h.emit _ _ _ _ _⟩
  | approval =>
      refine (Act.wp_bind _ _).mpr ?_
      by_cases happroved : stored.Approved run step
      · obtain ⟨m', hpast, hwait⟩ :=
          h.wp_awaitApproval redact hasync happroved step.approvers "" Table.empty
        exact hwait.mpr ⟨_, _, .approves hnode happroved, hpast⟩
      · refine Act.wp_mono _ (fun granted m' db' hgranted => ?_) (fun _ _ _ he => he.stays)
          (h.wp_awaitApproval_of_not hasync happroved step.approvers "" Table.empty)
        rw [hgranted]
        exact Exc.Halts.stays ⟨rfl, rfl⟩
  | terminate => exact ⟨_, _, .terminates hnode, h⟩
  | other name => exact Exc.Halts.stays ⟨rfl, rfl⟩

/-- Where the course passes a step, the code can pass it in the same way. -/
theorem complete_runStep (hasync : cfg.approvalFn = false) (h : Abreast run stored m db) {step : Step}
    {next : Option String} {run' : Run} {stored' : DB} (hpasses : step.Passes cfg run stored next run' stored')
    {Q : Option String → Mem → DB → Prop} (hwp : Act.wp (soloSpec cfg redact) (runStep cfg step) Q E m db) :
    ∃ m' db', Q next m' db' ∧ Abreast run' stored' m' db' := by
  unfold runStep at hwp
  cases hpasses with
  | replays hnode htool hfound hargs hcached hrecorded =>
      rw [hnode] at hwp
      have hledger := (h.wp_runTool htool hfound hargs).mp hwp
      rw [hcached] at hledger
      dsimp only at hledger
      rw [if_neg fun hnone => hrecorded (Json.isNone_iff.mp hnone)] at hledger
      exact ⟨_, _, hledger, (h.emit _ _ _ _ _).modifyRun
        (fun run => { run with context := Dict.set run.context step.id _ }) rfl rfl⟩
  | acts result now hnode htool hfound hargs hfresh hcleared =>
      rw [hnode] at hwp
      have hledger := (h.wp_runTool htool hfound hargs).mp hwp
      rw [hfresh] at hledger
      obtain ⟨m', hopen, hgate⟩ := h.wp_gate redact hasync hcleared
      exact ⟨_, _, (hopen.wp_act.mp (hgate.mp hledger)).2 result now, hopen.acted _ step _ result now⟩
  | branches hnode hchoice =>
      rw [hnode] at hwp
      have hchosen := (Act.wp_ofExcept_bind _ _).mp ((wp_getRun_bind _).mp hwp)
      rw [h.memory, hchoice] at hchosen
      rename_i choice
      cases choice with
      | none => exact ⟨_, _, hchosen, h⟩
      | some goto => exact ⟨_, _, (wp_emit_bind _ _ _ _ _ _).mp hchosen, h.emit _ _ _ _ _⟩
  | approves hnode happroved =>
      rw [hnode] at hwp
      obtain ⟨m', hpast, hwait⟩ :=
        h.wp_awaitApproval redact hasync happroved step.approvers "" Table.empty
      exact ⟨_, _, hwait.mp ((Act.wp_bind _ _).mp hwp), hpast⟩
  | terminates hnode =>
      rw [hnode] at hwp
      exact ⟨_, _, hwp, h⟩

/-- Where a `KeyError` can come out of a step, the code can raise one. -/
theorem falters_runStep (h : Abreast run stored m db) {step : Step} (hfalters : step.Falters cfg run.context)
    {Q : Option String → Mem → DB → Prop} (hwp : Act.wp (soloSpec cfg redact) (runStep cfg step) Q E m db) :
    ∃ e m' db', e.isKeyError = true ∧ E e m' db' := by
  obtain rfl : m.run = run := h.memory
  unfold runStep at hwp
  cases hfalters with
  | model hnode hagent hargs hasks =>
      rw [hnode] at hwp
      unfold runAgent at hwp
      rw [hagent] at hwp
      have hresolved := (Act.wp_ofExcept_bind _ _).mp ((wp_getRun_bind _).mp hwp)
      rw [hargs] at hresolved
      have hlooped := (Act.wp_bind _ _).mp hresolved
      unfold AgentRuntime.run at hlooped
      rename_i agent args
      obtain ⟨n, hn⟩ : ∃ n, agent.maxSteps.toNat = n + 1 := ⟨agent.maxSteps.toNat - 1, by omega⟩
      rw [hn] at hlooped
      have hasked := ((Act.wp_perform_bind _ _).mp hlooped db rfl).2 (.error (.keyError "type")) db rfl
      exact ⟨_, _, _, rfl, (Act.wp_ofExcept_bind _ _).mp hasked⟩
  | task hnode hagent hargs hkey =>
      rw [hnode] at hwp
      unfold runAgent at hwp
      rw [hagent] at hwp
      have hresolved := (Act.wp_ofExcept_bind _ _).mp ((wp_getRun_bind _).mp hwp)
      rw [hargs] at hresolved
      exact ⟨_, _, _, hkey, hresolved⟩
  | args hnode htool hfound hargs hkey =>
      rw [hnode] at hwp
      unfold runTool at hwp
      rw [htool] at hwp
      have hgot := (Act.wp_ofExcept_bind _ _).mp hwp
      rw [hfound] at hgot
      have hresolved := (Act.wp_ofExcept_bind _ _).mp ((wp_getRun_bind _).mp hgot)
      rw [hargs] at hresolved
      exact ⟨_, _, _, hkey, hresolved⟩
  | branches hnode hchoice hkey =>
      rw [hnode] at hwp
      have hchosen := (Act.wp_ofExcept_bind _ _).mp ((wp_getRun_bind _).mp hwp)
      rw [hchoice] at hchosen
      exact ⟨_, _, _, hkey, hchosen⟩

end Abreast

/-! ### The loop -/

variable {wf : Workflow}

/-- A driver at the head of the loop. -/
def Comes (cfg : EngineConfig) (wf : Workflow) (origin : Footing) (next : Option String) (m : Mem) (db : DB) : Prop :=
  ∀ name, next = some name → ∃ f, Relation.ReflTransGen (wf.Proceeds cfg) origin f ∧ f.cursor = some name ∧
    Abreast f.run f.db m db

/-- A driver in a step that it has entered. -/
def Engaged (cfg : EngineConfig) (wf : Workflow) (origin : Footing) (step : Step) (m : Mem) (db : DB) : Prop :=
  ∃ f, Relation.ReflTransGen (wf.Proceeds cfg) origin f ∧ (0 < step.maxAttempts → f.Enters wf step) ∧
    Abreast f.entered f.db m db

/-- The run is marked failed, and no `KeyError` is raised for it. -/
theorem halts_failRun (reason detail : String) :
    Act.wp (soloSpec cfg redact) (failRun reason detail) (fun _ _ _ => True) (fun e _ _ => e.Halts) m db :=
  (wp_modifyRun_bind _ _).mpr ((wp_emit_bind _ _ _ _ _ _).mpr (halts_checkpoint fun _ _ => trivial))

/-- A compensation raises nothing. -/
theorem silent_compensate (step : Step) :
    Act.wp (soloSpec cfg redact) (compensate cfg wf step) (fun _ _ _ => True) (fun _ _ _ => False) m db := by
  unfold compensate
  split
  · trivial
  · refine (wp_emit_bind _ _ _ _ _ _).mpr ((Act.wp_tryCatch _ _).mpr ?_)
    exact Act.wp_mono _ (fun _ _ _ _ => trivial) (fun _ _ _ _ => trivial) (Act.wp_of_guar (fun _ _ => trivial) _ _ _)

/-- A drive along a course that comes to no `KeyError` raises none. -/
theorem course_outline (hasync : cfg.approvalFn = false) {origin : Footing}
    (hsure : ∀ f, Relation.ReflTransGen (wf.Proceeds cfg) origin f → ∀ step, f.Enters wf step →
      ¬step.Falters cfg f.run.context) :
    Outline cfg wf (soloSpec cfg redact) (Comes cfg wf origin) (Engaged cfg wf origin)
      (fun step next m db => ∃ f run stored, Relation.ReflTransGen (wf.Proceeds cfg) origin f ∧ f.Enters wf step ∧
        step.Passes cfg f.entered f.db next run stored ∧ Abreast run stored m db)
      (fun step e m db => e.isKeyError = false ∧ (e.isConnectorError = true → Engaged cfg wf origin step m db))
      (fun e _ _ => e.isKeyError = false) where
  unknown := fun _ _ _ _ _ => rfl
  budget := fun _ _ _ _ _ _ _ _ =>
    Act.wp_mono _ (fun _ _ _ _ => rfl) (fun _ _ _ he => he.1) (halts_failRun _ _)
  enter := by
    intro name step m db hstep hcomes hbudget
    obtain ⟨f, hreached, hcursor, habreast⟩ := hcomes name rfl
    have hentered := (habreast.modifyRun (fun run => { run with stepsUsed := run.stepsUsed + 1 }) rfl rfl).emit
      "state_transition" (.obj [("entering_step", .str step.id), ("type", .str step.nodeType.value)])
      (some step.id) 0 "system"
    refine (wp_modifyRun_bind _ _).mpr ((wp_emit_bind _ _ _ _ _ _).mpr ((Act.wp_perform _).mpr fun s₁ hrely => ?_))
    obtain rfl : db = s₁ := hrely
    refine ⟨trivial, fun _ db' hs => ⟨f, hreached, fun hattempts => ?_, ?_⟩⟩
    · exact ⟨⟨name, hcursor, hstep⟩, by rwa [← habreast.memory], hattempts⟩
    · obtain rfl : db' = db := hs
      exact hentered
  run := by
    rintro step m db - hattempts ⟨f, hreached, henters, habreast⟩
    have hentered := henters hattempts
    refine Act.wp_mono _ (fun next m' db' hpassed => ?_) (fun e m' db' hstays => ?_)
      (habreast.sound_runStep hasync (hsure f hreached step hentered))
    · obtain ⟨run, stored, hpasses, hafter⟩ := hpassed
      exact ⟨f, run, stored, hreached, hentered, hpasses, hafter⟩
    · exact ⟨hstays.1, fun hconnector => ⟨f, hreached, henters, hstays.2 hconnector⟩⟩
  retry := by
    rintro step e attempt m db - hconnector ⟨hkey, hagain⟩
    obtain ⟨f, hreached, henters, habreast⟩ := hagain hconnector
    have hemitted := habreast.emit "step_retry" (retryPayload step attempt e) (some step.id) 0 "system"
    have hengaged : Engaged cfg wf origin step _ db := ⟨f, hreached, henters, hemitted⟩
    exact ⟨hengaged, hkey, fun _ => hengaged⟩
  exhausted := fun _ _ _ _ => ⟨rfl, fun hconnector => by cases hconnector⟩
  denied := fun _ _ _ _ _ _ hraised =>
    Act.wp_mono _ (fun _ _ _ _ => hraised.1) (fun _ _ _ he => he.1) (halts_failRun _ _)
  failed := fun step _ _ _ _ _ hraised => (Act.wp_bind _ _).mpr (Act.wp_mono _
    (fun _ _ _ _ => Act.wp_mono _ (fun _ _ _ _ => hraised.1) (fun _ _ _ he => he.1) (halts_failRun _ _))
    (fun _ _ _ hfalse => hfalse.elim) (silent_compensate step))
  other := fun _ _ _ _ _ _ _ hraised => hraised.1
  finish := by
    rintro step next m db - ⟨f, run, stored, hreached, henters, hpasses, habreast⟩
    cases next with
    | none =>
        have hfinished : Act.wp (soloSpec cfg redact) (advance none) (fun _ => Comes cfg wf origin none)
            (fun e _ _ => e.Halts) m db := by
          refine (wp_modifyRun_bind _ _).mpr ((wp_modifyRun_bind _ _).mpr ((wp_modifyRun_bind _ _).mpr ?_))
          refine (wp_getRun_bind _).mpr ((wp_emit_bind _ _ _ _ _ _).mpr (halts_checkpoint ?_))
          exact fun _ _ name hname => by cases hname
        exact Act.wp_mono _ (fun _ _ _ hcomes => hcomes) (fun _ _ _ he => he.1) hfinished
    | some name =>
        have hmoved := habreast.modifyRun (fun run => { run with cursorStep := some name }) rfl rfl
        refine (wp_modifyRun_bind _ _).mpr (hmoved.wp_checkpoint fun m' db' hafter => ?_)
        rintro name' ⟨⟩
        exact ⟨_, hreached.tail (.step henters hpasses), rfl, hafter⟩

/-- A `KeyError` is none of the exceptions that are handled on its way out. -/
theorem python_of_keyError {e : Exc} (h : e.isKeyError = true) : ∃ cls message, e = .python cls message := by
  cases e with
  | python cls message => exact ⟨cls, message, rfl⟩
  | bass | paused => cases h

/-- An iteration runs the step it enters, and lets a `KeyError` of the step out. -/
theorem runStep_of_iterate {f : Footing} (h : Abreast f.run f.db m db) {step : Step} (henters : f.Enters wf step)
    {name : String} (hcursor : f.cursor = some name) {Q : Option String → Mem → DB → Prop}
    (hwp : Act.wp (soloSpec cfg redact) (iterate cfg wf ⟨wf.budgetUsd, wf.maxSteps⟩ name) Q E m db) :
    ∃ m' E', Abreast f.entered f.db m' db ∧ (∀ e m db, e.isKeyError = true → E' e m db → E e m db) ∧
      Act.wp (soloSpec cfg redact) (runStep cfg step)
        (fun next m db => Act.wp (soloSpec cfg redact) (advance next) (fun _ => Q next) E m db) E' m' db := by
  obtain ⟨⟨name', hcursor', hstep⟩, hbudget, hattempts⟩ := henters
  obtain rfl := Option.some.inj (hcursor.symm.trans hcursor')
  unfold iterate at hwp
  rw [hstep] at hwp
  have hentered := (wp_getRun_bind _).mp hwp
  rw [h.memory, hbudget] at hentered
  obtain ⟨n, hn⟩ : ∃ n, step.maxAttempts.toNat = n + 1 := ⟨step.maxAttempts.toNat - 1, by omega⟩
  have hspan := (wp_emit_bind _ _ _ _ _ _).mp ((wp_modifyRun_bind _ _).mp hentered)
  have htried := (Act.wp_bind _ _).mp (((Act.wp_perform_bind _ _).mp hspan db rfl).2 () db rfl)
  rw [Act.wp_tryCatch, runStepWithRetry, hn, attempts, Act.wp_tryCatch] at htried
  refine ⟨_, _, (h.modifyRun (fun run => { run with stepsUsed := run.stepsUsed + 1 }) rfl rfl).emit _ _ _ _ _,
    fun e m' db' hkey he => ?_, Act.wp_mono _ (fun next m' db' hnext => ?_) (fun _ _ _ he => he) htried⟩
  · obtain ⟨cls, message, rfl⟩ := python_of_keyError hkey
    exact he
  · exact (Act.wp_bind _ _).mp hnext

/-- Where the course goes on, the loop can. -/
theorem complete_iterate (hasync : cfg.approvalFn = false) {f f' : Footing} (h : Abreast f.run f.db m db)
    (hproceeds : wf.Proceeds cfg f f') {name : String} (hcursor : f.cursor = some name)
    {Q : Option String → Mem → DB → Prop}
    (hwp : Act.wp (soloSpec cfg redact) (iterate cfg wf ⟨wf.budgetUsd, wf.maxSteps⟩ name) Q E m db)
    (hgoes : f'.cursor ≠ none) :
    ∃ m' db', Q f'.cursor m' db' ∧ Abreast f'.run f'.db m' db' := by
  obtain ⟨henters, hpasses⟩ := hproceeds
  obtain ⟨m₁, E', habreast, -, hrun⟩ := runStep_of_iterate h henters hcursor hwp
  obtain ⟨m₂, db₂, hadvance, hpassed⟩ := habreast.complete_runStep hasync hpasses hrun
  rename_i next run stored
  cases next with
  | none => exact absurd rfl hgoes
  | some goto =>
      have hmoved := hpassed.modifyRun (fun run => { run with cursorStep := some goto }) rfl rfl
      exact hmoved.of_wp_checkpoint ((wp_modifyRun_bind _ _).mp hadvance)

theorem Workflow.Proceeds.stepsUsed {f f' : Footing} (h : wf.Proceeds cfg f f') :
    f'.run.stepsUsed = f.run.stepsUsed + 1 := by
  obtain ⟨-, hpasses⟩ := h
  cases hpasses <;> rfl

/-- A course that comes to a step has not ended before. -/
theorem running_of_reaches {f f' : Footing} (h : Relation.ReflTransGen (wf.Proceeds cfg) f f') {step : Step}
    (henters : f'.Enters wf step) : f.cursor ≠ none := by
  rcases h.cases_head with rfl | ⟨g, ⟨hbefore, -⟩, -⟩
  · obtain ⟨name, hcursor, -⟩ := henters.at_step
    simp [hcursor]
  · obtain ⟨name, hcursor, -⟩ := hbefore.at_step
    simp [hcursor]

/-- Where the course comes to a `KeyError`, the loop can. -/
theorem complete_drive (hasync : cfg.approvalFn = false) {f f' : Footing}
    (hreaches : Relation.ReflTransGen (wf.Proceeds cfg) f f') {step : Step} (henters : f'.Enters wf step)
    (hfalters : step.Falters cfg f'.run.context) {m : Mem} {db : DB} (h : Abreast f.run f.db m db) {n : Nat}
    (hn : (wf.maxSteps + 1 - f.run.stepsUsed).toNat + 1 ≤ n) {Q : Option String → Mem → DB → Prop}
    (hwp : Act.wp (soloSpec cfg redact) (drive cfg wf ⟨wf.budgetUsd, wf.maxSteps⟩ n f.cursor) Q E m db) :
    ∃ e m' db', e.isKeyError = true ∧ E e m' db' := by
  induction hreaches using Relation.ReflTransGen.head_induction_on generalizing m db n with
  | refl =>
      obtain ⟨name, hcursor, -⟩ := henters.at_step
      obtain ⟨n, rfl⟩ : ∃ k, n = k + 1 := ⟨n - 1, by omega⟩
      rw [hcursor] at hwp
      obtain ⟨m₁, E', habreast, hlets, hrun⟩ := runStep_of_iterate h henters hcursor ((Act.wp_bind _ _).mp hwp)
      obtain ⟨e, m₂, db₂, hkey, he⟩ := habreast.falters_runStep hfalters hrun
      exact ⟨e, m₂, db₂, hkey, hlets e m₂ db₂ hkey he⟩
  | @head f g hproceeds hrest ih =>
      obtain ⟨henters', hpasses⟩ := id hproceeds
      obtain ⟨name, hcursor, -⟩ := henters'.at_step
      obtain ⟨n, rfl⟩ : ∃ k, n = k + 1 := ⟨n - 1, by omega⟩
      rw [hcursor] at hwp
      obtain ⟨m₁, db₁, hdrive, habreast⟩ := complete_iterate hasync h hproceeds hcursor
        ((Act.wp_bind _ _).mp hwp) (running_of_reaches hrest henters)
      have hwithin : (f.run.stepsUsed : Int) ≤ wf.maxSteps := Budget.stepsUsed_le_of_check henters'.budget
      have hcounts := hproceeds.stepsUsed
      exact ih habreast (by omega) hdrive

end Solo

end Bass
