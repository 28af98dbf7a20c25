import Bass.Proof.Billing

/-!
# What the ledger holds is replayed

A row of the ledger is never changed. If its result is not null, an attempt that starts when it is there
executes no tool step under its key, and wherever it enters the step of the key it takes the result over.
A recorded null is answered as if nothing were recorded.
-/

namespace Bass

open Interaction EngineM

variable {d : Deployment} {redact : Json → Json} {runId key : String} {row : EffectRow}

/-- The ledger holds the row under the key. -/
def DB.Recorded (db : DB) (key : String) (row : EffectRow) : Prop := db.toolEffects.find? key = some row

/-- A tool step of a mutating tool whose effects the run keeps under `key`. -/
def Step.Under (tools : ToolRegistry) (runId key : String) (step : Step) : Prop :=
  step.nodeType = .tool ∧ ∃ name, step.tool = some name ∧ tools.mutates name = true ∧
    ledgerKey runId step.id name = key

/-- A visit that does not get to see the row: its arguments cannot be computed from the context it entered
with, or the row is another tenant's. -/
def Unseen (row : EffectRow) (step : Step) (entry : Run) : Prop :=
  (∃ e, resolve step.args entry.context = .error e) ∨ row.tenantId ≠ entry.tenantId

/-! ### The ledger is only written once under a key -/

theorem recorded_of_outside {policy : PolicyEngine} {db db' : DB} {event : Outside}
    (henv : event.step policy redact runId db db') (h : db.Recorded key row) : db'.Recorded key row := by
  cases event with
  | call op answer => exact effect_of_step henv.2 h
  | purge tenantId before =>
      obtain rfl : db' = _ := henv
      exact h

theorem recorded_of_session {c c' : Session} {labels : Session.History runId}
    (hrun : Session.Run d redact runId c labels c') (h : c.shared.Recorded key row) :
    c'.shared.Recorded key row := by
  induction hrun with
  | nil c => exact h
  | cons head _ ih =>
      cases head with
      | start c attempt => exact ih h
      | call hstep => exact ih (effect_of_step hstep h)
      | env henv => exact ih (recorded_of_outside henv h)

/-- Once `record_effect` has returned there is a row under its key, a new one if there was none. -/
theorem recorded_of_record {policy : PolicyEngine} {db db' : DB} {tenantId owner stepId tool : String}
    {result : Json} {answer : Unit}
    (hs : (Op.recordEffect tenantId key owner stepId tool result).step policy redact db answer db') :
    ∃ row, db'.Recorded key row ∧
      (db.toolEffects.find? key = none → row.tenantId = tenantId ∧ row.resultJson = result) := by
  obtain ⟨now, rfl⟩ := hs
  cases hold : db.toolEffects.find? key with
  | some row => exact ⟨row, Table.find?_insert_of_some _ hold, fun hnone => nomatch hnone⟩
  | none =>
      have hself := Table.find?_insert_self db.toolEffects ⟨key, owner, tenantId, some stepId, tool, result, now 0⟩
      rw [hold, Option.getD_none] at hself
      exact ⟨_, hself, fun _ => ⟨rfl, rfl⟩⟩

/-- A lookup answers with the row's result, and raises if the row is another tenant's. -/
theorem getEffect_of_recorded {db : DB} (h : db.Recorded key row) (tenantId : String) :
    (row.tenantId = tenantId ∧ db.getEffect tenantId key = .ok row.resultJson) ∨
      (row.tenantId ≠ tenantId ∧ ∃ e, db.getEffect tenantId key = .error e) := by
  have hfind : db.toolEffects.find? key = some row := h
  unfold DB.getEffect
  rw [hfind]
  by_cases howner : row.tenantId = tenantId
  · exact Or.inl ⟨howner, if_pos howner⟩
  · exact Or.inr ⟨howner, _, if_neg howner⟩

/-! ### The visit an attempt is in -/

/-- The step an attempt stands in, and the memory it entered it with. -/
def visitAfter (visit : Option (Mem × Step)) : Session.Label runId → Option (Mem × Step)
  | .start _ => none
  | .call ⟨m, .stepSpan step⟩ _ => some (m, step)
  | _ => visit

def Session.visit (h : Session.History runId) : Option (Mem × Step) := h.foldl visitAfter none

theorem visit_append (h h' : Session.History runId) :
    Session.visit (h ++ h') = h'.foldl visitAfter (Session.visit h) := List.foldl_append

theorem visit_append_env (h : Session.History runId) (event : Outside) :
    Session.visit (h ++ [.env event]) = Session.visit h := visit_append h _

/-- A call other than an entry leaves the attempt where it stands. -/
theorem visit_append_call (h : Session.History runId) {m : Mem} {op : Op} (answer : op.Res)
    (hop : ∀ step, op ≠ .stepSpan step) :
    Session.visit (h ++ [.call ⟨m, op⟩ answer]) = Session.visit h := by
  rw [visit_append]
  cases op <;> first | rfl | exact absurd rfl (hop _)

/-! ### The specification of an attempt -/

/-- No tool step is executed under the key, and what a visit to a step of the key commits is the context of
the entry with the recorded result as the output of the step, if the visit gets to see it. -/
def Op.Replays (tools : ToolRegistry) (runId key : String) (row : EffectRow)
    (visit : Option (Mem × Step)) (op : Op) : Prop :=
  match op with
  | .execute (.step stepId) name _ => tools.mutates name = true → ledgerKey runId stepId name ≠ key
  | .checkpoint run _ => ∀ m₀ step, visit = some (m₀, step) → step.Under tools runId key →
      run.context = Dict.set m₀.run.context step.id row.resultJson ∨ Unseen row step m₀.run
  | _ => True

def replaySpec (d : Deployment) (redact : Json → Json) (runId key : String) (row : EffectRow) :
    Spec Call Call.Res (DB × Session.History runId) :=
  { step := fun x call answer y => x.1.Recorded key row ∧
      Serial.recorded (Call.step d.engine.policy redact) x call answer y
    rely := fun x y => Session.visit y.2 = Session.visit x.2
    guar := fun x call => Op.Replays d.engine.tools runId key row (Session.visit x.2) call.op }

theorem replays_of_plain {tools : ToolRegistry} {visit : Option (Mem × Step)} {op : Op} (hop : op.Plain) :
    Op.Replays tools runId key row visit op := by
  cases op with
  | execute caller name args =>
      cases caller with
      | agent => trivial
      | step => exact hop.elim
  | checkpoint => exact hop.elim
  | _ => trivial

/-- A driver of the run that stays where it stands. -/
def Steady (runId : String) (visit : Option (Mem × Step)) (m : Mem) (x : DB × Session.History runId) :
    Prop :=
  m.run.id = runId ∧ Session.visit x.2 = visit

/-- The visit is not to a step of the key, or does not get to see the row. -/
def Spared (tools : ToolRegistry) (runId key : String) (row : EffectRow) (visit : Option (Mem × Step)) :
    Prop :=
  ∀ m₀ step, visit = some (m₀, step) → step.Under tools runId key → Unseen row step m₀.run

section Steady

variable {visit : Option (Mem × Step)} {cfg : EngineConfig} {step : Step}

theorem Steady.memory (m m' : Mem) (x : DB × Session.History runId) (hsame : SameIdent m m')
    (h : Steady runId visit m x) : Steady runId visit m' x :=
  ⟨hsame.id.trans h.1, h.2⟩

theorem Steady.call {m : Mem} {x x₁ y : DB × Session.History runId} {op : Op} {answer : op.Res}
    (h : Steady runId visit m x) (hop : ∀ step, op ≠ .stepSpan step)
    (hrely : (replaySpec d redact runId key row).rely x x₁)
    (hs : (replaySpec d redact runId key row).step x₁ ⟨m, op⟩ answer y) : Steady runId visit m y := by
  have hvisit : Session.visit x₁.2 = Session.visit x.2 := hrely
  refine ⟨h.1, ?_⟩
  rw [hs.2.2, visit_append_call _ answer hop, hvisit, h.2]

theorem steady_perform {op : Op} (hop : ∀ step, op ≠ .stepSpan step)
    (hguar : Op.Replays d.engine.tools runId key row visit op) :
    Act.Keeps (replaySpec d redact runId key row) (Steady runId visit) (perform op) := by
  refine Act.keeps_perform fun m x h x₁ hrely => ⟨?_, fun answer y hs => h.call hop hrely hs⟩
  have hvisit : Session.visit x₁.2 = visit := Eq.trans hrely h.2
  change Op.Replays _ _ _ _ (Session.visit x₁.2) op
  rwa [hvisit]

theorem steady_plain {op : Op} (hop : op.Plain) :
    Act.Keeps (replaySpec d redact runId key row) (Steady runId visit) (perform op) := by
  refine steady_perform ?_ (replays_of_plain hop)
  rintro step rfl
  exact hop

/-- A visit that does not see the row may commit anything. -/
theorem steady_checkpoint (hspared : Spared d.engine.tools runId key row visit) :
    Act.Keeps (replaySpec d redact runId key row) (Steady runId visit) EngineM.checkpoint := by
  intro m x h
  refine wp_checkpoint.mpr fun x₁ hrely => ⟨fun m₀ step hvisit hunder => ?_, fun answer y hs => ?_⟩
  · have hsame : Session.visit x₁.2 = visit := Eq.trans hrely h.2
    exact Or.inr (hspared m₀ step (hsame.symm.trans hvisit) hunder)
  · have hop : ∀ step, Op.checkpoint m.run m.buffer ≠ .stepSpan step := by rintro step ⟨⟩
    have h' := h.call hop hrely hs
    cases answer with
    | ok value => exact h'
    | error e => exact h'

theorem steady_await (hspared : Spared d.engine.tools runId key row visit) (step : Step)
    (approvers : List String) (tool : String) (args : Args) :
    Act.Keeps (replaySpec d redact runId key row) (Steady runId visit)
      (WorkflowEngine.awaitApproval cfg step approvers tool args) :=
  keeps_awaitApproval (fun m m' x hsame => Steady.memory m m' x hsame.toSameRun.toSameIdent)
    (fun _ hop => steady_plain hop.plain) (savedIn_of_keeps (steady_checkpoint hspared) _)
    step approvers tool args

theorem steady_gate (hspared : Spared d.engine.tools runId key row visit) (step : Step) (tool : Tool)
    (name : String) (args : Args) :
    Act.Keeps (replaySpec d redact runId key row) (Steady runId visit)
      (WorkflowEngine.gate cfg step tool name args) :=
  leaves_gate (fun _ _ _ h => h) (fun m m' x hsame _ => Steady.memory m m' x hsame.toSameIdent)
    (fun _ _ hop => steady_plain hop) (steady_await hspared) step tool name args

/-- A tool acts that is not one of the key. -/
theorem steady_act {tool : Tool} {name : String} (args : Args) (ledger : String)
    (hother : d.engine.tools.mutates name = true → ledgerKey runId step.id name ≠ key) :
    Act.Keeps (replaySpec d redact runId key row) (Steady runId visit)
      (WorkflowEngine.act step tool name args ledger) := by
  refine keeps_act (fun m m' x hplace => Steady.memory m m' x hplace.toSameIdent) args (fun sent => ?_)
    fun _ _ _ => steady_plain trivial
  refine steady_perform ?_ hother
  rintro step ⟨⟩

/-- The lookup of a mutating tool finds the row under its key. -/
theorem steady_lookup {tool : Tool} (hmutating : tool.sideEffect = true) {m : Mem}
    {x : DB × Session.History runId} (h : Steady runId visit m x) (ledger : String) :
    Act.wp (replaySpec d redact runId key row) (WorkflowEngine.cachedEffect tool ledger)
      (fun cached m' y => m' = m ∧ Steady runId visit m y ∧
        (ledger = key → cached = row.resultJson))
      (fun _ m' y => m' = m ∧ Steady runId visit m y ∧ (ledger = key → row.tenantId ≠ m.run.tenantId)) m x := by
  unfold WorkflowEngine.cachedEffect
  rw [if_pos hmutating]
  refine (wp_getRun_bind _).mpr ((Act.wp_perform_bind _ _).mpr fun x₁ hrely => ?_)
  refine ⟨trivial, fun answer y hs => (Act.wp_ofExcept _).mpr ?_⟩
  have hop : ∀ step, Op.getEffect m.run.tenantId ledger ≠ .stepSpan step := by rintro step ⟨⟩
  have h' := h.call hop hrely hs
  have hanswer : answer = x₁.1.getEffect m.run.tenantId ledger := hs.2.1.1
  cases answer with
  | error e =>
      refine ⟨rfl, h', ?_⟩
      rintro rfl
      rcases getEffect_of_recorded hs.1 m.run.tenantId with ⟨-, hfound⟩ | ⟨howner, -⟩
      · cases hanswer.trans hfound
      · exact howner
  | ok cached =>
      refine ⟨rfl, h', ?_⟩
      rintro rfl
      rcases getEffect_of_recorded hs.1 m.run.tenantId with ⟨-, hfound⟩ | ⟨-, e, herror⟩
      · exact Except.ok.inj (hanswer.trans hfound)
      · cases hanswer.trans herror

/-- A tool step of another key acts only if its own is not this one. -/
theorem steady_runTool (hspared : Spared d.engine.tools runId key row visit) (hnull : row.resultJson ≠ .null)
    (htools : cfg.tools = d.engine.tools) (step : Step) :
    Act.Keeps (replaySpec d redact runId key row) (Steady runId visit) (WorkflowEngine.runTool cfg step) := by
  intro m x h
  unfold WorkflowEngine.runTool
  split
  · exact h
  · rename_i name hname
    refine (Act.wp_ofExcept_bind _ _).mpr ?_
    cases htool : cfg.tools.get name with
    | error e => exact h
    | ok tool =>
        have hmutates : d.engine.tools.mutates name = tool.sideEffect := by
          rw [← htools]
          exact ToolRegistry.mutates_of_get htool
        refine (wp_getRun_bind _).mpr ((Act.wp_ofExcept_bind _ _).mpr ?_)
        cases resolve step.args m.run.context with
        | error e => exact h
        | ok args =>
            have hact : (tool.sideEffect = true → ledgerKey runId step.id name ≠ key) → ∀ ledger,
                Act.Keeps (replaySpec d redact runId key row) (Steady runId visit) (do
                  WorkflowEngine.gate cfg step tool name args
                  WorkflowEngine.act step tool name args ledger) := by
              intro hother ledger
              rw [← hmutates] at hother
              exact Act.keeps_bind (steady_gate hspared step tool name args) fun _ => steady_act args ledger hother
            refine (Act.wp_bind _ _).mpr ?_
            cases hside : tool.sideEffect with
            | false =>
                unfold WorkflowEngine.cachedEffect
                rw [hside]
                exact hact (by simp [hside]) _ m x h
            | true =>
                refine Act.wp_mono _ ?_ ?_ (steady_lookup hside h _)
                · rintro cached _ y ⟨rfl, h', hseen⟩
                  rw [h.1] at hseen
                  split
                  · rename_i hnone
                    refine hact (fun _ hkey => hnull ?_) _ _ y h'
                    rw [← hseen hkey, Json.isNone_iff.mp hnone]
                  · exact (wp_emit_bind _ _ _ _ _ _).mpr h'
                · rintro e _ y ⟨rfl, h', -⟩
                  exact h'

/-- The step of the key takes the result over, if it gets to see the row. -/
theorem replay_runTool (hnull : row.resultJson ≠ .null) (htools : cfg.tools = d.engine.tools)
    (hunder : step.Under d.engine.tools runId key) {m₀ m : Mem} {x : DB × Session.History runId}
    (h : Steady runId (some (m₀, step)) m x) (hcontext : m.run.context = m₀.run.context)
    (htenant : m.run.tenantId = m₀.run.tenantId) :
    Act.wp (replaySpec d redact runId key row) (WorkflowEngine.runTool cfg step)
      (fun _ m' y => Steady runId (some (m₀, step)) m' y ∧
        m'.run.context = Dict.set m₀.run.context step.id row.resultJson)
      (fun _ m' y => Steady runId (some (m₀, step)) m' y ∧ m'.run.context = m₀.run.context ∧
        m'.run.tenantId = m₀.run.tenantId ∧ Unseen row step m₀.run) m x := by
  obtain ⟨-, name, hname, hmutates, hkey⟩ := hunder
  unfold WorkflowEngine.runTool
  rw [hname]
  refine (Act.wp_ofExcept_bind _ _).mpr ?_
  cases htool : cfg.tools.get name with
  | error e =>
      rw [ToolRegistry.mutates, ← htools, htool] at hmutates
      cases hmutates
  | ok tool =>
      have hside : tool.sideEffect = true := by
        rw [← ToolRegistry.mutates_of_get htool, htools]
        exact hmutates
      refine (wp_getRun_bind _).mpr ((Act.wp_ofExcept_bind _ _).mpr ?_)
      cases hargs : resolve step.args m.run.context with
      | error e =>
          rw [hcontext] at hargs
          exact ⟨h, hcontext, htenant, Or.inl ⟨e, hargs⟩⟩
      | ok args =>
          refine (Act.wp_bind _ _).mpr (Act.wp_mono _ ?_ ?_ (steady_lookup hside h _))
          · rintro cached _ y ⟨rfl, h', hseen⟩
            rw [h.1, hkey] at hseen
            obtain rfl := hseen rfl
            have hsome : ¬row.resultJson.isNone = true := fun hnone => hnull (Json.isNone_iff.mp hnone)
            rw [if_neg hsome]
            refine (wp_emit_bind _ _ _ _ _ _).mpr ⟨h', ?_⟩
            rw [← hcontext]
          · rintro e _ y ⟨rfl, h', howner⟩
            rw [h.1, hkey, htenant] at howner
            exact ⟨h', hcontext, htenant, Or.inr (howner rfl)⟩

theorem steady_step (hspared : Spared d.engine.tools runId key row visit) (hnull : row.resultJson ≠ .null)
    (htools : cfg.tools = d.engine.tools) (wf : Workflow) :
    StepInv cfg wf (replaySpec d redact runId key row) (Steady runId visit) where
  memory := fun m m' x hsame => Steady.memory m m' x hsame.toSameIdent
  output := fun _ _ _ _ _ _ h => h
  respond := fun _ _ _ => steady_plain trivial
  execCall := fun agent _ call => keeps_execCall (fun m m' x hsame _ => Steady.memory m m' x hsame.toSameIdent)
    (fun _ _ hop => steady_plain hop) agent call
  await := steady_await hspared
  tool := fun step _ _ => steady_runTool hspared hnull htools step
  failed := savedIn_of_keeps (steady_checkpoint hspared) _

end Steady

/-! ### The engine -/

/-- Where the step loop stands: what the last visit has committed, it may commit again. -/
def AtHead (tools : ToolRegistry) (runId key : String) (row : EffectRow) (m : Mem)
    (x : DB × Session.History runId) : Prop :=
  m.run.id = runId ∧ ∀ m₀ step, Session.visit x.2 = some (m₀, step) → step.Under tools runId key →
    m.run.context = Dict.set m₀.run.context step.id row.resultJson ∨ Unseen row step m₀.run

/-- The step was entered; one of the key has not written the context yet. -/
def AtEntry (tools : ToolRegistry) (runId key : String) (step : Step) (m : Mem)
    (x : DB × Session.History runId) : Prop :=
  ∃ m₀, Steady runId (some (m₀, step)) m x ∧ (step.Under tools runId key →
    m.run.context = m₀.run.context ∧ m.run.tenantId = m₀.run.tenantId)

/-- The step raised; a handler finds a visit that has not seen the row. -/
def Raised (tools : ToolRegistry) (runId key : String) (row : EffectRow) (step : Step) (e : Exc) (m : Mem)
    (x : DB × Session.History runId) : Prop :=
  AtEntry tools runId key step m x ∧
    (e.isPolicyDenied = true ∨ e.isConnectorError = true → Spared tools runId key row (Session.visit x.2))

section Loop

variable {cfg : EngineConfig} {wf : Workflow} {step : Step}

theorem AtHead.quiet {m m' : Mem} {x : DB × Session.History runId} (hid : m'.run.id = m.run.id)
    (hcontext : m'.run.context = m.run.context) (h : AtHead d.engine.tools runId key row m x) :
    AtHead d.engine.tools runId key row m' x := by
  refine ⟨hid.trans h.1, ?_⟩
  rw [hcontext]
  exact h.2

theorem atHead_checkpoint :
    Act.Keeps (replaySpec d redact runId key row) (AtHead d.engine.tools runId key row) EngineM.checkpoint := by
  intro m x h
  refine wp_checkpoint.mpr fun x₁ hrely => ?_
  have hvisit : Session.visit x₁.2 = Session.visit x.2 := hrely
  refine ⟨fun m₀ step hm₀ hunder => h.2 m₀ step (hvisit.symm.trans hm₀) hunder, fun answer y hs => ?_⟩
  have hop : ∀ step, Op.checkpoint m.run m.buffer ≠ .stepSpan step := by rintro step ⟨⟩
  have hsame : Session.visit y.2 = Session.visit x.2 := by
    rw [hs.2.2, visit_append_call _ answer hop, hvisit]
  have h' : AtHead d.engine.tools runId key row m y := by
    refine ⟨h.1, ?_⟩
    rw [hsame]
    exact h.2
  cases answer with
  | ok value => exact h'
  | error e => exact h'

theorem atHead_failRun (reason detail : String) :
    Act.Keeps (replaySpec d redact runId key row) (AtHead d.engine.tools runId key row)
      (WorkflowEngine.failRun reason detail) := by
  intro m x h
  refine (wp_modifyRun_bind _ _).mpr ((wp_emit_bind _ _ _ _ _ _).mpr (atHead_checkpoint _ x ?_))
  exact h.quiet rfl rfl

theorem atHead_advance (next : Option String) :
    Act.Keeps (replaySpec d redact runId key row) (AtHead d.engine.tools runId key row)
      (WorkflowEngine.advance next) := by
  intro m x h
  refine (wp_modifyRun_bind _ _).mpr ?_
  cases next with
  | some stepId => exact atHead_checkpoint _ x (h.quiet rfl rfl)
  | none =>
      refine (wp_modifyRun_bind _ _).mpr ((wp_modifyRun_bind _ _).mpr ?_)
      refine (wp_getRun_bind _).mpr ((wp_emit_bind _ _ _ _ _ _).mpr (atHead_checkpoint _ x ?_))
      exact h.quiet rfl rfl

/-- A step that is not of the key is run as any other; one of the key is replayed. -/
theorem atEntry_runStep (hnull : row.resultJson ≠ .null) (htools : cfg.tools = d.engine.tools)
    (hstep : wf.HasStep step) {m : Mem} {x : DB × Session.History runId}
    (h : AtEntry d.engine.tools runId key step m x) :
    Act.wp (replaySpec d redact runId key row) (WorkflowEngine.runStep cfg step)
      (fun _ => AtHead d.engine.tools runId key row)
      (Raised d.engine.tools runId key row step) m x := by
  obtain ⟨m₀, hsteady, hkept⟩ := h
  by_cases hunder : step.Under d.engine.tools runId key
  · obtain ⟨hcontext, htenant⟩ := hkept hunder
    rw [WorkflowEngine.runStep, hunder.1]
    refine Act.wp_mono _ ?_ ?_ (replay_runTool hnull htools hunder hsteady hcontext htenant)
    · rintro next m' y ⟨h', hset⟩
      refine ⟨h'.1, fun m₁ step' hvisit _ => Or.inl ?_⟩
      obtain ⟨rfl, rfl⟩ := Prod.mk.inj (Option.some.inj (h'.2.symm.trans hvisit))
      exact hset
    · rintro e m' y ⟨h', hcontext', htenant', hunseen⟩
      refine ⟨⟨m₀, h', fun _ => ⟨hcontext', htenant'⟩⟩, fun _ m₁ step' hvisit _ => ?_⟩
      obtain ⟨rfl, rfl⟩ := Prod.mk.inj (Option.some.inj (h'.2.symm.trans hvisit))
      exact hunseen
  · have hspared : Spared d.engine.tools runId key row (some (m₀, step)) := by
      rintro _ _ ⟨⟩ hunder'
      exact absurd hunder' hunder
    refine Act.wp_mono _ ?_ ?_ ((steady_step hspared hnull htools wf).runStep hstep m x hsteady)
    · intro next m' y h'
      refine ⟨h'.1, fun m₁ step' hvisit hunder' => ?_⟩
      obtain ⟨rfl, rfl⟩ := Prod.mk.inj (Option.some.inj (h'.2.symm.trans hvisit))
      exact absurd hunder' hunder
    · intro e m' y h'
      refine ⟨⟨m₀, h', fun hunder' => absurd hunder' hunder⟩, fun _ => ?_⟩
      rw [h'.2]
      exact hspared

theorem replay_outline (hnull : row.resultJson ≠ .null) (htools : cfg.tools = d.engine.tools) (wf : Workflow) :
    Outline cfg wf (replaySpec d redact runId key row) (fun _ => AtHead d.engine.tools runId key row)
      (AtEntry d.engine.tools runId key) (fun _ _ => AtHead d.engine.tools runId key row)
      (Raised d.engine.tools runId key row) (fun _ _ _ => True) where
  unknown := fun _ _ _ _ _ => trivial
  budget := fun _ _ violation m x _ h _ =>
    Act.wp_mono _ (fun _ _ _ _ => trivial) (fun _ _ _ _ => trivial) (atHead_failRun _ _ m x h)
  enter := by
    intro stepId step m x _ h _
    refine (wp_modifyRun_bind _ _).mpr ((wp_emit_bind _ _ _ _ _ _).mpr ((Act.wp_perform _).mpr ?_))
    refine fun x₁ _ => ⟨trivial, fun answer y hs => ⟨_, ⟨h.1, ?_⟩, fun _ => ⟨rfl, rfl⟩⟩⟩
    rw [hs.2.2, visit_append]
    rfl
  run := fun step m x hstep _ h => atEntry_runStep hnull htools hstep h
  retry := by
    rintro step e attempt m x _ _ ⟨⟨m₀, hsteady, hkept⟩, hspared⟩
    exact ⟨⟨m₀, hsteady, hkept⟩, ⟨m₀, hsteady, hkept⟩, hspared⟩
  exhausted := by
    intro step m x h
    refine ⟨h, ?_⟩
    rintro (hdenied | hconnector)
    · cases hdenied
    · cases hconnector
  denied := by
    rintro step e m x _ hdenied ⟨⟨m₀, hsteady, -⟩, hspared⟩
    have hfree := hspared (Or.inl hdenied)
    rw [hsteady.2] at hfree
    exact Act.wp_mono _ (fun _ _ _ _ => trivial) (fun _ _ _ _ => trivial)
      ((steady_step hfree hnull htools wf).failRun _ _ m x hsteady)
  failed := by
    rintro step e m x _ hconnector ⟨⟨m₀, hsteady, -⟩, hspared⟩
    have hfree := hspared (Or.inr hconnector)
    rw [hsteady.2] at hfree
    have hinv : StepInv cfg wf (replaySpec d redact runId key row) (Steady runId (some (m₀, step))) :=
      steady_step hfree hnull htools wf
    exact Act.wp_mono _ (fun _ _ _ _ => trivial) (fun _ _ _ _ => trivial)
      (Act.keeps_bind (hinv.compensate step) (fun _ => hinv.failRun _ _) m x hsteady)
  other := fun _ _ _ _ _ _ _ _ => trivial
  finish := fun _ next m x _ h =>
    Act.wp_mono _ (fun _ _ _ h' => h') (fun _ _ _ _ => trivial) (atHead_advance next m x h)

end Loop

/-! ### Sessions -/

theorem replay_entry (hnull : row.resultJson ≠ .null) (attempt : Attempt runId) :
    Entry d (replaySpec d redact runId key row) (fun x => Session.visit x.2 = none) (Steady runId none)
      attempt.request where
  rely := fun x x₁ hnone hrely => Eq.trans hrely hnone
  early := by
    intro x m op answer y hnone hs hop _
    rw [hs.2.2, visit_append_call _ answer, hnone]
    rintro step rfl
    exact hop
  service := by
    intro x m op hop _
    cases op <;> trivial
  loaded := by
    rintro x m tenantId run y hnone - ⟨-, hload, hh⟩
    obtain ⟨hid, -⟩ := attempt.loaded hload
    refine ⟨hid, ?_⟩
    have hop : ∀ step, Op.loadRun tenantId attempt.request.runId ≠ .stepSpan step := by rintro step ⟨⟩
    rw [hh, visit_append_call _ _ hop, hnone]
  created := by
    rintro x m run y hnone - hwanted ⟨-, hs, hh⟩
    obtain ⟨hid, -⟩ := attempt.inserted hwanted hs
    refine ⟨hid, ?_⟩
    have hop : ∀ step, Op.insertRun run ≠ .stepSpan step := by rintro step ⟨⟩
    rw [hh, visit_append_call _ _ hop, hnone]
  resolve := fun _ _ _ _ _ => steady_plain trivial
  fired := fun _ _ _ h => h
  resume := by
    rintro cfg wf m x hcfg - h
    have htools : cfg.tools = d.engine.tools := by rcases hcfg with rfl | rfl <;> rfl
    refine (replay_outline hnull htools wf).drives fun _ => ⟨h.1, fun m₀ step hvisit => ?_⟩
    cases h.2.symm.trans hvisit

theorem replay_discipline (d : Deployment) (redact : Json → Json) (runId : String)
    (hnull : row.resultJson ≠ .null) :
    Serial.Discipline (Call.step d.engine.policy redact)
      (fun attempt : Attempt runId => attempt.request.program d)
      (fun db (event : Outside) db' => event.step d.engine.policy redact runId db db') (fun _ _ => True)
      (fun x => x.1.Recorded key row) (replaySpec d redact runId key row) (fun _ => True) where
  allowed := fun _ _ _ _ hx _ _ hrec => ⟨hx, hrec⟩
  refl := fun _ _ => rfl
  trans := fun _ _ _ h h' => Eq.trans h' h
  stable := fun _ _ _ _ => trivial
  call := fun _ _ _ _ hx _ _ hrec => effect_of_step hrec.1 hx
  env := fun _ h event _ hx _ henv => ⟨recorded_of_outside henv hx, visit_append_env h event⟩
  start := by
    intro db h attempt hx _
    refine ⟨hx, (replay_entry hnull attempt).program attempt.driver ?_⟩
    rw [visit_append]
    rfl

/-- Every call of the history replays the row. -/
def Session.Replays (tools : ToolRegistry) (runId key : String) (row : EffectRow) (h : Session.History runId) :
    Prop :=
  ∀ before call answer after, h = before ++ .call call answer :: after →
    Op.Replays tools runId key row (Session.visit before) call.op

/-- Attempts that start when the ledger holds a result that is not null replay it. -/
theorem replayed_of_recorded {c c' : Session} {attempt : Attempt runId} {labels : Session.History runId}
    (hrow : c.shared.Recorded key row) (hnull : row.resultJson ≠ .null)
    (hrun : Session.Run d redact runId c (.start attempt :: labels) c') :
    Session.Replays d.engine.tools runId key row labels := by
  rintro before call answer after rfl
  have hidle : Session.Run d redact runId (Session.idle c.shared)
      ((.start attempt :: before) ++ .call call answer :: after) c' := by
    cases hrun with
    | cons head tail =>
        cases head with
        | start => exact .cons (.start _ attempt) tail
  obtain ⟨db, -, -, hguar, -⟩ := hidle.guaranteed (h := []) (replay_discipline d redact runId hnull)
    (fun _ _ _ _ => trivial) (.idle hrow trivial)
  exact hguar

/-- **Replay.** Whatever came before `c`: when an attempt records an effect under a key there is a row under
it for good, with the recorded result if there was no row before. If the row's result is not null, no later
attempt executes a tool step under the key, and what a later attempt commits in a visit to a step of the key
is the entry's context with exactly this result as the output of the step, if it gets to see the row. -/
theorem recorded_replayed {c c' : Session} {between after : Session.History runId} {attempt : Attempt runId}
    {m : Mem} {tenantId owner stepId tool : String} {result : Json}
    (hrun : Session.Run d redact runId c
      (.call ⟨m, .recordEffect tenantId key owner stepId tool result⟩ () :: between ++ .start attempt :: after) c') :
    ∃ row, c'.shared.Recorded key row ∧
      (c.shared.toolEffects.find? key = none → row.tenantId = tenantId ∧ row.resultJson = result) ∧
      (row.resultJson ≠ .null → Session.Replays d.engine.tools runId key row after) := by
  obtain ⟨c₁, hbefore, hafter⟩ := hrun.split
  cases hbefore with
  | cons head tail =>
      cases head with
      | call hstep =>
          obtain ⟨row, hrow, hnew⟩ := recorded_of_record hstep
          have hrow₁ : c₁.shared.Recorded key row := recorded_of_session tail hrow
          exact ⟨row, recorded_of_session hafter hrow₁, hnew,
            fun hnull => replayed_of_recorded hrow₁ hnull hafter⟩

/-! ### A payment that is resumed after it was recorded -/

/-- The first attempt is abandoned when it has recorded the payment. -/
def replayedSession (value : Json) : Session.History "run" × Session :=
  Session.play payDeployment id (World.constant value)
    (.start (resumeAttempt "run") :: List.replicate 6 .call ++
      .start (resumeAttempt "run") :: List.replicate 8 .call) (Session.idle (DB.withRun "run" "payments"))

theorem replayedSession_run (value : Json) : Session.Run payDeployment id "run"
    (Session.idle (DB.withRun "run" "payments")) (replayedSession value).1 (replayedSession value).2 :=
  Session.play_run payDeployment id _ _ (by simp) _

/-- The first attempt is about to record the payment. -/
def recordingSession (value : Json) : Session :=
  (Session.play payDeployment id (World.constant value)
    (.start (resumeAttempt "run") :: List.replicate 5 .call) (Session.idle (DB.withRun "run" "payments"))).2

/-- It records the payment and is abandoned. -/
def retakenSession (value : Json) : Session.History "run" × Session :=
  Session.play payDeployment id (World.constant value)
    (.call :: .start (resumeAttempt "run") :: List.replicate 8 .call) (recordingSession value)

theorem recorded_replayed_paid :
    ∃ row, (retakenSession (.int 7)).2.shared.Recorded "run:pay:pay" row ∧ row.resultJson = .int 7 ∧
      Session.Replays payDeployment.engine.tools "run" "run:pay:pay" row ((retakenSession (.int 7)).1.drop 2) := by
  have hrun : Session.Run payDeployment id "run" (recordingSession (.int 7)) (retakenSession (.int 7)).1
      (retakenSession (.int 7)).2 := Session.play_run payDeployment id _ _ (by simp) _
  obtain ⟨row, hrow, hnew, hreplayed⟩ := @recorded_replayed _ _ _ "run:pay:pay" _ _ []
    ((retakenSession (.int 7)).1.drop 2) (resumeAttempt "run") _ _ _ _ _ _ hrun
  obtain ⟨-, hvalue⟩ := hnew rfl
  refine ⟨row, hrow, hvalue, hreplayed ?_⟩
  rw [hvalue]
  rintro ⟨⟩

/-- A payment that was recorded as null is made again under the same key. -/
theorem not_replayed_null :
    ∃ row m tenantId owner stepId tool result,
      Session.Run payDeployment id "run" (Session.idle (DB.withRun "run" "payments"))
        ((replayedSession .null).1.take 7 ++ .start (resumeAttempt "run") :: (replayedSession .null).1.drop 8)
        (replayedSession .null).2 ∧
      .call ⟨m, .recordEffect tenantId "run:pay:pay" owner stepId tool result⟩ () ∈ (replayedSession .null).1.take 7 ∧
      (replayedSession .null).2.shared.Recorded "run:pay:pay" row ∧ row.resultJson = .null ∧
      ¬Session.Replays payDeployment.engine.tools "run" "run:pay:pay" row ((replayedSession .null).1.drop 8) := by
  refine ⟨_, _, _, _, _, _, _, replayedSession_run .null, List.mem_of_getElem? (i := 6) rfl, rfl, rfl, ?_⟩
  intro hreplayed
  exact hreplayed (((replayedSession .null).1.drop 8).take 4) ⟨_, .execute (.step "pay") "pay" _⟩ _ _ rfl rfl rfl

end Bass
