import Bass.Data.Text
import Bass.Proof.StepCalls
import Bass.Proof.StoreLemmas

/-!
# Which tool steps share a ledger key

The ledger key of a tool step is its run, its id and its tool, joined with colons that are not escaped. Run
ids have a fixed shape, so steps of different runs never share a key. Within one run an id and a tool name
that contain colons can be cut in more than one way.
-/

namespace Bass

open Interaction EngineM

/-- What `_run_tool` builds a ledger key from. -/
structure KeyedStep where
  runId : String
  stepId : String
  tool : String
  deriving DecidableEq

namespace KeyedStep

def key (s : KeyedStep) : String := ledgerKey s.runId s.stepId s.tool

/-- An execution of `_run_tool` for the step, complete or not. -/
def Executes (s : KeyedStep) (redact : Json → Json) (db : DB) (trace : Trail) (db' : DB) : Prop :=
  ∃ cfg step m rest, step.id = s.stepId ∧ step.tool = some s.tool ∧ m.run.id = s.runId ∧
    Prog.Exec (Call.step cfg.policy redact) ((WorkflowEngine.runTool cfg step).exec m) db trace rest db'

/-- An execution of `s` makes no difference to the lookup with which an execution of `t` begins. -/
def Spares (s t : KeyedStep) : Prop :=
  ∀ redact db trace db₁ m tenantId key answer trace' db', s.Executes redact db trace db₁ →
    t.Executes redact db₁ (⟨⟨m, .getEffect tenantId key⟩, answer⟩ :: trace') db' →
      answer = db.getEffect tenantId key

/-- The steps have different keys, and neither finds what the other recorded. -/
structure Separate (s t : KeyedStep) : Prop where
  keys : s.key ≠ t.key
  spares : s.Spares t
  spared : t.Spares s

/-- Both steps are of one run, and what one of them names as its id the other cuts at a colon: the part
behind the colon stands in front of its tool name. -/
def Confusable (s t : KeyedStep) : Prop :=
  s.runId = t.runId ∧ ∃ part,
    (t.stepId = s.stepId ++ ":" ++ part ∧ s.tool = part ++ ":" ++ t.tool) ∨
      (s.stepId = t.stepId ++ ":" ++ part ∧ t.tool = part ++ ":" ++ s.tool)

/-! ### The text of a key -/

theorem toList_key (s : KeyedStep) :
    s.key.toList = s.runId.toList ++ ':' :: (s.stepId.toList ++ ':' :: s.tool.toList) := by
  simp [key, ledgerKey, toString]

/-- A colon and a part in the middle of a text, seen from its letters. -/
theorem eq_append_colon_iff (whole left part : String) :
    whole = left ++ ":" ++ part ↔ whole.toList = left.toList ++ ':' :: part.toList := by
  rw [← String.toList_inj, String.toList_append, String.toList_append, List.append_assoc]
  rfl

theorem exists_part_iff (whole left right rest : String) :
    (∃ part : String, whole = left ++ ":" ++ part ∧ right = part ++ ":" ++ rest) ↔
      ∃ w, whole.toList = left.toList ++ ':' :: w ∧ right.toList = w ++ ':' :: rest.toList := by
  simp only [eq_append_colon_iff]
  constructor
  · rintro ⟨part, hwhole, hright⟩
    exact ⟨part.toList, hwhole, hright⟩
  · rintro ⟨w, hwhole, hright⟩
    refine ⟨String.ofList w, ?_, ?_⟩ <;> rw [String.toList_ofList]
    · exact hwhole
    · exact hright

/-- Keys of runs whose ids have one length agree exactly if the steps do or can be confused. -/
theorem key_eq_iff {s t : KeyedStep} (hlength : s.runId.toList.length = t.runId.toList.length) :
    s.key = t.key ↔ s = t ∨ s.Confusable t := by
  have hsame : s = t ↔ s.runId = t.runId ∧ s.stepId.toList = t.stepId.toList ∧
      s.tool.toList = t.tool.toList := by
    cases s
    cases t
    simp only [mk.injEq, String.toList_inj]
  have hcuts : s.key = t.key ↔ s.runId = t.runId ∧
      s.stepId.toList ++ ':' :: s.tool.toList = t.stepId.toList ++ ':' :: t.tool.toList := by
    rw [← String.toList_inj, toList_key, toList_key]
    constructor
    · intro h
      obtain ⟨hrun, hrest⟩ := List.append_inj h hlength
      exact ⟨String.toList_inj.mp hrun, (List.cons.inj hrest).2⟩
    · rintro ⟨hrun, hrest⟩
      rw [hrun, hrest]
  rw [hcuts, hsame, Text.append_cons_eq_iff, Confusable, exists_or, exists_part_iff, exists_part_iff,
    ← and_or_left]

/-- A key without colons in its parts has only one reading. -/
theorem parts_of_key {s t : KeyedStep} (hrun : ':' ∉ t.runId.toList) (hstep : ':' ∉ t.stepId.toList)
    (htool : ':' ∉ t.tool.toList) (h : s.key = t.key) : s = t := by
  have htext : s.runId.toList ++ ':' :: (s.stepId.toList ++ ':' :: s.tool.toList) =
      t.runId.toList ++ ':' :: (t.stepId.toList ++ ':' :: t.tool.toList) := by
    rw [← toList_key, ← toList_key, h]
  have hcount := congrArg (List.count ':') htext
  simp only [List.count_append, List.count_cons_self, List.count_eq_zero.mpr hrun,
    List.count_eq_zero.mpr hstep, List.count_eq_zero.mpr htool] at hcount
  have hcolons : s.runId.toList.count ':' = 0 ∧ s.stepId.toList.count ':' = 0 := by omega
  obtain ⟨hrunId, hrest⟩ := Text.append_cons_inj_of_parts (List.count_eq_zero.mp hcolons.1) hrun htext
  obtain ⟨hstepId, htoolName⟩ := Text.append_cons_inj_of_parts (List.count_eq_zero.mp hcolons.2) hstep hrest
  cases s
  cases t
  simp only [mk.injEq]
  exact ⟨String.toList_inj.mp hrunId, String.toList_inj.mp hstepId, String.toList_inj.mp htoolName⟩

theorem length_of_newId {kind id : String} (h : NewId kind id) :
    id.toList.length = kind.toList.length + 13 := by
  obtain ⟨hex, hlength, -, hid⟩ := h
  rw [hid, List.length_append, List.length_cons, hlength]

/-! ### What an execution does to the ledger -/

section Ledger

variable {s t : KeyedStep} {redact : Json → Json} {db db' : DB} {trace : Trail}

/-- Under another key everything is found as before. -/
theorem getEffect_of_step {policy : PolicyEngine} {op : Op} {answer : op.Res}
    (h : op.step policy redact db answer db') {key : String}
    (hop : ∀ tenantId key' runId stepId tool result,
      op = .recordEffect tenantId key' runId stepId tool result → key' ≠ key) (tenantId : String) :
    db'.getEffect tenantId key = db.getEffect tenantId key := by
  unfold DB.getEffect
  rcases effects_of_step h with hsame | ⟨owner, key', runId, stepId, tool, result, now, hrecord, hinsert⟩
  · rw [hsame]
  · rw [hinsert, Table.find?_insert_of_ne _ (hop _ _ _ _ _ _ hrecord)]

/-- The calls of `_run_tool` are about the ledger key of its step only. -/
theorem performs_runTool (cfg : EngineConfig) (step : Step) (tenantId runId : String) :
    Performs cfg (Op.Of cfg step) tenantId runId (WorkflowEngine.runTool cfg step) :=
  (performs_driver cfg (Op.Of cfg step) tenantId runId).runTool performs_awaitApproval

/-- An execution leaves what is found under other keys as it is. -/
theorem Executes.getEffect (h : s.Executes redact db trace db') {key : String} (hkey : s.key ≠ key)
    (tenantId : String) : db'.getEffect tenantId key = db.getEffect tenantId key := by
  obtain ⟨cfg, step, m, rest, hid, htool, hrun, hexec⟩ := h
  have hcalls := performs_runTool cfg step m.run.tenantId m.run.id m () ⟨rfl, rfl⟩
  refine hexec.preserves (K := fun x y => y.getEffect tenantId key = x.getEffect tenantId key)
    (fun _ => rfl) (fun _ _ _ hxy hyz => by rw [hyz, hxy]) (fun x call answer y hcall hstep => ?_) hcalls
  refine getEffect_of_step hstep (fun tenant key' runId stepId tool result hop => ?_) tenantId
  obtain ⟨hof, hby⟩ := hcall
  rw [hop] at hof hby
  obtain ⟨hstepId, htool', -⟩ := hof
  obtain rfl : s.tool = tool := Option.some.inj (htool.symm.trans htool')
  have hown : key' = s.key := by
    rw [hby.2.2, hstepId, hid, hrun]
    rfl
  rw [hown]
  exact hkey

theorem exec_getRun_bind {α : Type} (f : Run → EngineM α) (m : Mem) :
    (getRun >>= f).exec m = (f m.run).exec m := rfl

/-- The gate begins with the policy check. -/
theorem exec_gate (cfg : EngineConfig) (step : Step) (tool : Tool) (name : String) (args : Args) (m : Mem) :
    ∃ next, (WorkflowEngine.gate cfg step tool name args).exec m = .call
      ⟨m, .policyCheck (WorkflowEngine.systemAgent name) tool args m.run.context⟩ next :=
  ⟨_, Act.exec_perform_bind _ _ m⟩

theorem exec_cachedEffect (tool : Tool) (key : String) (m : Mem) :
    (WorkflowEngine.cachedEffect tool key).exec m =
      if tool.sideEffect then
        .call ⟨m, .getEffect m.run.tenantId key⟩ fun answer => (Act.ofExcept answer : EngineM Json).exec m
      else .pure (.ok .null, m) := by
  unfold WorkflowEngine.cachedEffect
  split
  · exact Act.exec_perform_bind _ _ m
  · rfl

/-- If `_run_tool` begins with a lookup, it is of the key of the step. -/
theorem lookup_of_runTool {cfg : EngineConfig} {step : Step} {name : String} {m₀ m : Mem}
    {tenantId key : String} {next : (Op.getEffect tenantId key).Res → Driver (Except Exc (Option String) × Mem)}
    (htool : step.tool = some name)
    (h : (WorkflowEngine.runTool cfg step).exec m₀ = .call ⟨m, .getEffect tenantId key⟩ next) :
    key = ledgerKey m₀.run.id step.id name := by
  unfold WorkflowEngine.runTool at h
  rw [htool] at h
  simp only at h
  rw [Act.exec_ofExcept_bind] at h
  cases hget : cfg.tools.get name with
  | error e => 
      rw [hget] at h
      cases h
  | ok tool =>
      rw [hget] at h
      simp only at h
      rw [exec_getRun_bind, Act.exec_ofExcept_bind] at h
      cases hresolve : resolve step.args m₀.run.context with
      | error e =>
          rw [hresolve] at h
          cases h
      | ok args =>
          rw [hresolve] at h
          simp only at h
          rw [Act.exec_bind, exec_cachedEffect] at h
          split at h
          · rw [Prog.call_bind] at h
            injection h with hop
            cases hop
            rfl
          · obtain ⟨_, hgate⟩ := exec_gate cfg step tool name args m₀
            rw [Prog.pure_bind] at h
            simp only [Json.isNone, if_true] at h
            rw [Act.exec_bind, hgate, Prog.call_bind] at h
            injection h with hop
            cases hop

/-- A lookup with which an execution begins is of the key of its step. -/
theorem Executes.lookup {m : Mem} {tenantId key : String} {answer : Except Exc Json}
    (h : s.Executes redact db (⟨⟨m, .getEffect tenantId key⟩, answer⟩ :: trace) db') :
    key = s.key ∧ answer = db.getEffect tenantId key := by
  obtain ⟨cfg, step, m₀, rest, hid, htool, hrun, hexec⟩ := h
  generalize hcode : (WorkflowEngine.runTool cfg step).exec m₀ = code at hexec
  cases hexec with
  | cons head tail =>
      refine ⟨?_, head.1⟩
      rw [lookup_of_runTool htool hcode, hid, hrun]
      rfl

theorem spares_of_key_ne (h : s.key ≠ t.key) : s.Spares t := by
  intro redact db trace db₁ m tenantId key answer trace' db' hs ht
  obtain ⟨rfl, hanswer⟩ := ht.lookup
  rw [hanswer, hs.getEffect h]

end Ledger

/-- Steps that differ have different keys and spare each other's lookups, unless they can be confused. -/
theorem separate_iff {s t : KeyedStep} (hs : NewId "run" s.runId) (ht : NewId "run" t.runId) (hne : s ≠ t) :
    s.Separate t ↔ ¬s.Confusable t := by
  have hkey : s.key = t.key ↔ s.Confusable t := by
    rw [key_eq_iff ((length_of_newId hs).trans (length_of_newId ht).symm)]
    exact or_iff_right hne
  constructor
  · intro hsep hconfusable
    exact hsep.keys (hkey.mpr hconfusable)
  · intro hclear
    have hkeys : s.key ≠ t.key := fun heq => hclear (hkey.mp heq)
    exact ⟨hkeys, spares_of_key_ne hkeys, spares_of_key_ne hkeys.symm⟩

/-! ### Two steps of one run -/

def transfer : KeyedStep := ⟨"run_000000000000", "transfer", "bank:send"⟩

def transferBank : KeyedStep := ⟨"run_000000000000", "transfer:bank", "send"⟩

theorem newId_runZeros : NewId "run" "run_000000000000" := by
  refine ⟨List.replicate 12 '0', List.length_replicate, fun c hc => ?_, rfl⟩
  rw [List.eq_of_mem_replicate hc]
  decide

/-- Without a colon in the names no part of one can be taken for a part of the other. -/
theorem separate_transfer_refund :
    Separate ⟨"run_000000000000", "transfer", "send"⟩ ⟨"run_000000000000", "refund", "send"⟩ := by
  refine (separate_iff newId_runZeros newId_runZeros (by decide)).mpr ?_
  rintro ⟨-, part, ⟨hid, -⟩ | ⟨hid, -⟩⟩ <;> rw [eq_append_colon_iff] at hid <;> cases hid

def sendTool (name : String) : Tool :=
  { name := name
    connector := "bank"
    sideEffect := true }

def transferConfig : EngineConfig :=
  { payDeployment.engine with
    tools :=
      { tools := Dict.ofList [("bank:send", sendTool "bank:send"), ("send", sendTool "send")]
        connectors := ["bank"]
        named := by decide
        connected := by decide } }

/-- The step is carried out to its end in a world where every tool answers a receipt. -/
def play (s : KeyedStep) (db : DB) : Trail × (Except Exc (Option String) × Mem) × DB :=
  ((WorkflowEngine.runTool transferConfig { id := s.stepId, nodeType := .tool, tool := some s.tool }).exec
    ⟨(newRow s.runId "transfers").toRun, []⟩).complete
    (fun db call => call.op.serve transferConfig.policy id (.constant (.str "receipt")) db) db

theorem executes_play (s : KeyedStep) (db : DB) : s.Executes id db (s.play db).1 (s.play db).2.2 :=
  ⟨transferConfig, _, _, _, rfl, rfl, rfl,
    Prog.complete_exec (fun db (call : Call) => call.op.serve_step transferConfig.policy id _ db) _ _⟩

/-- The second of two transfers is not made: its step replays the receipt of the first. -/
theorem not_separate_transfer : NewId "run" transfer.runId ∧ NewId "run" transferBank.runId ∧
    transfer ≠ transferBank ∧ transfer.key = transferBank.key ∧ ¬transfer.Spares transferBank := by
  refine ⟨newId_runZeros, newId_runZeros, by decide, by decide, fun hspares => ?_⟩
  have hanswer := hspares id _ _ _ _ _ _ _ _ _ (transfer.executes_play DB.empty)
    (transferBank.executes_play (transfer.play DB.empty).2.2)
  cases hanswer

end KeyedStep

end Bass
