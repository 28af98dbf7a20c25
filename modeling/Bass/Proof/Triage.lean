import Bass.Proof.LedgerKeys
import Bass.Proof.Mediation
import Bass.Proof.Postings
import Bass.Proof.Refinement

/-!
# What the reference service computes

Invoice triage from the trigger to the books, with the offline model and the reference tools behind their
connector. The graph is a line of four steps, so a walk is at one of five places, and each of them leaves only
one thing to compute. The engine walks the graph: whatever else happens to a run, if it succeeds its result is
the triage of its trigger.
-/

namespace Bass

open Interaction

/-! ### The triage of a trigger -/

namespace Triage

section Trigger

variable (trigger : Trigger)

def vendor : Json := (trigger.rows.lookup "vendor").getD (.str "Globex Corp")

def invoiceNumber : Json := (trigger.rows.lookup "invoice_number").getD (.str "INV-4471")

def amount : Json := (trigger.rows.lookup "amount").getD (.float (.finite 8200))

/-- What the invoice says. -/
def reading : Json :=
  .obj [("vendor", vendor trigger), ("invoice_number", invoiceNumber trigger), ("amount", amount trigger),
    ("currency", .str "USD")]

/-- What the accounting system knows of the vendor. -/
def found : Json := AccountingSystem.lookupVendor (Dict.ofList [("vendor", vendor trigger)])

/-- The entry for the invoice. -/
def entry : Json :=
  .obj [("vendor", vendor trigger), ("invoice_number", invoiceNumber trigger), ("amount", amount trigger),
    ("status", .str "posted")]

def result : Json := .obj [("extract", reading trigger), ("validate", found trigger), ("post", entry trigger)]

end Trigger

/-! ### The places of a walk -/

section Walk

variable {g : Setting} {trigger : Trigger}

def afterExtract (trigger : Trigger) : Context := Dict.set Table.empty "extract" (reading trigger)

def afterValidate (trigger : Trigger) (output : Json) : Context :=
  Dict.set (afterExtract trigger) "validate" output

def afterPost (trigger : Trigger) (output posted : Json) : Context :=
  Dict.set (afterValidate trigger output) "post" posted

def validateKey (runId : String) : String := ledgerKey runId "validate" "lookup_vendor"

def postKey (runId : String) : String := ledgerKey runId "post" "create_ap_entry"

inductive At (g : Setting) (trigger : Trigger) : Place → Prop where
  | extract : At g trigger ⟨some "extract", Table.empty⟩
  | validate : At g trigger ⟨some "validate", afterExtract trigger⟩
  | decide {output : Json} (h : g.outcomes.tool (validateKey g.runId) output) :
      At g trigger ⟨some "decide", afterValidate trigger output⟩
  | post {output : Json} (h : g.outcomes.tool (validateKey g.runId) output) :
      At g trigger ⟨some "post", afterValidate trigger output⟩
  | posted {output posted : Json} (h : g.outcomes.tool (validateKey g.runId) output)
      (h' : g.outcomes.tool (postKey g.runId) posted) : At g trigger ⟨none, afterPost trigger output posted⟩

theorem extracted_of_reading {context : Context} (h : context.get? "extract" = some (reading trigger)) :
    ExampleRun.extracted "vendor" context = .ok (vendor trigger) ∧
      ExampleRun.extracted "invoice_number" context = .ok (invoiceNumber trigger) ∧
      ExampleRun.extracted "amount" context = .ok (amount trigger) := by
  unfold ExampleRun.extracted
  rw [h]
  exact ⟨rfl, rfl, rfl⟩

theorem resolve_vendor {context : Context} (h : context.get? "extract" = some (reading trigger)) :
    resolve ExampleRun.validate.args context = .ok (Dict.ofList [("vendor", vendor trigger)]) := by
  obtain ⟨hvendor, -, -⟩ := extracted_of_reading h
  have hargs : ExampleRun.validate.args.rows = [("vendor", .fn (ExampleRun.extracted "vendor"))] := rfl
  rw [resolve, hargs]
  simp [ArgValue.eval, hvendor]

theorem resolve_entry {context : Context} (h : context.get? "extract" = some (reading trigger)) :
    resolve ExampleRun.post.args context = .ok (Dict.ofList [("vendor", vendor trigger),
      ("invoice_number", invoiceNumber trigger), ("amount", amount trigger)]) := by
  obtain ⟨hvendor, hnumber, hamount⟩ := extracted_of_reading h
  have hargs : ExampleRun.post.args.rows = [("vendor", .fn (ExampleRun.extracted "vendor")),
      ("invoice_number", .fn (ExampleRun.extracted "invoice_number")),
      ("amount", .fn (ExampleRun.extracted "amount"))] := rfl
  rw [resolve, hargs]
  simp [ArgValue.eval, hvendor, hnumber, hamount]
  rfl

/-- Both arms of the branch lead to the entry. -/
theorem chosen_of_arms {context : Context} {predicate : Context → Except Exc Bool} {goto : String}
    {choice : Option String}
    (h : WorkflowEngine.chooseBranch context [(some predicate, goto), (none, goto)] = .ok choice) :
    choice = some goto := by
  unfold WorkflowEngine.chooseBranch at h
  cases hholds : predicate context with
  | error e =>
      rw [hholds] at h
      cases h
  | ok holds =>
      rw [hholds] at h
      cases holds <;> cases h <;> rfl

/-- The extractor of the offline model reads the trigger. -/
def Reads (g : Setting) (trigger : Trigger) : Prop :=
  ∀ agent output, agent.name = "invoice_extractor" →
    g.outcomes.agent agent (Dict.ofList [("email", .obj trigger.rows)]) output → output = reading trigger

theorem At.follows {place place' : Place} (hagents : g.agents = ExampleRun.buildAgents)
    (htrigger : g.trigger = .obj trigger.rows) (hreads : Reads g trigger) (h : At g trigger place)
    (hfollows : ExampleRun.buildWorkflow.Follows g place place') : At g trigger place' := by
  cases hfollows with
  | step hstep hleaves =>
      cases h with
      | extract =>
          cases hstep
          cases hleaves with
          | acts houtputs =>
              cases houtputs with
              | agent hnode hagent htask houtput =>
                  rw [hagents] at hagent
                  cases hagent
                  cases htask
                  rw [htrigger] at houtput
                  rw [hreads _ _ rfl houtput]
                  exact .validate
              | tool hnode => cases hnode
          | branches hnode | approves hnode | terminates hnode => cases hnode
      | validate =>
          cases hstep
          cases hleaves with
          | acts houtputs =>
              cases houtputs with
              | agent hnode => cases hnode
              | tool hnode htool hargs houtput =>
                  cases htool
                  exact .decide houtput
          | branches hnode | approves hnode | terminates hnode => cases hnode
      | decide h =>
          cases hstep
          cases hleaves with
          | acts houtputs => cases houtputs <;> contradiction
          | branches hnode hchoice =>
              obtain rfl := chosen_of_arms hchoice
              exact .post h
          | approves hnode | terminates hnode => cases hnode
      | post h =>
          cases hstep
          cases hleaves with
          | acts houtputs =>
              cases houtputs with
              | agent hnode => cases hnode
              | tool hnode htool hargs houtput =>
                  cases htool
                  exact .posted h houtput
          | branches hnode | approves hnode | terminates hnode => cases hnode

theorem at_of_attains (hagents : g.agents = ExampleRun.buildAgents) (htrigger : g.trigger = .obj trigger.rows)
    (hreads : Reads g trigger) {place : Place} (h : ExampleRun.buildWorkflow.Attains g place) :
    At g trigger place := by
  induction h with
  | refl => exact .extract
  | tail _ hfollows ih => exact ih.follows hagents htrigger hreads hfollows

theorem reading_afterExtract : (afterExtract trigger).get? "extract" = some (reading trigger) :=
  Dict.get?_set_self _ _ _

theorem reading_afterValidate (output : Json) :
    (afterValidate trigger output).get? "extract" = some (reading trigger) :=
  (Dict.get?_set_of_ne _ _ (by decide)).trans reading_afterExtract

/-- The two tools are asked for what the invoice says. -/
theorem asks_cases (hagents : g.agents = ExampleRun.buildAgents) (htrigger : g.trigger = .obj trigger.rows)
    (hreads : Reads g trigger) {stepId tool : String} {args : Args}
    (h : ExampleRun.buildWorkflow.Asks g stepId tool args) :
    stepId = "validate" ∧ tool = "lookup_vendor" ∧ args = Dict.ofList [("vendor", vendor trigger)] ∨
      stepId = "post" ∧ tool = "create_ap_entry" ∧ args = Dict.ofList [("vendor", vendor trigger),
        ("invoice_number", invoiceNumber trigger), ("amount", amount trigger)] := by
  cases h with
  | @step name tool step context args hattains hstep hnode htool hargs =>
      cases at_of_attains hagents htrigger hreads hattains with
      | validate =>
          have hvalidate : some ExampleRun.validate = some step := hstep
          cases hvalidate
          cases htool
          rw [resolve_vendor reading_afterExtract] at hargs
          cases hargs
          exact Or.inl ⟨rfl, rfl, rfl⟩
      | post h =>
          have hpost : some ExampleRun.post = some step := hstep
          cases hpost
          cases htool
          rw [resolve_entry (reading_afterValidate _)] at hargs
          cases hargs
          exact Or.inr ⟨rfl, rfl, rfl⟩
      | extract | decide =>
          cases hstep
          cases hnode
  | compensation hattains hstep hcomp hnode htool hargs =>
      cases at_of_attains hagents htrigger hreads hattains with
      | extract | validate | decide | post =>
          cases hstep
          cases hcomp

end Walk

/-! ### The answers -/

theorem respond_extractor {agent : Agent} (h : agent.name = "invoice_extractor") (trigger : Trigger)
    (scratch : Scratch) :
    MockModel.respond agent (Dict.ofList [("email", .obj trigger.rows)]) scratch =
      .ok ({ type := some "final"
             costUsd := some (2 / 1000)
             output := some (reading trigger) }, scratch) := by
  rw [MockModel.respond, if_pos h]
  rfl

section Run

variable {d : Deployment} {redact : Json → Json} {c : Connector} {others : DictKey → Json → Prop}
  {x₀ : DB × AccountingSystem} {labels : List (Pool.Label Request Call Call.Res)}
  {p : Pool Request Call Call.Res (DB × AccountingSystem)}

/-- The drivers do not see the accounting system but through their calls. -/
theorem system_of_posting (hrun : Posting.Run d redact c others ⟨[], x₀⟩ labels p) :
    System.Run d redact ⟨[], x₀.1⟩ (labels.filter Pool.Label.isMove) ⟨p.threads, p.shared.1⟩ := by
  have hseen : ∀ (db : DB) (x : DB × AccountingSystem) call answer y, db = x.1 →
      Posting.step d redact c others x call answer y →
      ∃ db', Call.step d.engine.policy redact db call answer db' ∧ db' = y.1 := by
    rintro db x call answer y rfl hstep
    exact ⟨y.1, hstep.1, rfl⟩
  have hunseen : ∀ (db : DB) (x y : DB × AccountingSystem), db = x.1 → Posting.env others x y → db = y.1 :=
    fun db x y hdb henv => hdb.trans henv.1.symm
  obtain ⟨db, hsystem, hdb⟩ := hrun.without_env hseen hunseen rfl
  rwa [hdb] at hsystem

/-- The run has not been heard of: it is not stored, and nothing is recorded for its steps. -/
def Fresh (runId : String) (db : DB) : Prop :=
  db.runs.find? runId = none ∧ ∀ stepId tool, db.toolEffects.find? (ledgerKey runId stepId tool) = none

/-- The model of the service is the offline one. -/
def Modelled (labels : List (Pool.Label Request Call Call.Res)) : Prop :=
  ∀ i m agent task scratch out, .call i ⟨m, .respond agent task scratch⟩ (.ok out) ∈ labels →
    MockModel.respond agent task scratch = .ok out

/-- The run has asked for the entry in its step. -/
def Asked (runId : String) (labels : List (Pool.Label Request Call Call.Res)) (entry : Json) : Prop :=
  ∃ i m args answer, .call i ⟨m, .execute (.step "post") "create_ap_entry" args⟩ answer ∈ labels ∧
    m.run.id = runId ∧ entry = AccountingSystem.newEntry args

theorem reads_heard {db : DB} {runId : String} {trigger : Trigger} {triggerEvent : Json}
    (hmodel : Modelled labels) :
    Reads (.heard d db (labels.filter Pool.Label.isMove) runId triggerEvent) trigger := by
  rintro agent output hname ⟨i, m, scratch, resp, scratch', hmem, -, houtput⟩
  have hanswer := hmodel i m agent _ scratch _ (List.mem_of_mem_filter hmem)
  rw [respond_extractor hname] at hanswer
  cases hanswer
  exact (Option.some.inj houtput).symm

/-- What a walk has heard from a tool of the run, the tool has answered the run. -/
theorem executed_of_heard {db : DB} {runId stepId tool : String} {value : Json} (hfresh : Fresh runId db)
    (hrunId : ':' ∉ runId.toList) (hstepId : ':' ∉ stepId.toList) (htool : ':' ∉ tool.toList)
    (h : (Outcomes.heard db (labels.filter Pool.Label.isMove)).tool (ledgerKey runId stepId tool) value) :
    ∃ i m args, .call i ⟨m, .execute (.step stepId) tool args⟩ (.ok value) ∈ labels ∧ m.run.id = runId := by
  rcases h with ⟨effect, hmem, hkey, -⟩ | ⟨i, m, stepId', name, args, hmem, hkey⟩
  · have hfound := Table.find?_of_mem hmem
    rw [hkey, hfresh.2] at hfound
    cases hfound
  · have hparts : (⟨m.run.id, stepId', name⟩ : KeyedStep) = ⟨runId, stepId, tool⟩ :=
      KeyedStep.parts_of_key hrunId hstepId htool hkey.symm
    cases hparts
    exact ⟨i, m, args, List.mem_of_mem_filter hmem, rfl⟩

theorem looked_up (hrun : Posting.Run d redact c others ⟨[], x₀⟩ labels p) (htools : d.engine.tools = referenceTools)
    {i : Nat} {m : Mem} {caller : Caller} {args : Args} {output : Json}
    (h : .call i ⟨m, .execute caller "lookup_vendor" args⟩ (.ok output) ∈ labels) :
    output = AccountingSystem.lookupVendor args := by
  obtain ⟨x, y, -, hposts⟩ := hrun.step_of_mem h
  rw [htools] at hposts
  have hruns : c.Runs others "lookup_vendor" args x.2 (.ok output) y.2 := hposts
  obtain ⟨-, acct₁, hinvoke⟩ := Connector.Runs.ended hruns
  have hanswer : (Except.ok (AccountingSystem.lookupVendor args), acct₁) = (.ok output, y.2) := hinvoke
  cases hanswer
  rfl

theorem sent_of_asked {g : Setting} {trigger : Trigger} (htools : d.engine.tools = referenceTools)
    (hagents : g.agents = ExampleRun.buildAgents) (htrigger : g.trigger = .obj trigger.rows)
    (hreads : Reads g trigger) {m : Mem} {stepId name : String} {sent : Args}
    (h : Call.Walks d g ExampleRun.buildWorkflow ⟨m, .execute (.step stepId) name sent⟩) (hid : m.run.id = g.runId) :
    (stepId = "validate" → sent = Dict.ofList [("vendor", vendor trigger)]) ∧
      (stepId = "post" → sent = Dict.set (Dict.ofList [("vendor", vendor trigger),
        ("invoice_number", invoiceNumber trigger), ("amount", amount trigger)]) "_idempotency_key"
          (.str (postKey g.runId))) := by
  obtain ⟨tool, args, hfound, hasks, rfl⟩ := h hid
  rw [htools] at hfound
  rw [hid]
  rcases asks_cases hagents htrigger hreads hasks with ⟨rfl, rfl, rfl⟩ | ⟨rfl, rfl, rfl⟩
  · have hlookup : Except.ok lookupVendorTool = (.ok tool : Except Exc Tool) := hfound
    cases hlookup
    exact ⟨fun _ => rfl, fun heq => absurd heq (by decide)⟩
  · have hcreate : Except.ok createApEntryTool = (.ok tool : Except Exc Tool) := hfound
    cases hcreate
    exact ⟨fun heq => absurd heq (by decide), fun _ => rfl⟩

/-- The only agent of the service may not post. -/
theorem not_create_of_agent {agent : Agent} (hagents : d.engine.agents = ExampleRun.buildAgents)
    (h : d.engine.HasAgent agent) : "create_ap_entry" ∉ agent.tools := by
  obtain ⟨name, hname⟩ := h
  rw [hagents] at hname
  by_cases hextractor : "invoice_extractor" = name
  · subst hextractor
    cases hname
    decide
  · have hother : ExampleRun.buildAgents.get? name = none := Dict.get?_set_of_ne Table.empty _ hextractor
    cases hother.symm.trans hname

/-- What is in the books under the key of the run, the run has asked for, unless it was there before or others
have posted it. -/
theorem asked_of_run (hrun : Posting.Run d redact c others ⟨[], x₀⟩ labels p)
    (htools : d.engine.tools = referenceTools) (hagents : d.engine.agents = ExampleRun.buildAgents)
    {runId : String} (hrunId : ':' ∉ runId.toList)
    (hbooks : ∀ entry, x₀.2.entries.get? (.text (postKey runId)) = some entry → Asked runId labels entry)
    (hothers : ∀ entry, others (.text (postKey runId)) entry → Asked runId labels entry) {posted : Json}
    (h : p.shared.2.entries.get? (.text (postKey runId)) = some posted) : Asked runId labels posted := by
  rcases origin_of_run hrun h with hbefore | hother | ⟨i, m, caller, name, args, answer, hmem, rfl, hkey, rfl⟩
  · exact hbooks posted hbefore
  · exact hothers posted hother
  · have hsystem := system_of_posting hrun
    obtain ⟨before, after, hlabels⟩ :=
      List.append_of_mem (List.mem_filter.mpr ⟨hmem, rfl⟩ : _ ∈ labels.filter Pool.Label.isMove)
    rw [hlabels] at hsystem
    have htrace := Pool.trace_call i before after ⟨m, .execute caller "create_ap_entry" args⟩ answer
    cases caller with
    | agent agentName =>
        obtain ⟨earlier, m₁, agent, tool, checked, decision, approval, -, -, -, hagent, -, hlisted, -⟩ :=
          hsystem.owed htrace (fun request => mediated_program request []) _ _ _ rfl
        exact absurd hlisted (not_create_of_agent hagents hagent)
    | step stepId =>
        have hmutates : d.engine.tools.mutates "create_ap_entry" = true := by
          rw [htools]
          exact mutates_createApEntry defaultRegistry_eq
        have howed := hsystem.owed htrace fun request => keyed_program d request (nothingOwed_nil _)
        have hsent := AccountingSystem.dictKey_entryKey (ledgerKey_ne_empty _ _ _)
          (howed.1 stepId "create_ap_entry" args rfl hmutates)
        have hsame : ledgerKey m.run.id stepId "create_ap_entry" = postKey runId :=
          DictKey.text.inj (Except.ok.inj (hsent.symm.trans hkey))
        have hstep : ':' ∉ "post".toList := by decide
        have htool : ':' ∉ "create_ap_entry".toList := by decide
        have hparts : (⟨m.run.id, stepId, "create_ap_entry"⟩ : KeyedStep) = ⟨runId, "post", "create_ap_entry"⟩ :=
          KeyedStep.parts_of_key hrunId hstep htool hsame
        cases hparts
        exact ⟨i, m, args, answer, hmem, rfl, rfl⟩

end Run

end Triage

open Triage

/-- **Invoice triage.** The reference service with the offline model and the reference tools, whatever else drives,
crashes, retries, decides and posts meanwhile, as long as the books hold at first and others post nothing under
the key of the run but what the run asks for: if a run of the reference workflow succeeds, its result is the
triage of its trigger, and the entry of the triage is in the books under the key of the run. -/
theorem triage_computed {rules : TextRules} {builtins : Builtins} {d : Deployment} {redact : Json → Json}
    {c : Connector} {others : DictKey → Json → Prop} {x₀ : DB × AccountingSystem}
    {labels : List (Pool.Label Request Call Call.Res)} {p : Pool Request Call Call.Res (DB × AccountingSystem)}
    (hd : buildDefaultApp rules builtins = .ok d)
    (hrun : Posting.Run d redact c others ⟨[], x₀⟩ labels p) {runId : String} (hrunId : ':' ∉ runId.toList)
    {trigger : Trigger}
    (hserves : ∀ request ∈ p.threads.map Prod.fst,
      request.Serves d ExampleRun.buildWorkflow runId (.obj trigger.rows))
    (hmodel : Modelled labels) (hsound : x₀.1.Sound redact) (hledger : Ledgered x₀) (hfresh : Fresh runId x₀.1)
    (hbooks : ∀ entry, x₀.2.entries.get? (.text (postKey runId)) = some entry → Asked runId labels entry)
    (hothers : ∀ entry, others (.text (postKey runId)) entry → Asked runId labels entry) {row : RunRow}
    (hrow : p.shared.1.runs.find? runId = some row) (hsucceeded : row.status = .succeeded) :
    row.resultJson = dumpResult (Triage.result trigger) ∧
      p.shared.2.entries.get? (.text (postKey runId)) = some (Triage.entry trigger) := by
  rw [buildDefaultApp, defaultRegistry_eq] at hd
  obtain rfl : referenceApp rules builtins referenceTools = d := Except.ok.inj hd
  have hsystem := system_of_posting hrun
  let g : Setting := .heard (referenceApp rules builtins referenceTools) x₀.1 (labels.filter Pool.Label.isMove) runId
    (.obj trigger.rows)
  have hreads : Reads g trigger := reads_heard hmodel
  have hstart : x₀.1.Walked g ExampleRun.buildWorkflow := by
    refine ⟨fun row hrow => ?_, fun effect hmem => Or.inl ⟨effect, hmem, rfl, rfl⟩⟩
    cases hfresh.1.symm.trans hrow
  obtain ⟨hwalked, hwalks⟩ := walks_of_run hsystem (show _ = g.agents from rfl) hserves
    (fun _ _ _ hmem => admits_heard hmem) hstart
  have hlife := (hsystem.good life_discipline (fun _ _ _ _ => trivial) (.empty hsound)).inv runId row hrow
  obtain ⟨hattains, hresult⟩ := computed_of_walked (hwalked.run row hrow) hlife hsucceeded
  -- what the steps of the run have sent is what the walk asks for
  have hsent : ∀ {i m stepId name sent answer}, .call i ⟨m, .execute (.step stepId) name sent⟩ answer ∈ labels →
      m.run.id = runId → _ := fun hmem hid =>
    sent_of_asked rfl rfl rfl hreads (hwalks _ _ _ (List.mem_filter.mpr ⟨hmem, rfl⟩)) hid
  have hat := at_of_attains rfl rfl hreads hattains
  generalize row.contextJson = context at hat hresult
  cases hat with
  | @posted output posted hvalidate hpost =>
      obtain ⟨i, m, args, hmem, hid⟩ := executed_of_heard hfresh hrunId (by decide) (by decide) hvalidate
      obtain rfl := (hsent hmem hid).1 rfl
      obtain rfl := looked_up hrun rfl hmem
      obtain ⟨j, m', args', hmem', hid'⟩ := executed_of_heard hfresh hrunId (by decide) (by decide) hpost
      have hfiled : p.shared.2.entries.get? (.text (postKey runId)) = some posted := by
        refine (posted_of_run rfl hledger hrun).answered j _ (Pool.mem_trace.mpr hmem') _ _ (Or.inr ?_)
        refine ⟨ledgerKey_ne_empty _ _ _, m', _, _, args', rfl, rfl, ?_⟩
        rw [(hsent hmem' hid').2 rfl]
        exact Dict.get?_set_self _ _ _
      obtain ⟨k, m'', args'', answer, hmem'', hid'', hentry⟩ :=
        asked_of_run hrun rfl rfl hrunId hbooks hothers hfiled
      rw [(hsent hmem'' hid'').2 rfl] at hentry
      have hposted : posted = Triage.entry trigger := hentry
      rw [hposted] at hresult hfiled
      exact ⟨hresult, hfiled⟩

/-! ### A retried triage -/

namespace Triage

theorem retriedPosting_requests : retriedPosting.2.threads.map Prod.fst =
    [.apiFire "acme" "run" "invoice-triage" (invoice 1200), .runnerResume "acme" "run"] :=
  Pool.play_tags _ _

theorem modelled_retriedPosting : Modelled retriedPosting.1 := by
  intro i m agent task scratch out hmem
  have hplay : Pool.Run (fun x call answer y =>
      Posting.serve triageApp id accountingConnector triageWorld x call = (answer, y)) (Request.program triageApp)
      (fun _ _ => False) ⟨[], (DB.empty, AccountingSystem.empty)⟩ retriedPosting.1 retriedPosting.2 :=
    Pool.play_run (fun _ _ => rfl) _ _
  obtain ⟨x, y, hserve⟩ := hplay.step_of_mem hmem
  exact congrArg Prod.fst hserve

end Triage

/-- Others may post anything under other keys. -/
def elsewhere (key : DictKey) (_ : Json) : Prop := key ≠ .text (postKey "run")

theorem triage_computed_retried :
    ∃ row, retriedPosting.2.shared.1.runs.find? "run" = some row ∧ row.status = .succeeded ∧
      row.resultJson = dumpResult (Triage.result (invoice 1200)) ∧
      retriedPosting.2.shared.2.entries.get? (.text (postKey "run")) = some (Triage.entry (invoice 1200)) := by
  have hstatus : (retriedPosting.2.shared.1.runs.find? "run").map RunRow.status = some .succeeded := by
    decide +kernel
  obtain ⟨row, hrow, hsucceeded⟩ := Option.map_eq_some_iff.mp hstatus
  refine ⟨row, hrow, hsucceeded, triage_computed (d := triageApp) rfl (retriedPosting_run elsewhere) (by decide) ?_
    modelled_retriedPosting sound_empty ?_ ⟨rfl, fun _ _ => rfl⟩ ?_ ?_ hrow hsucceeded⟩
  · intro request hmem _
    rw [retriedPosting_requests] at hmem
    rcases List.mem_pair.mp hmem with rfl | rfl
    · exact ⟨fun wf' hwf => (Option.some.inj hwf).symm, fun run hwanted => by cases hwanted; rfl⟩
    · exact ⟨fun wf' hwf => (Option.some.inj hwf).symm, nofun⟩
  · rintro row ⟨⟩
  · rintro entry ⟨⟩
  · intro entry hentry
    exact absurd rfl hentry

end Bass
