import Bass.Proof.Amounts
import Bass.Proof.FrontDoor
import Bass.Proof.Postings

/-!
# Large entries

The API with the reference tools and rules: an entry over $5,000 is posted by a step only, and only after
somebody whom the route for decisions asks for has approved what a driver requested for that very step. The
approval is traced back through the store to the request that brought it.
-/

namespace Bass

open Interaction EngineM

namespace Http

variable {redact : Json → Json} {d : Deployment} {lib : Auth.Library} {jwtSecret : Unicode.Str}

/-! ### What a request has asked the services -/

def serviced : Prog.Event Op Op.Res → Option (Prog.Event Call Call.Res)
  | ⟨.service call, answer⟩ => some ⟨call, answer⟩
  | _ => none

/-- The calls of the services among the calls of a request. -/
def services (events : List (Prog.Event Op Op.Res)) : Trail := events.filterMap serviced

theorem services_concat (events : List (Prog.Event Op Op.Res)) (call : Call) (answer : call.Res) :
    services (events ++ [⟨.service call, answer⟩]) = services events ++ [⟨call, answer⟩] :=
  List.filterMap_append

theorem mem_services {events : List (Prog.Event Op Op.Res)} {call : Call} {answer : call.Res}
    (h : ⟨call, answer⟩ ∈ services events) : ⟨.service call, answer⟩ ∈ events := by
  obtain ⟨⟨op, answer'⟩, hmem, hserviced⟩ := List.mem_filterMap.mp h
  cases op with
  | service call' =>
      cases hserviced
      exact hmem
  | listRuns | listEvents | ping | snapshot | reply => cases hserviced

/-- A request owes mediation at every execution. -/
def MediatedAt (d : Deployment) (before : List (Prog.Event Op Op.Res)) : Op → Prop
  | .service call => MediatedCall d.engine (services before) call
  | _ => True

abbrev mediationSpec (d : Deployment) (redact : Json → Json) : Spec Op Op.Res (List (Prog.Event Op Op.Res)) :=
  .history (Answered d redact) (MediatedAt d)

theorem mediated_service {tenantId runId : String} {code : EngineM Bass.Run}
    (h : Act.Keeps (Bass.mediationSpec d.engine redact) (fun _ _ => True) code)
    (before : List (Prog.Event Op Op.Res)) :
    (service tenantId runId code).wp (mediationSpec d redact) (fun _ _ => True) before := by
  refine (Prog.wp_bind _ _ _ _ _).mpr (Prog.wp_mono (fun _ _ _ => trivial) _
    (Prog.wp_interp_view services _ (fun _ => rfl) (fun call events hcall => ?_) _
      (h (Mem.request tenantId runId []) (services before) trivial)))
  rintro _ rfl
  refine ⟨hcall, ?_⟩
  rintro answer _ ⟨hanswer, rfl⟩
  exact ⟨hanswer, services_concat events call answer⟩

theorem mediated_code (request : Bass.Request) :
    Act.Keeps (Bass.mediationSpec d.engine redact) (fun _ _ => True) (request.code d) := by
  have hservice : ∀ op : Bass.Op, op.Service →
      Act.Keeps (Bass.mediationSpec d.engine redact) (fun _ _ => True) (perform op) := by
    intro op hop
    refine keeps_perform_of_ne fun _ _ _ heq => ?_
    rw [heq] at hop
    exact hop
  have hasync : ∀ wf, EngineInv d.engine.asynchronous wf
      (Bass.mediationSpec d.engine.asynchronous redact) fun _ _ => True := mediated_engineInv
  exact respects_code hservice (fun wf => (mediated_engineInv wf).resume) (fun wf => (hasync wf).resume) request

theorem mediated_fireEvent (tenantId runId wfName : String) (trigger : Json) :
    Act.Keeps (Bass.mediationSpec d.engine redact) (fun _ _ => True)
      (ApiService.fireEvent d tenantId runId wfName trigger) := by
  unfold ApiService.fireEvent
  split
  · exact mediated_code (.apiFire tenantId runId wfName _)
  · refine Act.keeps_bind (Act.keeps_ofExcept _) fun _ => ?_
    refine Act.keeps_bind (keeps_perform_of_ne (by rintro _ _ _ ⟨⟩)) fun allowed => ?_
    split
    · exact Act.keeps_bind (keeps_perform_of_ne (by rintro _ _ _ ⟨⟩)) fun _ => Act.keeps_throw _
    · exact Act.keeps_throw _

theorem mediated_bind {α β : Type} {before : List (Prog.Event Op Op.Res)} {x : Handler α}
    {f : α → Handler β} (hx : x.wp (mediationSpec d redact) (fun _ _ => True) before)
    (hf : ∀ value before, (f value).wp (mediationSpec d redact) (fun _ _ => True) before) :
    (x >>= f).wp (mediationSpec d redact) (fun _ _ => True) before :=
  (Prog.wp_bind _ _ _ _ _).mpr (Prog.wp_mono (fun value after _ => hf value after) _ hx)

theorem mediated_perform (op : Op) (hop : ∀ before, MediatedAt d before op) (before : List (Prog.Event Op Op.Res)) :
    (Prog.perform op : Handler op.Res).wp (mediationSpec d redact) (fun _ _ => True) before := by
  rintro _ rfl
  exact ⟨hop before, fun _ _ _ => trivial⟩

theorem mediated_handle (p : Principal) (endpoint : Endpoint) (before : List (Prog.Event Op Op.Res)) :
    (handle d p endpoint).wp (mediationSpec d redact) (fun _ _ => True) before := by
  cases endpoint with
  | listRuns status limit =>
      exact mediated_bind (mediated_perform (.listRuns ..) (fun _ => trivial) before) fun _ _ => trivial
  | getTrace runId =>
      exact mediated_bind (mediated_perform (.listEvents ..) (fun _ => trivial) before) fun _ _ => trivial
  | getRun runId =>
      have hload : ∀ before, MediatedAt d before
          (.service ⟨Mem.request p.tenantId runId [], .loadRun p.tenantId runId⟩) :=
        fun before => mediatedCall_of_ne (by rintro _ _ _ ⟨⟩)
      refine mediated_bind (mediated_perform _ hload before) fun answer _ => ?_
      cases answer with
      | error e => trivial
      | ok found => cases found <;> trivial
  | cancel runId =>
      exact mediated_bind (mediated_service (mediated_code (.apiCancel p.tenantId runId)) before) fun _ _ => trivial
  | resolve runId approvalId approved note =>
      exact mediated_bind (mediated_service (mediated_code (.apiResolve p.tenantId runId approvalId approved.truthy
        p.subject note)) before) fun _ _ => trivial

theorem mediated_program (request : Request lib jwtSecret) (before : List (Prog.Event Op Op.Res)) :
    (request.program d).wp (mediationSpec d redact) (fun _ _ => True) before := by
  have hrequire : ∀ (roles : List String) (handler : Principal → Handler HttpResponse),
      (∀ p, (handler p).wp (mediationSpec d redact) (fun _ _ => True) before) →
      (require request.caller roles handler).wp (mediationSpec d redact) (fun _ _ => True) before := by
    intro roles handler h
    unfold require
    split
    · trivial
    · split
      · trivial
      · exact h _
  refine mediated_bind ?_ fun response => mediated_perform (.reply response) fun _ => trivial
  cases request.route with
  | health => trivial
  | ready =>
      refine mediated_bind (mediated_perform .ping (fun _ => trivial) before) fun answer _ => ?_
      cases answer <;> trivial
  | metrics =>
      refine hrequire [] _ fun p => ?_
      exact mediated_bind (mediated_perform .snapshot (fun _ => trivial) before) fun _ _ => trivial
  | fire name runId body =>
      refine hrequire _ _ fun p => mediated_bind (mediated_service ?_ before) fun _ _ => trivial
      exact mediated_fireEvent p.tenantId runId name _
  | run endpoint => exact hrequire _ _ fun p => mediated_handle p endpoint before

end Http

/-! ### What the rules say of a large entry -/

/-- The amount of the entry is read as more than $5,000. -/
def Large (rules : TextRules) (sent : Args) : Prop :=
  ∃ amount, rules.toFloat ((sent.get? "amount").getD (.int 0)) = .ok amount ∧ amount.exceeds 5000 = true

theorem get_createApEntry {tools : ToolRegistry} (hregistry : defaultRegistry = .ok tools) :
    tools.get "create_ap_entry" = .ok createApEntryTool := by
  cases hregistry
  rfl

theorem effect_check_large {rules : TextRules} {agent : Agent} {args : Args} {context : Context}
    (hlarge : Large rules args) (hmem : "create_ap_entry" ∈ agent.tools) :
    ((PolicyEngine.ofPolicies (defaultPolicies rules)).check agent createApEntryTool args context).effect =
      .requireApproval := by
  obtain ⟨amount, hfloat, hexceeds⟩ := hlarge
  rw [effect_check_entry rfl rfl hmem, hfloat, entryVerdict, if_pos hexceeds]

/-- A large entry is posted by a step whose approval has just been found granted. -/
theorem granted_of_mediated {d : Deployment} {rules : TextRules} {before : Trail} {m : Mem} {caller : Caller}
    {sent : Args} (hpolicy : d.engine.policy = .ofPolicies (defaultPolicies rules))
    (hregistry : defaultRegistry = .ok d.engine.tools) (hlarge : Large rules sent)
    (h : Mediated d.engine before m caller "create_ap_entry" sent) :
    ∃ step approval, caller = .step step.id ∧ Granted m.run step approval ∧ approval ⊆ before := by
  obtain ⟨earlier, m₁, agent, tool, args, decision, approval, rfl, htool, hdecision, hlicensed⟩ := h
  obtain rfl : createApEntryTool = tool := Except.ok.inj ((get_createApEntry hregistry).symm.trans htool)
  rw [hpolicy] at hdecision
  cases caller with
  | agent agentName =>
      obtain ⟨-, -, hmem, hallow, -, rfl⟩ := hlicensed
      rw [hdecision, effect_check_large hlarge hmem] at hallow
      cases hallow
  | step stepId =>
      obtain ⟨step, rfl, -, rfl, rfl, hallowed⟩ := hlicensed
      have hargs : Large rules args := by
        obtain ⟨amount, hfloat, hexceeds⟩ := hlarge
        refine ⟨amount, ?_, hexceeds⟩
        rwa [if_pos (show createApEntryTool.sideEffect = true from rfl), Dict.get?_set_of_ne _ _ (by decide)] at hfloat
      rcases hallowed with ⟨hallow, -⟩ | ⟨-, hgranted⟩
      · rw [hdecision, effect_check_large hargs List.mem_cons_self] at hallow
        cases hallow
      · refine ⟨step, approval, rfl, hgranted, ?_⟩
        exact fun event hmem => List.mem_append_right _ (List.mem_cons_of_mem _ hmem)

/-! ### Where approvals come from -/

/-- What a call leaves of the approvals: what was there, the one that it requests, or the one that it decides. -/
theorem approval_of_step {policy : PolicyEngine} {redact : Json → Json} {db db' : DB} {op : Op} {answer : op.Res}
    (h : op.step policy redact db answer db') {row : ApprovalRow} (hrow : row ∈ db'.approvals.rows) :
    row ∈ db.approvals.rows ∨
    (∃ approvers, (⟨op, answer⟩ : (op : Op) × op.Res) =
        ⟨.createApproval row.tenantId row.runId row.stepId approvers, .ok row.id⟩ ∧ row.status = .pending) ∨
    ∃ old ∈ db.approvals.rows, old.subject = row.subject ∧ ∃ approved decidedBy note,
      (⟨op, answer⟩ : (op : Op) × op.Res) =
        ⟨.resolveApproval row.tenantId row.id approved decidedBy note, .ok ()⟩ ∧
      row.status = if approved then .approved else .rejected := by
  rcases approvals_cases h with hsame | ⟨tenantId, runId, stepId, approvers, approvalId, now, heq, hadded⟩ |
    ⟨tenantId, approvalId, approved, decidedBy, note, now, rfl, -⟩
  · exact .inl (hsame ▸ hrow)
  · rw [hadded] at hrow
    rcases List.mem_append.mp hrow with hold | hnew
    · exact .inl hold
    · obtain rfl := List.mem_singleton.mp hnew
      exact .inr (.inl ⟨approvers, heq, rfl⟩)
  · obtain ⟨now, hcommits⟩ := h
    rcases commits_map_cases hcommits with ⟨hresolve, rfl⟩ | ⟨e, -, -, rfl⟩
    · unfold DB.resolveApproval at hresolve
      split at hresolve
      · cases hresolve
      · rename_i asked hasked
        split at hresolve
        · rename_i htenant
          cases hresolve
          obtain ⟨old, hold, rfl⟩ := List.mem_map.mp hrow
          dsimp only
          by_cases hid : old.id = approvalId
          · subst hid
            obtain rfl := Option.some.inj ((Table.find?_of_mem hold).symm.trans hasked)
            rw [if_pos (decide_eq_true rfl)]
            exact .inr (.inr ⟨old, hold, rfl, approved, decidedBy, note, by rw [htenant], rfl⟩)
          · rw [if_neg (by simpa using hid)]
            exact .inl hold
        · cases hresolve
    · exact .inl hrow

namespace Http

variable {redact : Json → Json} {d : Deployment} {lib : Auth.Library} {jwtSecret : Unicode.Str}
  {labels before : List (Pool.Label (Request lib jwtSecret) Op Op.Res)}
  {c : Pool (Request lib jwtSecret) Op Op.Res DB} {db₀ db db' : DB}

/-- A driver has requested the approval for the step. -/
def Requested (labels : List (Pool.Label (Request lib jwtSecret) Op Op.Res))
    (tenantId runId stepId approvalId : String) : Prop :=
  ∃ i m approvers,
    .call i (.service ⟨m, .createApproval tenantId runId stepId approvers⟩) (.ok approvalId) ∈ labels

/-- A request has approved it. -/
def ApprovedIn (labels : List (Pool.Label (Request lib jwtSecret) Op Op.Res)) (tenantId approvalId : String) : Prop :=
  ∃ i m decidedBy note,
    .call i (.service ⟨m, .resolveApproval tenantId approvalId true decidedBy note⟩) (.ok ()) ∈ labels

/-- Every approval in the store has been requested, and if it is granted, approved. -/
structure Provenance (labels : List (Pool.Label (Request lib jwtSecret) Op Op.Res)) (db : DB) : Prop where
  requested : ∀ row ∈ db.approvals.rows, Requested labels row.tenantId row.runId row.stepId row.id
  approved : ∀ row ∈ db.approvals.rows, row.status = .approved → ApprovedIn labels row.tenantId row.id

theorem Requested.mono (hsub : before ⊆ labels) {tenantId runId stepId approvalId : String}
    (h : Requested before tenantId runId stepId approvalId) :
    Requested labels tenantId runId stepId approvalId := by
  obtain ⟨i, m, approvers, hmem⟩ := h
  exact ⟨i, m, approvers, hsub hmem⟩

theorem ApprovedIn.mono (hsub : before ⊆ labels) {tenantId approvalId : String}
    (h : ApprovedIn before tenantId approvalId) : ApprovedIn labels tenantId approvalId := by
  obtain ⟨i, m, decidedBy, note, hmem⟩ := h
  exact ⟨i, m, decidedBy, note, hsub hmem⟩

theorem Provenance.mono (hsub : before ⊆ labels) (h : Provenance before db) : Provenance labels db :=
  ⟨fun row hrow => (h.requested row hrow).mono hsub, fun row hrow happroved => (h.approved row hrow happroved).mono hsub⟩

/-- A call keeps track of where the approvals come from. -/
theorem Provenance.call (h : Provenance labels db) {i : Nat} {op : Op} {answer : op.Res}
    (hstep : op.step d.engine.policy redact db answer db') :
    Provenance (labels ++ [.call i op answer]) db' := by
  have hkept : Provenance (labels ++ [.call i op answer]) db := h.mono (List.subset_append_left _ _)
  cases op with
  | service call =>
      obtain ⟨m, op⟩ := call
      have hlast : ∀ {op' : Bass.Op} {answer' : op'.Res},
          (⟨op, answer⟩ : (op : Bass.Op) × op.Res) = ⟨op', answer'⟩ →
            Pool.Label.call i (.service ⟨m, op'⟩) answer' ∈ labels ++ [.call i (.service ⟨m, op⟩) answer] := by
        rintro op' answer' ⟨⟩
        exact List.mem_append_right _ List.mem_cons_self
      refine ⟨fun row hrow => ?_, fun row hrow happroved => ?_⟩
      · rcases approval_of_step hstep hrow with hold | ⟨approvers, heq, -⟩ | ⟨old, hold, hsubject, -⟩
        · exact hkept.requested row hold
        · exact ⟨i, m, approvers, hlast heq⟩
        · obtain ⟨hid, hrun, htenant, hstepId⟩ : old.id = row.id ∧ old.runId = row.runId ∧
              old.tenantId = row.tenantId ∧ old.stepId = row.stepId := by
            simpa [ApprovalRow.subject] using hsubject
          have hrequested := hkept.requested old hold
          rwa [hid, hrun, htenant, hstepId] at hrequested
      · rcases approval_of_step hstep hrow with hold | ⟨-, -, hpending⟩ |
          ⟨-, -, -, approved, decidedBy, note, heq, hstatus⟩
        · exact hkept.approved row hold happroved
        · rw [happroved] at hpending
          cases hpending
        · cases approved with
          | true => exact ⟨i, m, decidedBy, note, hlast heq⟩
          | false =>
              rw [happroved] at hstatus
              cases hstatus
  | listRuns | listEvents =>
      obtain ⟨-, rfl⟩ := hstep
      exact hkept
  | ping | snapshot | reply =>
      obtain rfl := hstep
      exact hkept

theorem provenance_of_run (hempty : db₀.approvals.rows = [])
    (hrun : Run d redact lib jwtSecret ⟨[], db₀⟩ labels c) : Provenance labels c.shared := by
  induction labels using List.reverseRecOn generalizing c with
  | nil =>
      cases hrun
      constructor <;> simp [hempty]
  | append_singleton labels label ih =>
      obtain ⟨c₁, hbefore, hlast⟩ := hrun.split
      have h := ih hbefore
      cases hlast with
      | cons head tail =>
          cases tail
          cases head with
          | call hthread hstep => exact h.call hstep
          | spawn | crash => exact h.mono (List.subset_append_left _ _)
          | env henv => exact henv.elim

/-- An approval that a driver has found granted has been requested for the step and approved before. -/
theorem provenance_of_latest (hempty : db₀.approvals.rows = [])
    (hrun : Run d redact lib jwtSecret ⟨[], db₀⟩ labels c) {i : Nat} {m : Mem}
    {tenantId runId stepId approvalId : String}
    (hmem : .call i (.service ⟨m, .latestApproval tenantId runId stepId⟩) (some (approvalId, .approved)) ∈ labels) :
    Requested labels tenantId runId stepId approvalId ∧ ApprovedIn labels tenantId approvalId := by
  obtain ⟨before, after, rfl⟩ := List.append_of_mem hmem
  obtain ⟨c₁, hbefore, hrest⟩ := hrun.split
  have h := provenance_of_run hempty hbefore
  cases hrest with
  | cons head tail =>
      cases head with
      | call hthread hstep =>
          obtain ⟨hlatest, -⟩ := hstep
          obtain ⟨row, hrow, rfl, hstatus, rfl, rfl, rfl⟩ := row_of_latestApproval hlatest.symm
          exact ⟨(h.requested row hrow).mono (List.subset_append_left _ _),
            (h.approved row hrow hstatus).mono (List.subset_append_left _ _)⟩

/-! ### Approved entries -/

/-- The approval has been requested for the step, and `request` has approved it: a request for that very decision,
by a principal of the tenant who may decide. -/
structure Approval (before : List (Pool.Label (Request lib jwtSecret) Op Op.Res)) (tenantId runId stepId approvalId : String)
    (request : Request lib jwtSecret) (p : Principal) : Prop where
  requested : Requested before tenantId runId stepId approvalId
  arrived : .spawn request ∈ before
  authorised : request.Authorised p
  tenant : p.tenantId = tenantId
  approver : p.hasAny ["owner", "admin", "approver"] = true
  asked : ∃ runId approved note, request.route = .run (.resolve runId approvalId approved note) ∧
    approved.truthy = true
  decided : ∃ i m note,
    .call i (.service ⟨m, .resolveApproval tenantId approvalId true p.subject note⟩) (.ok ()) ∈ before

theorem approval_of_approvedIn (hrun : Run d redact lib jwtSecret ⟨[], db₀⟩ before c)
    {tenantId runId stepId approvalId : String} (hrequested : Requested before tenantId runId stepId approvalId)
    (happroved : ApprovedIn before tenantId approvalId) :
    ∃ request p, Approval before tenantId runId stepId approvalId request p := by
  obtain ⟨i, m, decidedBy, note, hmem⟩ := happroved
  obtain ⟨request, hspawn, -, p, hauthorised, htenant, hdecides⟩ := owes_of_mem hrun hmem
  have hrole := hauthorised.role
  cases hroute : request.route with
  | run endpoint =>
      rw [hroute] at hdecides hrole
      cases endpoint with
      | resolve asked approvalId' approved note' =>
          obtain ⟨rfl, htruthy, rfl, rfl⟩ : approvalId' = approvalId ∧ approved.truthy = true ∧
              p.subject = decidedBy ∧ note' = note := by
            simpa [Route.decides] using hdecides
          exact ⟨request, p, hrequested, hspawn, hauthorised, htenant.symm,
            hrole.resolve_left (List.cons_ne_nil _ _), ⟨asked, approved, note', hroute, htruthy⟩, i, m, note', hmem⟩
      | listRuns | getRun | getTrace | cancel => cases hdecides
  | health | ready | metrics | fire =>
      rw [hroute] at hdecides
      cases hdecides

/-- **Large entries are approved.** In every interleaving of requests over a store without approvals, crashes
included, an entry whose amount is read as more than $5,000 is posted only by a step for which an approval has been
requested and approved, by a request of a principal of the run's tenant who is an owner, an admin or an approver.
It may be the one who has fired the run. -/
theorem large_entries_approved {rules : TextRules}
    {after : List (Pool.Label (Request lib jwtSecret) Op Op.Res)} {i : Nat} {m : Mem} {caller : Caller} {sent : Args}
    {answer : Except Exc Json} (hpolicy : d.engine.policy = .ofPolicies (defaultPolicies rules))
    (hregistry : defaultRegistry = .ok d.engine.tools) (hempty : db₀.approvals.rows = [])
    (hrun : Run d redact lib jwtSecret ⟨[], db₀⟩
      (before ++ .call i (.service ⟨m, .execute caller "create_ap_entry" sent⟩) answer :: after) c)
    (hlarge : Large rules sent) :
    ∃ stepId approvalId request p, caller = .step stepId ∧
      Approval before m.run.tenantId m.run.id stepId approvalId request p := by
  obtain ⟨c₁, hbefore, -⟩ := hrun.split
  have howed : MediatedAt d (Pool.trace i before) (.service ⟨m, .execute caller "create_ap_entry" sent⟩) :=
    hrun.owed (Pool.trace_call i before after (.service ⟨m, .execute caller "create_ap_entry" sent⟩) answer)
      fun request => mediated_program request []
  have hmediated := howed caller "create_ap_entry" sent rfl
  obtain ⟨step, approval, rfl, hgranted, hsub⟩ := granted_of_mediated hpolicy hregistry hlarge hmediated
  have hcalls : ∀ event ∈ approval, .call i (.service event.1) event.2 ∈ before :=
    fun event hmem => Pool.mem_trace.mp (mem_services (hsub hmem))
  cases hgranted with
  | sync hasked =>
      -- without a callback nobody is asked on the spot
      obtain ⟨request, -, -, p, -, hnever⟩ := owes_of_mem hbefore (hcalls _ (List.mem_cons_of_mem _
        List.mem_cons_self))
      exact hnever.elim
  | @async m₁ approvalId =>
      obtain ⟨hrequested, happroved⟩ := provenance_of_latest hempty hbefore (hcalls _ List.mem_cons_self)
      obtain ⟨request, p, happroval⟩ := approval_of_approvedIn hbefore hrequested happroved
      exact ⟨step.id, approvalId, request, p, rfl, happroval⟩

/-! ### An invoice of $8,200 -/

section Invoice

open Unicode

def adminPayload : Auth.Value := Auth.payload (ofString "acme") (ofString "u1") [ofString "admin"] 0 3600

def adminText : Str :=
  ofString "\x7b\"sub\":\"u1\",\"tenant_id\":\"acme\",\"roles\":[\"admin\"],\"iat\":0,\"exp\":3600\x7d"

/-- A standard library that reads the claims of this admin, and no others. -/
def adminLibrary : Auth.Library where
  digest := fun key message => (key ++ message).take 32
  dumps := fun v => match v with
    | .obj [_, _] => ofString "\x7b\"alg\":\"HS256\",\"typ\":\"JWT\"\x7d"
    | _ => adminText
  ascii := by
    intro v
    split <;> decide
  loads := fun raw =>
    if raw = toBytes adminText then .ok adminPayload
    else .error (.python "JSONDecodeError" "Expecting value: line 1 column 1 (char 0)")
  parse := fun _ => .error (.python "ValueError" "could not convert string to float")

def adminToken : Str :=
  (Auth.mintToken adminLibrary (ofString "secret") (ofString "acme") (ofString "u1") [ofString "admin"] 3600
    0).toOption.getD []

theorem principal_admin : principal adminLibrary (ofString "secret") (ofString "Bearer " ++ adminToken) 3600 =
    .ok ⟨.str (ofString "acme"), .str (ofString "u1"), [.str (ofString "admin")]⟩ := by
  have htruncate : Auth.truncate 0 = 0 := by decide +kernel
  have hreads : Auth.Reads adminLibrary (Auth.payload (ofString "acme") (ofString "u1") [ofString "admin"]
      (Auth.truncate 0) 3600) := by
    rw [htruncate]
    rfl
  have hsecret : (ofString "secret").any isSurrogate = false := by decide
  obtain ⟨token, hmint, hdecode⟩ := Auth.exists_minted hsecret hreads
  have htoken : adminToken = token := by
    rw [adminToken, hmint]
    rfl
  have hfloat : Auth.floatOfInt (0 + 3600) = .ok 3600 := Auth.floatOfInt_eq (by decide)
  rw [Auth.principal_bearer, htoken, hdecode, htruncate, Auth.ofClaims_payload (by decide) (by decide) hfloat,
    if_neg (lt_irrefl _)]
  rfl

abbrev AdminRequest : Type := Request adminLibrary (ofString "secret")

def byAdmin (route : Route) : AdminRequest where
  authorization := ofString "Bearer " ++ adminToken
  time := 3600
  route := route
  readable := by
    intro claims h
    cases principal_admin.symm.trans h
    decide

/-- The invoice waits for an approval, the admin approves it, and it is posted. -/
def approvedInvoice : List (Pool.Label AdminRequest Op Op.Res) × Pool AdminRequest Op Op.Res DB :=
  play triageApp id { triageWorld with newId := fun _ => "approval" }
    (.spawn (byAdmin (.fire "invoice-triage" "run" (Dict.ofList [("trigger", .obj (invoice 8200).rows)]))) ::
      List.replicate 19 (.call 0) ++
      .spawn (byAdmin (.run (.resolve "run" "approval" (.bool true) ""))) :: List.replicate 7 (.call 1))
    ⟨[], DB.empty⟩

def isLarge : Option Json → Bool
  | some (.float (.finite amount)) => 5000 < amount
  | _ => false

def postsLarge : Pool.Label AdminRequest Op Op.Res → Bool
  | .call _ (.service ⟨_, .execute _ name sent⟩) _ => name = "create_ap_entry" && isLarge (sent.get? "amount")
  | _ => false

theorem large_of_postsLarge {label : Pool.Label AdminRequest Op Op.Res} (h : postsLarge label = true) :
    ∃ i m caller sent answer, label = .call i (.service ⟨m, .execute caller "create_ap_entry" sent⟩) answer ∧
      Large .ascii sent := by
  unfold postsLarge at h
  split at h
  · rename_i i m caller name sent answer
    obtain ⟨rfl, hamount⟩ : name = "create_ap_entry" ∧ isLarge (sent.get? "amount") = true := by simpa using h
    unfold isLarge at hamount
    split at hamount
    · rename_i amount hget
      exact ⟨i, m, caller, sent, answer, rfl, .finite amount, by rw [hget]; rfl, hamount⟩
    · cases hamount
  · cases h

theorem large_entries_approved_invoice :
    ∃ before after i m caller sent answer, approvedInvoice.1 =
        before ++ .call i (.service ⟨m, .execute caller "create_ap_entry" sent⟩) answer :: after ∧
      Large .ascii sent ∧ ∃ stepId approvalId request p, caller = .step stepId ∧
        Approval before m.run.tenantId m.run.id stepId approvalId request p := by
  have hposts : approvedInvoice.1.any postsLarge = true := by decide +kernel
  obtain ⟨label, hmem, hposts⟩ := List.any_eq_true.mp hposts
  obtain ⟨i, m, caller, sent, answer, rfl, hlarge⟩ := large_of_postsLarge hposts
  obtain ⟨before, after, hlabels⟩ := List.append_of_mem hmem
  have hrun : Run triageApp id adminLibrary (ofString "secret") ⟨[], DB.empty⟩ approvedInvoice.1 approvedInvoice.2 :=
    play_run _ _ _
  rw [hlabels] at hrun
  exact ⟨before, after, i, m, caller, sent, answer, hlabels, hlarge,
    large_entries_approved rfl defaultRegistry_eq rfl hrun hlarge⟩

end Invoice

end Http

end Bass
