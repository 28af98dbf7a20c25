import Bass.Http
import Bass.Proof.Credentials
import Bass.Proof.Mediation
import Bass.Proof.Noninterference

/-!
# The front door

Whatever requests arrive, and however they interleave and crash: a call is made for a tenant only on behalf
of a request whose token the service has signed for that tenant, with a role that the route asks for. The
rows of a tenant without such a request stay as they are.
-/

namespace Bass

open Interaction EngineM

/-! ### Calls for a tenant -/

/-- What is decided of which approval, by whom and with what note. -/
structure Verdict where
  approvalId : String
  approved : Bool
  decidedBy : String
  note : String

/-- The call reads and writes rows of the tenant, if any, and decides nothing but this. -/
def Op.OnBehalf (tenantId : String) (verdict : Option Verdict) : Op → Prop
  | .ensureTenant tenant .. | .loadRun tenant _ | .loadRunByKey tenant _ | .cancelRun tenant _
  | .getEffect tenant _ | .recordEffect tenant .. | .createApproval tenant .. | .latestApproval tenant ..
  | .allowRequest tenant => tenant = tenantId
  | .insertRun run | .checkpoint run _ => run.tenantId = tenantId
  | .resolveApproval tenant approvalId approved decidedBy note =>
      tenant = tenantId ∧ verdict = some ⟨approvalId, approved, decidedBy, note⟩
  | .approvalFn .. => False
  | .stepSpan _ | .policyCheck .. | .respond .. | .execute .. => True

section OnBehalf

variable {policy : PolicyEngine} {redact : Json → Json} {cfg : EngineConfig} {d : Deployment}
  {tenantId runId : String} {verdict : Option Verdict} {db db' : DB}

theorem sameOthers_of_step {op : Op} {answer : op.Res} (h : op.step policy redact db answer db')
    (hop : op.OnBehalf tenantId verdict) : SameOthers tenantId db db' := by
  have hrefl := SameOthers.refl tenantId db
  cases op with
  | ensureTenant tenant name settings =>
      obtain rfl : tenant = tenantId := hop
      obtain ⟨now, rfl⟩ := h
      exact DB.sameOthers_ensureTenant name settings now
  | insertRun run =>
      obtain ⟨now, hinsert⟩ := h
      have hsame : SameOthers tenantId db (db.insertRun run now).1 := DB.sameOthers_insertRun hop now
      rwa [← hinsert] at hsame
  | checkpoint run events =>
      obtain ⟨now, hcommits⟩ := h
      rcases commits_map_cases hcommits with ⟨hcp, -⟩ | ⟨e, -, -, rfl⟩
      · exact DB.sameOthers_checkpoint hop hcp
      · exact hrefl
  | cancelRun tenant runId =>
      obtain rfl : tenant = tenantId := hop
      obtain ⟨now, hcommits⟩ := h
      cases hcancel : db.cancelRun tenant runId now with
      | ok out =>
          rw [hcancel] at hcommits
          obtain ⟨-, rfl⟩ := hcommits
          exact DB.sameOthers_cancelRun hcancel
      | error e =>
          rw [hcancel] at hcommits
          rw [hcommits.2]
          exact hrefl
  | recordEffect tenant key runId stepId tool result =>
      obtain rfl : tenant = tenantId := hop
      obtain ⟨now, rfl⟩ := h
      exact DB.sameOthers_recordEffect ..
  | createApproval tenant runId stepId approvers =>
      obtain rfl : tenant = tenantId := hop
      obtain ⟨approvalId, now, hcommits⟩ := h
      rcases commits_map_cases hcommits with ⟨hcreate, -⟩ | ⟨e, -, -, rfl⟩
      · exact DB.sameOthers_createApproval hcreate
      · exact hrefl
  | resolveApproval tenant approvalId approved decidedBy note =>
      obtain rfl : tenant = tenantId := hop.1
      obtain ⟨now, hcommits⟩ := h
      rcases commits_map_cases hcommits with ⟨hresolve, -⟩ | ⟨e, -, -, rfl⟩
      · exact DB.sameOthers_resolveApproval hresolve
      · exact hrefl
  | loadRun | loadRunByKey | getEffect | latestApproval | policyCheck | execute =>
      obtain ⟨-, rfl⟩ := h
      exact hrefl
  | allowRequest | stepSpan | respond =>
      obtain rfl := h
      exact hrefl
  | approvalFn => exact False.elim hop

/-- Without a callback a drive decides nothing. -/
theorem onBehalf_of_by (hcfg : cfg.approvalFn = false) {op : Op} (h : op.By cfg tenantId runId) :
    op.OnBehalf tenantId verdict := by
  cases op with
  | ensureTenant | insertRun | loadRun | loadRunByKey | cancelRun | allowRequest => exact False.elim h
  | checkpoint | getEffect | recordEffect | createApproval | latestApproval => exact h.1
  | resolveApproval | approvalFn => exact absurd (hcfg.symm.trans h.1) Bool.false_ne_true
  | stepSpan | policyCheck | respond | execute => trivial

end OnBehalf

/-! ### The services -/

section Services

variable {redact : Json → Json} {d : Deployment} {tenantId runId : String} {verdict : Option Verdict}

/-- The calls of code that serves the tenant. -/
abbrev tenantSpec (d : Deployment) (redact : Json → Json) (tenantId : String) (verdict : Option Verdict) :
    Spec Call Call.Res Unit :=
  .answered (Answered d.engine redact) fun call => call.op.OnBehalf tenantId verdict

/-- From the memory `m`, the code works on behalf of the tenant only. -/
abbrev ServesTenant {α : Type} (d : Deployment) (redact : Json → Json) (tenantId : String)
    (verdict : Option Verdict) (x : EngineM α) (Q : α → Mem → Prop) (m : Mem) : Prop :=
  Act.wp (tenantSpec d redact tenantId verdict) x (fun value m' _ => Q value m') (fun _ _ _ => True) m ()

variable {m : Mem}

/-- A drive works for the tenant of the run it is given, and holds that run to its end. -/
theorem serves_resume (wf : Workflow) (h : m.run.tenantId = tenantId) :
    Act.wp (tenantSpec d redact tenantId verdict) (WorkflowEngine.resume d.engine.asynchronous wf)
      (fun _ _ _ => True) (fun _ m' _ => m'.run.tenantId = tenantId) m () := by
  have hperforms := performs_resume d.engine.asynchronous wf tenantId m.run.id m () ⟨h, rfl⟩
  have hcalls : Act.wp (.calls fun call : Call => call.op.OnBehalf tenantId verdict)
      (WorkflowEngine.resume d.engine.asynchronous wf) (fun _ m' _ => m'.Of tenantId m.run.id)
      (fun _ m' _ => m'.Of tenantId m.run.id) m () := by
    unfold Act.wp at hperforms ⊢
    exact Prog.wp_calls_mono (fun call hby => onBehalf_of_by rfl hby.2) _ hperforms
  have hserves : Act.wp (tenantSpec d redact tenantId verdict) (WorkflowEngine.resume d.engine.asynchronous wf)
      (fun _ m' _ => m'.Of tenantId m.run.id) (fun _ m' _ => m'.Of tenantId m.run.id) m () := by
    unfold Act.wp at hcalls ⊢
    exact Prog.wp_of_calls (fun _ _ hop => hop) _ hcalls
  exact Act.wp_mono _ (fun _ _ _ _ => trivial) (fun _ _ _ hm => hm.1) hserves

theorem serves_safeResume (wf : Workflow) (h : m.run.tenantId = tenantId) :
    ServesTenant d redact tenantId verdict (ApiService.safeResume d wf) (fun _ _ => True) m := by
  refine (Act.wp_tryCatch _ _).mpr ((Act.wp_bind _ _).mpr (Act.wp_mono _ ?_ ?_ (serves_resume wf h)))
  · exact fun _ _ _ _ => trivial
  · intro e m' _ hm
    split
    · refine (wp_getRun_bind _).mpr ((Act.wp_perform_bind _ _).mpr fun _ _ => ⟨hm, fun answer _ _ => ?_⟩)
      refine (Act.wp_ofExcept_bind _ _).mpr ?_
      split <;> trivial
    · trivial

theorem serves_hydrate : ServesTenant d redact tenantId verdict (hydrate tenantId runId)
    (fun _ m' => m'.run.tenantId = tenantId) m := by
  refine (Act.wp_perform_bind _ _).mpr fun _ _ => ⟨rfl, fun answer _ hanswer => ?_⟩
  obtain ⟨db, db', hload, -⟩ := hanswer
  refine (Act.wp_ofExcept_bind _ _).mpr ?_
  cases answer with
  | error e => trivial
  | ok found =>
      cases found with
      | none => trivial
      | some run => exact (wp_modifyRun_bind _ _).mpr (tenantId_of_loadRun hload.symm)

theorem serves_cancel :
    ServesTenant d redact tenantId verdict (ApiService.cancel tenantId runId) (fun _ _ => True) m := by
  refine (Act.wp_perform_bind _ _).mpr fun _ _ => ⟨rfl, fun answer _ _ => ?_⟩
  refine (Act.wp_ofExcept_bind _ _).mpr ?_
  split
  · exact Act.wp_mono _ (fun _ _ _ _ => trivial) (fun _ _ _ h => h) serves_hydrate
  · trivial

theorem serves_resolveApproval (approvalId : String) (approved : Bool) (decidedBy note : String) :
    ServesTenant d redact tenantId (some ⟨approvalId, approved, decidedBy, note⟩)
      (ApiService.resolveApproval d tenantId runId approvalId approved decidedBy note) (fun _ _ => True) m := by
  refine (Act.wp_bind _ _).mpr (Act.wp_mono _ (fun run m' _ hm => ?_) (fun _ _ _ h => h) serves_hydrate)
  refine (Act.wp_perform_bind _ _).mpr fun _ _ => ⟨⟨rfl, rfl⟩, fun answer _ _ => ?_⟩
  refine (Act.wp_ofExcept_bind _ _).mpr ?_
  split
  · refine (Act.wp_ofExcept_bind _ _).mpr ?_
    split
    · exact serves_safeResume _ hm
    · trivial
  · trivial

theorem serves_createOrGetRun {run : Run} (h : run.tenantId = tenantId) :
    ServesTenant d redact tenantId verdict (createOrGetRun run) (fun _ m' => m' = m) m := by
  refine (Act.wp_perform_bind _ _).mpr fun _ _ => ⟨h, fun inserted _ _ => ?_⟩
  split
  · exact rfl
  · refine (Act.wp_perform_bind _ _).mpr fun _ _ => ⟨h, fun answer _ _ => ?_⟩
    refine (Act.wp_ofExcept_bind _ _).mpr ?_
    split
    · split
      · exact rfl
      · trivial
    · trivial

theorem serves_fire (wfName : String) (trigger : Trigger) :
    ServesTenant d redact tenantId verdict (ApiService.fire d tenantId runId wfName trigger) (fun _ _ => True) m := by
  refine (Act.wp_ofExcept_bind _ _).mpr ?_
  split
  · rename_i wf _
    refine (Act.wp_perform_bind _ _).mpr fun _ _ => ⟨rfl, fun allowed _ _ => ?_⟩
    split
    · refine (Act.wp_perform_bind _ _).mpr fun _ _ => ⟨rfl, fun _ _ _ => ?_⟩
      refine (wp_modifyRun_bind _ _).mpr ((wp_getRun_bind _).mpr ?_)
      refine (Act.wp_bind _ _).mpr (Act.wp_mono _ ?_ (fun _ _ _ h => h) (serves_createOrGetRun rfl))
      rintro ⟨run, created⟩ m' _ rfl
      dsimp only
      split
      · exact (wp_emit_bind _ _ _ _ _ _).mpr (serves_safeResume wf rfl)
      · trivial
    · trivial
  · trivial

theorem serves_fireEvent (wfName : String) (trigger : Json) :
    ServesTenant d redact tenantId verdict (ApiService.fireEvent d tenantId runId wfName trigger) (fun _ _ => True)
      m := by
  unfold ApiService.fireEvent
  split
  · exact serves_fire wfName _
  · refine (Act.wp_ofExcept_bind _ _).mpr ?_
    split
    · refine (Act.wp_perform_bind _ _).mpr fun _ _ => ⟨rfl, fun allowed _ _ => ?_⟩
      split
      · exact (Act.wp_perform_bind _ _).mpr fun _ _ => ⟨rfl, fun _ _ _ => trivial⟩
      · trivial
    · trivial

end Services

/-! ### Handlers -/

namespace Http

variable {redact : Json → Json} {d : Deployment} {lib : Auth.Library} {jwtSecret : Unicode.Str}
  {tenantId runId : String} {verdict : Option Verdict}

/-- The call is one of a handler that works for the tenant. -/
def Op.For (tenantId : String) (verdict : Option Verdict) : Op → Prop
  | .service call => call.op.OnBehalf tenantId verdict
  | .listRuns tenant .. | .listEvents tenant _ => tenant = tenantId
  | .snapshot => True
  | .ping | .reply _ => False

/-- Answers of some database. -/
abbrev Answered (d : Deployment) (redact : Json → Json) (op : Op) (answer : op.Res) : Prop :=
  Pool.Answers (fun db op answer db' => Op.step d.engine.policy redact db op answer db') op answer

abbrev handlerSpec (d : Deployment) (redact : Json → Json) (P : Op → Prop) : Spec Op Op.Res Unit :=
  .answered (Answered d redact) P

/-- Nothing is owed for what is made of a result. -/
theorem wp_then {α β : Type} {P : Op → Prop} {x : Handler α} (f : α → β)
    (h : x.wp (handlerSpec d redact P) (fun _ _ => True) ()) :
    (do return f (← x)).wp (handlerSpec d redact P) (fun _ _ => True) () :=
  (Prog.wp_bind _ _ _ _ _).mpr (Prog.wp_mono (fun _ _ _ => trivial) _ h)

theorem for_service {code : EngineM Bass.Run}
    (h : ServesTenant d redact tenantId verdict code (fun _ _ => True) (Mem.request tenantId runId [])) :
    (service tenantId runId code).wp (handlerSpec d redact (Op.For tenantId verdict)) (fun _ _ => True) () := by
  refine wp_then Prod.fst (Prog.wp_mono (fun _ _ _ => trivial) _
    (Prog.wp_interp _ (fun _ => trivial) (fun call _ hcall => ?_) _ h))
  exact fun _ _ => ⟨hcall, fun answer _ hanswer => hanswer⟩

/-- What a route decides for a principal. -/
def Route.decides (p : Principal) : Route → Option Verdict
  | .run (.resolve _ approvalId approved note) => some ⟨approvalId, approved.truthy, p.subject, note⟩
  | _ => none

theorem for_handle (p : Principal) (endpoint : Endpoint) :
    (handle d p endpoint).wp (handlerSpec d redact (Op.For p.tenantId (Route.decides p (.run endpoint))))
      (fun _ _ => True) () := by
  cases endpoint with
  | listRuns status limit => exact fun _ _ => ⟨rfl, fun _ _ _ => trivial⟩
  | getRun runId =>
      refine fun _ _ => ⟨rfl, fun answer _ _ => ?_⟩
      cases answer with
      | error e => trivial
      | ok found => cases found <;> trivial
  | getTrace runId => exact fun _ _ => ⟨rfl, fun _ _ _ => trivial⟩
  | cancel runId =>
      exact wp_then (fun out => HttpResponse.ofExcept masked (runView <$> out)) (for_service serves_cancel)
  | resolve runId approvalId approved note =>
      exact wp_then (fun out => HttpResponse.ofExcept masked (runView <$> out))
        (for_service (serves_resolveApproval approvalId approved.truthy p.subject note))

/-! ### Requests -/

/-- The roles that a route asks for, any of them. -/
def Route.asks : Route → List String
  | .health | .ready | .metrics => []
  | .fire .. => ["owner", "admin", "builder"]
  | .run endpoint => roles endpoint

/-- The token of the request is signed with the secret and of the principal, who has a role that the route asks
for. -/
structure Request.Authorised (request : Request lib jwtSecret) (p : Principal) : Prop where
  token : ∃ token claims, request.authorization = Unicode.ofString "Bearer " ++ token ∧
    Auth.Signed lib jwtSecret token ∧ Auth.decodeToken lib jwtSecret token request.time = .ok claims ∧
    claims.texts? = some p
  role : request.route.asks = [] ∨ p.hasAny request.route.asks = true

/-- Only the probes are answered without a principal. -/
def Route.guarded : Route → Bool
  | .health | .ready => false
  | _ => true

/-- What a client without a token or a role is answered. -/
def Request.Refuses (request : Request lib jwtSecret) (response : HttpResponse) : Prop :=
  request.route.guarded = true → (∀ p, ¬request.Authorised p) → response.status ∈ [401, 403, 500]

/-- A request works for a tenant whose principal it is authorised by, and otherwise refuses. -/
def Request.Owes (request : Request lib jwtSecret) : Op → Prop
  | .reply response => request.Refuses response
  | .ping => request.route.guarded = false
  | op => ∃ p, request.Authorised p ∧ op.For p.tenantId (request.route.decides p)

theorem Request.Authorised.owes {request : Request lib jwtSecret} {p : Principal} (h : request.Authorised p) {op : Op}
    (hop : op.For p.tenantId (request.route.decides p)) : request.Owes op := by
  cases op with
  | ping | reply => exact False.elim hop
  | service | listRuns | listEvents | snapshot => exact ⟨p, h, hop⟩

theorem status_of_answered {response : HttpResponse} {x : Except Exc Auth.Principal}
    (h : Auth.answered x = .error response) : response.status ∈ [401, 403, 500] := by
  unfold Auth.answered at h
  split at h <;> cases h <;> simp [HttpResponse.error, HttpResponse.internalServerError]

theorem signed_of_caller {request : Request lib jwtSecret} {p : Principal} (h : request.caller = .ok p) :
    ∃ token claims, request.authorization = Unicode.ofString "Bearer " ++ token ∧
      Auth.Signed lib jwtSecret token ∧ Auth.decodeToken lib jwtSecret token request.time = .ok claims ∧
      claims.texts? = some p := by
  unfold Request.caller at h
  split at h
  · cases h
  · rename_i claims hprincipal
    have htexts : claims.texts? = some p := by
      cases htexts : claims.texts? with
      | none => rw [htexts] at h; cases h
      | some p' => rw [htexts] at h; cases h; rfl
    unfold principal at hprincipal
    split at hprincipal
    · rename_i hprefix
      obtain ⟨token, htoken⟩ := List.isPrefixOf_iff_prefix.mp hprefix
      rw [← htoken, List.drop_left] at hprincipal
      have hdecode : Auth.decodeToken lib jwtSecret token request.time = .ok claims := by
        cases hdecode : Auth.decodeToken lib jwtSecret token request.time with
        | ok claims' => rw [hdecode] at hprincipal; cases hprincipal; rfl
        | error e => rw [hdecode] at hprincipal; cases e with
          | bass kind message => cases kind <;> cases hprincipal
          | python cls message => cases hprincipal
          | paused approvalId => cases hprincipal
      refine ⟨token, claims, htoken.symm, ?_, hdecode, htexts⟩
      obtain ⟨head, body, key, message, hsplit, hkey, hmessage⟩ := Auth.signed_of_decodeToken hdecode
      exact ⟨head, body, _, hsplit, Auth.sign_eq lib hkey hmessage⟩
    · cases hprincipal

theorem refuses_caller {request : Request lib jwtSecret} {response : HttpResponse}
    (h : request.caller = .error response) : response.status ∈ [401, 403, 500] := by
  unfold Request.caller at h
  split at h
  · rename_i refusal hprincipal
    cases h
    unfold principal at hprincipal
    split at hprincipal
    · exact status_of_answered hprincipal
    · cases hprincipal
      simp [HttpResponse.error]
  · rename_i claims _
    cases htexts : claims.texts? with
    | none =>
        rw [htexts] at h
        cases h
        simp [HttpResponse.internalServerError]
    | some p =>
        rw [htexts] at h
        cases h

theorem owes_require {request : Request lib jwtSecret} {roles : List String} (hroles : request.route.asks = roles)
    {handler : Principal → Handler HttpResponse}
    (h : ∀ p, (handler p).wp (handlerSpec d redact (Op.For p.tenantId (request.route.decides p)))
      (fun _ _ => True) ()) :
    (require request.caller roles handler).wp (handlerSpec d redact request.Owes)
      (fun response _ => request.Refuses response) () := by
  unfold require
  split
  · rename_i response hcaller
    exact fun _ _ => refuses_caller hcaller
  · rename_i p hcaller
    split
    · exact fun _ _ => by simp [HttpResponse.forbidden, HttpResponse.error]
    · rename_i hrole
      have hauthorised : request.Authorised p := by
        refine ⟨signed_of_caller hcaller, ?_⟩
        rw [hroles]
        by_cases hnone : roles = []
        · exact .inl hnone
        · exact .inr (by simpa [hnone] using hrole)
      refine Prog.wp_mono (fun response _ _ => ?_) _ (Prog.wp_answered_mono (fun op => hauthorised.owes) _ (h p))
      exact fun _ hnone => absurd hauthorised (hnone p)

theorem owes_program (request : Request lib jwtSecret) :
    (request.program d).wp (handlerSpec d redact request.Owes) (fun _ _ => True) () := by
  have hrespond : (respond d request.caller request.route).wp (handlerSpec d redact request.Owes)
      (fun response _ => request.Refuses response) () := by
    have hopen : ∀ response, request.route.guarded = false → request.Refuses response := by
      intro response hopen hguarded
      rw [hopen] at hguarded
      cases hguarded
    cases hroute : request.route with
    | health => exact hopen _ (by rw [hroute]; rfl)
    | ready =>
        have hprobe : request.route.guarded = false := by rw [hroute]; rfl
        refine fun _ _ => ⟨hprobe, fun answer _ _ => ?_⟩
        cases answer <;> exact hopen _ hprobe
    | metrics => exact owes_require (by rw [hroute]; rfl) fun p _ _ => ⟨trivial, fun _ _ _ => trivial⟩
    | fire name runId body =>
        refine owes_require (by rw [hroute]; rfl) fun p => ?_
        exact wp_then fired (for_service (serves_fireEvent name _))
    | run endpoint =>
        refine owes_require (by rw [hroute]; rfl) fun p => ?_
        rw [hroute]
        exact for_handle p endpoint
  refine (Prog.wp_bind _ _ _ _ _).mpr (Prog.wp_mono (fun response _ hresponse => ?_) _ hrespond)
  exact fun _ _ => ⟨hresponse, fun _ _ _ => trivial⟩

/-! ### Any number of requests -/

/-- The databases hold the same rows of every other tenant. -/
theorem agree_of_sameOthers {owner : String} {db db' : DB} (h : SameOthers owner db db') (hne : owner ≠ tenantId) :
    Agree tenantId db db' := by
  have hfilter : ∀ {ρ : Type} {rows rows' : List ρ} (key : ρ → String),
      rows'.filter (fun row => key row ≠ owner) = rows.filter (fun row => key row ≠ owner) →
      rows.filter (fun row => key row = tenantId) = rows'.filter fun row => key row = tenantId := by
    intro ρ rows rows' key hsame
    have hsub : ∀ rows : List ρ, rows.filter (fun row => key row = tenantId) =
        (rows.filter fun row => key row ≠ owner).filter fun row => key row = tenantId := by
      intro rows
      rw [List.filter_filter]
      refine List.filter_congr fun row _ => ?_
      by_cases hrow : key row = tenantId
      · simp [hrow, Ne.symm hne]
      · simp [hrow]
    rw [hsub rows, hsub rows', hsame]
  exact ⟨hfilter _ h.tenants, hfilter _ h.runs, hfilter _ h.events, hfilter _ h.approvals, hfilter _ h.toolEffects⟩

theorem agree_refl (tenantId : String) (db : DB) : Agree tenantId db db := ⟨rfl, rfl, rfl, rfl, rfl⟩

theorem agree_trans {db db₁ db' : DB} (h : Agree tenantId db db₁) (h' : Agree tenantId db₁ db') :
    Agree tenantId db db' :=
  ⟨h.tenants.trans h'.tenants, h.runs.trans h'.runs, h.events.trans h'.events, h.approvals.trans h'.approvals,
    h.toolEffects.trans h'.toolEffects⟩

/-- A call changes rows only on behalf of a principal, and only the principal's. -/
theorem agree_of_owes {request : Request lib jwtSecret} {op : Op} {answer : op.Res} {db db' : DB}
    (h : op.step d.engine.policy redact db answer db') (hop : request.Owes op)
    (hother : ∀ p, request.Authorised p → p.tenantId ≠ tenantId) : Agree tenantId db db' := by
  cases op with
  | service call =>
      obtain ⟨p, hauthorised, hwrites⟩ := hop
      exact agree_of_sameOthers (sameOthers_of_step h hwrites) (hother p hauthorised)
  | listRuns | listEvents =>
      obtain ⟨-, rfl⟩ := h
      exact agree_refl tenantId db'
  | ping | snapshot | reply =>
      obtain rfl := h
      exact agree_refl tenantId db'

/-- Every call of a run is one that the request of its thread owes. -/
theorem owes_of_mem {db₀ : DB} {labels : List (Pool.Label (Request lib jwtSecret) Op Op.Res)}
    {c : Pool (Request lib jwtSecret) Op Op.Res DB} (hrun : Run d redact lib jwtSecret ⟨[], db₀⟩ labels c)
    {i : Nat} {op : Op} {answer : op.Res} (hmem : .call i op answer ∈ labels) :
    ∃ request, .spawn request ∈ labels ∧ (c.threads[i]?).map Prod.fst = some request ∧ request.Owes op :=
  hrun.answered hmem fun request => owes_program request

/-- What holds of the requests of a run and of the databases before and after it. -/
structure Guarded (labels : List (Pool.Label (Request lib jwtSecret) Op Op.Res))
    (threads : List (Request lib jwtSecret × Handler Unit)) (db₀ db : DB) : Prop where
  calls : ∀ i op answer, .call i op answer ∈ labels →
    ∃ request, .spawn request ∈ labels ∧ (threads[i]?).map Prod.fst = some request ∧ request.Owes op
  rows : ∀ tenantId, (∀ request p, .spawn request ∈ labels → request.Authorised p → p.tenantId ≠ tenantId) →
    Agree tenantId db₀ db

/-- **The front door.** In every interleaving of requests, crashes included, each call to the services is made for
the tenant of a token that the service signed, with a role that the route asks for; whoever has none is refused
without a call; and a tenant for whom no such request arrives keeps all rows. -/
theorem front_door {db₀ : DB} {labels : List (Pool.Label (Request lib jwtSecret) Op Op.Res)}
    {c : Pool (Request lib jwtSecret) Op Op.Res DB} (hrun : Run d redact lib jwtSecret ⟨[], db₀⟩ labels c) :
    Guarded labels c.threads db₀ c.shared := by
  refine ⟨fun i op answer => owes_of_mem hrun, fun tenantId hother => ?_⟩
  have hguarded : Pool.Run (fun db _ _ db' => Agree tenantId db db') (fun request => request.program d)
      (fun _ _ => False) ⟨[], db₀⟩ labels c := by
    refine hrun.mono (fun i op answer db db' hmem hstep => ?_) fun _ _ h => h
    obtain ⟨request, hspawn, -, hop⟩ := owes_of_mem hrun hmem
    exact agree_of_owes hstep hop fun p => hother request p hspawn
  exact hguarded.shared (agree_refl tenantId) (fun _ _ _ => agree_trans) (fun _ _ _ _ h => h) fun _ _ h => h.elim

/-! ### A forged token and one without a role -/

section Visits

open Unicode

/-- A token of the owner, whose roles let him look at runs only. -/
def ownerToken : Str :=
  (Auth.mintToken (Auth.ownerLibrary 3600) (ofString "secret") (ofString "acme") (ofString "u1") Auth.ownerRoles
    3600 (1 / 2)).toOption.getD []

theorem principal_owner :
    principal (Auth.ownerLibrary 3600) (ofString "secret") (ofString "Bearer " ++ ownerToken) 3600 =
      .ok ⟨.str (ofString "acme"), .str (ofString "u1"), Auth.ownerRoles.map .str⟩ := by
  obtain ⟨token, hmint, hdecode⟩ := Auth.owner_minted 3600 (show Auth.truncate (1 / 2) = 0 by decide +kernel)
  have htoken : ownerToken = token := by
    rw [ownerToken, hmint]
    rfl
  have hfloat : Auth.floatOfInt (0 + 3600) = .ok 3600 := Auth.floatOfInt_eq (by decide)
  rw [Auth.principal_bearer, htoken, hdecode, Auth.ownerPayload,
    Auth.ofClaims_payload (by decide) (by decide) hfloat, if_neg (lt_irrefl _)]
  rfl

abbrev OwnerRequest : Type := Request (Auth.ownerLibrary 3600) (ofString "secret")

theorem refused_letters :
    Auth.Refused (Auth.ownerLibrary 3600) (ofString "secret") (ofString "a.b.c") 0 :=
  Auth.refused_of_decodeToken _
    (Auth.decodeToken_of_unsigned Auth.splitOn_letters (by decide) (by decide) (by decide) Auth.unsigned_letters)

def forged (route : Route) : OwnerRequest where
  authorization := ofString "Bearer " ++ ofString "a.b.c"
  time := 0
  route := route
  readable := by
    intro claims h
    obtain ⟨message, hrefused⟩ := refused_letters.request
    cases hrefused.symm.trans h

def owned (route : Route) : OwnerRequest where
  authorization := ofString "Bearer " ++ ownerToken
  time := 3600
  route := route
  readable := by
    intro claims h
    cases principal_owner.symm.trans h
    rfl

/-- Two attempts to cancel a run, and a look at it. -/
def visits : List (Pool.Label OwnerRequest Op Op.Res) × Pool OwnerRequest Op Op.Res DB :=
  play payDeployment id (.constant .null)
    [.spawn (forged (.run (.cancel "run"))), .spawn (owned (.run (.cancel "run"))),
      .spawn (owned (.run (.getRun "run"))), .call 2, .call 1, .call 0, .call 2]
    ⟨[], DB.withRun "run" "payments"⟩

def statusOf : Pool.Label OwnerRequest Op Op.Res → Option (Nat × Nat)
  | .call i (.reply response) _ => some (i, response.status)
  | _ => none

theorem front_door_visits : visits.1.filterMap statusOf = [(1, 403), (0, 401), (2, 200)] ∧
    Guarded visits.1 visits.2.threads (DB.withRun "run" "payments") visits.2.shared :=
  ⟨by decide +kernel, front_door (play_run _ _ _)⟩

end Visits

end Http

end Bass
