import Bass.Auth
import Bass.Tools

/-!
# Requests of the API

A whole request of `create_app`, from the header to the response: the principal is read off the token, the
role is checked, the handler runs, and the response is sent. Requests interleave over one store, one call
at a time.
-/

namespace Unicode

/-- The text of a string without halves of surrogate pairs. -/
def toText (s : Str) : Option String :=
  if s.any isSurrogate then none else some (String.ofList (s.map fun c => Char.ofNat c.val))

end Unicode

namespace Bass

open Interaction EngineM

def Auth.Value.text? : Auth.Value → Option String
  | .str s => Unicode.toText s
  | _ => none

/-- The principal of claims that are texts. A role that is no text is not one that an endpoint asks for. -/
def Auth.Principal.texts? (claims : Auth.Principal) : Option Bass.Principal := do
  let tenantId ← claims.tenantId.text?
  let subject ← claims.subject.text?
  return ⟨tenantId, subject, claims.roles.filterMap Auth.Value.text?⟩

/-- `ApiService.fire` on what a body holds under `trigger`. An idempotency key can be derived from a
dictionary only. -/
def ApiService.fireEvent (d : Deployment) (tenantId runId wfName : String) : Json → EngineM Run
  | .obj fields => ApiService.fire d tenantId runId wfName (Dict.ofList fields)
  | trigger => do
      let _ ← Act.ofExcept (item wfName (d.workflowsByName.get? wfName))
      if ← perform (.allowRequest tenantId) then
        perform (.ensureTenant tenantId tenantId (.obj []))
        throw (.python "AttributeError" s!"'{trigger.typeName}' object has no attribute 'get'")
      else throw (.bass .rateLimited tenantId)

def Exc.isRateLimited : Exc → Bool
  | .bass .rateLimited _ => true
  | _ => false

namespace Http

/-- What a request does one after the other: the calls of the services, the reads of the handlers, and the
response it sends. -/
inductive Op where
  | service (call : Call)
  | listRuns (tenantId : String) (limit : Int) (status : Option String)
  | listEvents (tenantId runId : String)
  | ping
  | snapshot
  | reply (response : HttpResponse)

abbrev Op.Res : Op → Type
  | .service call => call.Res
  | .listRuns .. => Except Exc (List Run)
  | .listEvents .. => Except Exc (List EventRow)
  | .ping => Bool
  | .snapshot => Json
  | .reply _ => Unit

/-- Whether the store is reachable and what the metrics are is left open. -/
def Op.step (policy : PolicyEngine) (redact : Json → Json) (db : DB) : (op : Op) → op.Res → DB → Prop
  | .service call, answer, db' => Call.step policy redact db call answer db'
  | .listRuns tenantId limit status, answer, db' => answer = db.listRuns tenantId limit status ∧ db' = db
  | .listEvents tenantId runId, answer, db' => answer = db.listEvents tenantId runId ∧ db' = db
  | .ping, _, db' | .snapshot, _, db' | .reply _, _, db' => db' = db

/-- The code of a handler. -/
abbrev Handler (α : Type) : Type := Prog Op Op.Res α

/-- The routes. A fire carries the id that is drawn for its run. -/
inductive Route where
  | health
  | ready
  | metrics
  | fire (name runId : String) (body : Dict String Json)
  | run (endpoint : Endpoint)

/-- Run a service of the deployment. -/
def service (tenantId runId : String) (code : EngineM Run) : Handler (Except Exc Run) := do
  let out ← (code.exec (Mem.request tenantId runId [])).interp fun call => Prog.perform (Op.service call)
  return out.1

/-- `store.load_run`. -/
def loadRun (tenantId runId : String) : Handler (Except Exc (Option Run)) :=
  Prog.perform (Op.service ⟨Mem.request tenantId runId [], .loadRun tenantId runId⟩)

/-- The exceptions that `cancel` and `resolve` answer by 404. -/
def masked (e : Exc) : Bool := e.isKeyError || e.isTenantIsolationError

/-- What `fire` answers. -/
def fired : Except Exc Run → HttpResponse
  | .ok run => HttpResponse.ok (runView run)
  | .error e =>
      if e.isKeyError then HttpResponse.error 404 "unknown workflow"
      else if e.isRateLimited then HttpResponse.error 429 "rate limit exceeded"
      else HttpResponse.internalServerError

/-- `require(*roles)`, in front of a handler. -/
def require (caller : Except HttpResponse Principal) (roles : List String)
    (handler : Principal → Handler HttpResponse) : Handler HttpResponse :=
  match caller with
  | .error response => return response
  | .ok principal =>
      if roles ≠ [] ∧ !principal.hasAny roles then return HttpResponse.forbidden roles else handler principal

/-- The handlers of the endpoints of runs. -/
def handle (d : Deployment) (principal : Principal) : Endpoint → Handler HttpResponse
  | .listRuns status limit => do
      let runs ← Prog.perform (Op.listRuns principal.tenantId (min (max limit 1) 200)
        (if status = "" then none else some status))
      return HttpResponse.ofExcept (fun _ => false) ((fun runs => .obj [("runs", .arr (runs.map runView))]) <$> runs)
  | .getRun runId => do
      match ← loadRun principal.tenantId runId with
      | .ok none => return HttpResponse.notFound
      | .ok (some run) => return HttpResponse.ok (runView run)
      | .error e => return HttpResponse.ofExcept Exc.isTenantIsolationError (.error e)
  | .getTrace runId => do
      let rows ← Prog.perform (Op.listEvents principal.tenantId runId)
      return HttpResponse.ofExcept Exc.isTenantIsolationError
        ((fun rows => .obj [("events", .arr (rows.map eventView))]) <$> rows)
  | .cancel runId => do
      let out ← service principal.tenantId runId (ApiService.cancel principal.tenantId runId)
      return HttpResponse.ofExcept masked (runView <$> out)
  | .resolve runId approvalId approved note => do
      let out ← service principal.tenantId runId (ApiService.resolveApproval d principal.tenantId runId approvalId
        approved.truthy principal.subject note)
      return HttpResponse.ofExcept masked (runView <$> out)

/-- The roles that an endpoint of runs asks for, any of them; without roles a principal is enough. -/
def roles : Endpoint → List String
  | .listRuns .. | .getRun _ | .getTrace _ => []
  | .cancel _ => ["owner", "admin", "builder"]
  | .resolve .. => ["owner", "admin", "approver"]

def respond (d : Deployment) (caller : Except HttpResponse Principal) : Route → Handler HttpResponse
  | .health => return HttpResponse.ok (.obj [("status", .str "ok")])
  | .ready => do
      if ← Prog.perform Op.ping then return HttpResponse.ok (.obj [("status", .str "ready")])
      else return HttpResponse.error 503 "store unavailable"
  | .metrics => require caller [] fun _ => do return HttpResponse.ok (← Prog.perform Op.snapshot)
  | .fire name runId body => require caller ["owner", "admin", "builder"] fun principal => do
      let trigger := (body.get? "trigger").getD (.obj [])
      return fired (← service principal.tenantId runId (ApiService.fireEvent d principal.tenantId runId name trigger))
  | .run endpoint => require caller (roles endpoint) fun principal => handle d principal endpoint

/-- A request, with the reading of the clock that its token is checked at. Whoever signs tokens puts texts
into the claims. -/
structure Request (lib : Auth.Library) (jwtSecret : Unicode.Str) where
  authorization : Unicode.Str
  time : ℚ
  route : Route
  readable : ∀ claims, principal lib jwtSecret authorization time = .ok claims → claims.texts?.isSome

namespace Request

variable {lib : Auth.Library} {jwtSecret : Unicode.Str}

/-- The principal that the handlers see; the claims are `readable`. -/
def caller (request : Request lib jwtSecret) : Except HttpResponse Bass.Principal :=
  match principal lib jwtSecret request.authorization request.time with
  | .error response => .error response
  | .ok claims => claims.texts?.elim (.error HttpResponse.internalServerError) .ok

def program (d : Deployment) (request : Request lib jwtSecret) : Handler Unit := do
  let response ← respond d request.caller request.route
  Prog.perform (Op.reply response)

end Request

section Run

variable (d : Deployment) (redact : Json → Json) (lib : Auth.Library) (jwtSecret : Unicode.Str)

/-- Any number of requests at once, each of them to its end or to a crash. -/
abbrev Run : Pool (Request lib jwtSecret) Op Op.Res DB →
    List (Pool.Label (Request lib jwtSecret) Op Op.Res) → Pool (Request lib jwtSecret) Op Op.Res DB → Prop :=
  Pool.Run (fun db op answer db' => op.step d.engine.policy redact db answer db')
    (fun request => request.program d) fun _ _ => False

variable {d redact lib jwtSecret}

/-- Serve a request in a deterministic world, with a store that is reachable. -/
def Op.serve (policy : PolicyEngine) (redact : Json → Json) (world : World) (db : DB) : (op : Op) → op.Res × DB
  | .service call => call.op.serve policy redact world db
  | .listRuns tenantId limit status => (db.listRuns tenantId limit status, db)
  | .listEvents tenantId runId => (db.listEvents tenantId runId, db)
  | .ping => (true, db)
  | .snapshot => (.obj [], db)
  | .reply _ => ((), db)

theorem Op.step_serve (policy : PolicyEngine) (redact : Json → Json) (world : World) (db : DB) (op : Op) :
    op.step policy redact db (op.serve policy redact world db).1 (op.serve policy redact world db).2 := by
  cases op with
  | service call => exact call.op.serve_step policy redact world db
  | listRuns | listEvents => exact ⟨rfl, rfl⟩
  | ping | snapshot | reply => rfl

def play (d : Deployment) (redact : Json → Json) (world : World)
    (moves : List (Pool.Move (Request lib jwtSecret))) (c : Pool (Request lib jwtSecret) Op Op.Res DB) :
    List (Pool.Label (Request lib jwtSecret) Op Op.Res) × Pool (Request lib jwtSecret) Op Op.Res DB :=
  Pool.play (fun db op => op.serve d.engine.policy redact world db) (fun request => request.program d) moves c

theorem play_run (world : World) (moves : List (Pool.Move (Request lib jwtSecret)))
    (c : Pool (Request lib jwtSecret) Op Op.Res DB) :
    Run d redact lib jwtSecret c (play d redact world moves c).1 (play d redact world moves c).2 :=
  Pool.play_run (fun db op => op.step_serve _ redact world db) moves c

end Run

end Http

end Bass
