import Bass.Services

/-!
# The HTTP API

The run and approval endpoints of `create_app` in `api.py`, from the decoded principal to the status
code and the body. A handler lets some exceptions pass for a missing run; any other exception is an
internal server error.
-/

namespace Bass

open Interaction

/-- The security context of a request. -/
structure Principal where
  tenantId : String
  subject : String
  roles : List String

def Principal.hasAny (principal : Principal) (roles : List String) : Bool :=
  roles.any fun role => role ∈ principal.roles

structure HttpResponse where
  status : Nat
  body : Json

namespace HttpResponse

def ok (body : Json) : HttpResponse := ⟨200, body⟩

/-- `HTTPException`. -/
def error (status : Nat) (detail : String) : HttpResponse := ⟨status, .obj [("detail", .str detail)]⟩

def notFound : HttpResponse := error 404 "not found"

def internalServerError : HttpResponse := ⟨500, .str "Internal Server Error"⟩

/-- `require`: a missing role is named in the refusal as Python prints a list. -/
def forbidden (roles : List String) : HttpResponse :=
  error 403 ("requires one of roles: [" ++ ", ".intercalate (roles.map fun role => "'" ++ role ++ "'")
    ++ "]")

/-- What a handler answers, `masked` being the exceptions it takes for a missing run. -/
def ofExcept (masked : Exc → Bool) : Except Exc Json → HttpResponse
  | .ok body => ok body
  | .error e => if masked e then notFound else internalServerError

end HttpResponse

def Exc.isTenantIsolationError : Exc → Bool
  | .bass .tenantIsolationError _ => true
  | _ => false

def Exc.isKeyError : Exc → Bool
  | .python "KeyError" _ => true
  | _ => false

def runView (run : Run) : Json :=
  .obj [("run_id", .str run.id), ("status", .str run.status.value),
    ("cost_usd", .float (.finite run.costUsd)), ("result", run.result)]

def eventView (row : EventRow) : Json :=
  .obj [("seq", .int row.seq), ("type", .str row.type),
    ("step_id", row.stepId.elim .null .str), ("payload", row.payloadJson)]

/-- What a request finds around the database: a world for each point of its history. It does not look
into the tables. -/
structure Surroundings where
  world : Trail → World
  now_blind : ∀ trail db db', (world trail).now db = (world trail).now db'
  newId_blind : ∀ trail db db', (world trail).newId db = (world trail).newId db'

/-- Answer a call and remember it. -/
def Surroundings.serve (around : Surroundings) (policy : PolicyEngine) (redact : Json → Json)
    (x : DB × Trail) (call : Call) : call.Res × (DB × Trail) :=
  let out := call.op.serve policy redact (around.world x.2) x.1
  (out.1, out.2, x.2 ++ [⟨call, out.1⟩])

inductive Endpoint where
  | listRuns (status : String) (limit : Int)
  | getRun (runId : String)
  | getTrace (runId : String)
  | cancel (runId : String)
  | resolve (runId approvalId : String) (approved : Json) (note : String)

namespace Endpoint

/-- The run an endpoint is called for. -/
def runId? : Endpoint → Option String
  | listRuns .. => none
  | getRun runId | getTrace runId | cancel runId | resolve runId .. => some runId

/-- The endpoints that go on to drive the run. -/
def drives : Endpoint → Bool
  | resolve .. => true
  | _ => false

variable (d : Deployment) (redact : Json → Json) (around : Surroundings) (db : DB)

/-- What the code of a request returns or raises. -/
def outcome (tenantId runId : String) (code : EngineM Run) : Except Exc Run :=
  ((code.exec (Mem.request tenantId runId [])).complete (around.serve d.engine.policy redact)
    (db, [])).2.1.1

/-- The handlers. -/
def respond (principal : Principal) : Endpoint → HttpResponse
  | listRuns status limit =>
      HttpResponse.ofExcept (fun _ => false)
        ((fun runs => .obj [("runs", .arr (runs.map runView))]) <$>
          db.listRuns principal.tenantId (min (max limit 1) 200)
            (if status = "" then none else some status))
  | getRun runId =>
      match db.loadRun principal.tenantId runId with
      | .ok none => HttpResponse.notFound
      | .ok (some run) => HttpResponse.ok (runView run)
      | .error e => HttpResponse.ofExcept Exc.isTenantIsolationError (.error e)
  | getTrace runId =>
      HttpResponse.ofExcept Exc.isTenantIsolationError
        ((fun rows => .obj [("events", .arr (rows.map eventView))]) <$>
          db.listEvents principal.tenantId runId)
  | cancel runId =>
      if principal.hasAny ["owner", "admin", "builder"] then
        HttpResponse.ofExcept (fun e => e.isKeyError || e.isTenantIsolationError)
          (runView <$> outcome d redact around db principal.tenantId runId
            (ApiService.cancel principal.tenantId runId))
      else HttpResponse.forbidden ["owner", "admin", "builder"]
  | resolve runId approvalId approved note =>
      if principal.hasAny ["owner", "admin", "approver"] then
        HttpResponse.ofExcept (fun e => e.isKeyError || e.isTenantIsolationError)
          (runView <$> outcome d redact around db principal.tenantId runId
            (ApiService.resolveApproval d principal.tenantId runId approvalId approved.truthy
              principal.subject note))
      else HttpResponse.forbidden ["owner", "admin", "approver"]

end Endpoint

end Bass
