import Bass.Proof.Outline
import Bass.Proof.StoreLemmas
import Mathlib.Data.List.Induction

/-!
# Visits to steps

The engine announces every entry into a step, so a trail of calls falls into visits: the memory at the
entry and the calls since. This module says what a visit to a tool step or an approval step has done by
the time the engine commits its end. A tool step either replayed the value in the ledger, with that one
lookup as its only call, or executed its tool on the arguments resolved at the entry; an approval step,
and a tool step whose gate required an approval, read a decision that was positive.
-/

namespace Bass

open Interaction EngineM

/-! ### Visits -/

structure Visit where
  entry : Mem
  step : Step
  calls : Trail

/-- The visit in progress at the end of a trail. -/
def lastVisit (trail : Trail) : Option Visit :=
  trail.foldl (fun visit event => match event.1.op with
    | .stepSpan step => some ⟨event.1.mem, step, []⟩
    | _ => visit.map fun v => { v with calls := v.calls ++ [event] }) none

/-- Calls made within one visit. -/
def Inside (calls : Trail) : Prop := ∀ event ∈ calls, ∀ step, event.1.op ≠ .stepSpan step

theorem lastVisit_concat {trail : Trail} {event : Prog.Event Call Call.Res}
    (h : ∀ step, event.1.op ≠ .stepSpan step) :
    lastVisit (trail ++ [event]) =
      (lastVisit trail).map fun v => { v with calls := v.calls ++ [event] } := by
  obtain ⟨⟨m, op⟩, answer⟩ := event
  rw [lastVisit, List.foldl_append]
  cases op with
  | stepSpan step => exact absurd rfl (h step)
  | _ => rfl

theorem lastVisit_span (trail : Trail) (m : Mem) (step : Step) :
    lastVisit (trail ++ [⟨⟨m, .stepSpan step⟩, ()⟩]) = some ⟨m, step, []⟩ := by
  rw [lastVisit, List.foldl_append]
  rfl

theorem lastVisit_append {trail calls : Trail} (h : Inside calls) :
    lastVisit (trail ++ calls) =
      (lastVisit trail).map fun v => { v with calls := v.calls ++ calls } := by
  induction calls using List.reverseRecOn with
  | nil => simp
  | append_singleton calls event ih =>
      have hcalls : Inside calls := fun e he => h e (List.mem_append_left _ he)
      have hevent : ∀ step, event.1.op ≠ .stepSpan step := h event (by simp)
      rw [← List.append_assoc, lastVisit_concat hevent, ih hcalls, Option.map_map]
      congr 1
      funext v
      simp

/-! ### What a visit did -/

/-- What a tool step finds when it is entered: its tool, and its arguments in the context. -/
structure ToolStep (cfg : EngineConfig) (step : Step) (m : Mem) (name : String) (tool : Tool)
    (args : Args) : Prop where
  named : step.tool = some name
  found : cfg.tools.get name = .ok tool
  resolved : resolve step.args m.run.context = .ok args

/-- What the tool is given: a mutating one finds its ledger key among the arguments. -/
def sentArgs (tool : Tool) (args : Args) (key : String) : Args :=
  if tool.sideEffect then Dict.set args "_idempotency_key" (.str key) else args

/-- The gate required an approval. -/
def Demands (event : Prog.Event Call Call.Res) : Prop :=
  ∃ m agent tool args context, ∃ decision : Decision,
    event = ⟨⟨m, .policyCheck agent tool args context⟩, decision⟩ ∧
      decision.effect = .requireApproval

/-- A positive decision about a step of the run was read from the store. -/
def Approves (run : Run) (stepId : String) (event : Prog.Event Call Call.Res) : Prop :=
  ∃ m approvalId, event =
    ⟨⟨m, .latestApproval run.tenantId run.id stepId⟩, some (approvalId, .approved)⟩

/-- Whether the gate requires an approval for this call of a tool step. -/
def EngineConfig.requiresApproval (cfg : EngineConfig) (name : String) (tool : Tool) (args : Args)
    (context : Context) : Prop :=
  (cfg.policy.check (WorkflowEngine.systemAgent name) tool args context).effect = .requireApproval

/-- The calls that lead up to an execution, none of which touches the ledger. -/
def Op.Gating : Op → Prop
  | .policyCheck .. | .checkpoint .. => True
  | op => op.Asking

/-- What is common to all calls of a tool step entered in `m`: every execution is the one the
arguments at the entry call for, and the gate demands what it demands of them. -/
structure Regular (cfg : EngineConfig) (step : Step) (m : Mem) (name : String) (tool : Tool)
    (args : Args) (calls : Trail) : Prop where
  inside : Inside calls
  executed : ∀ event ∈ calls, ∀ caller name' sent, event.1.op = .execute caller name' sent →
    caller = .step step.id ∧ name' = name ∧
      sent = sentArgs tool args (ledgerKey m.run.id step.id name)
  gated : ∀ event ∈ calls, Demands event → cfg.requiresApproval name tool args m.run.context

/-- The attempt acted: the ledger was empty, the gate was passed, and the tool returned `output`. -/
structure Acted (cfg : EngineConfig) (step : Step) (m : Mem) (name : String) (tool : Tool)
    (args : Args) (output : Json) (calls : Trail) : Prop
    extends Regular cfg step m name tool args calls where
  looked : tool.sideEffect = true → ∃ m₁,
    ⟨⟨m₁, .getEffect m.run.tenantId (ledgerKey m.run.id step.id name)⟩, .ok .null⟩ ∈ calls
  acted : ∃ m₁, ⟨⟨m₁, .execute (.step step.id) name
    (sentArgs tool args (ledgerKey m.run.id step.id name))⟩, .ok output⟩ ∈ calls
  approved : cfg.approvalFn = false → cfg.requiresApproval name tool args m.run.context →
    ∃ event ∈ calls, Approves m.run step.id event

/-- The attempt replayed `output` from the ledger and made no other call. -/
structure Replayed (step : Step) (m : Mem) (name : String) (tool : Tool) (output : Json)
    (calls : Trail) : Prop where
  mutating : tool.sideEffect = true
  recorded : output ≠ .null
  only : ∃ m₁, calls =
    [⟨⟨m₁, .getEffect m.run.tenantId (ledgerKey m.run.id step.id name)⟩, .ok output⟩]

/-- How a visit to a tool step that was entered in `m` ended, with `context` afterwards. -/
def ToolConcluded (cfg : EngineConfig) (step : Step) (m : Mem) (calls : Trail) (context : Context) :
    Prop :=
  ∃ name tool args output, ToolStep cfg step m name tool args ∧
    context = Dict.set m.run.context step.id output ∧
    (Replayed step m name tool output calls ∨ Acted cfg step m name tool args output calls)

/-- What the engine knows when it commits the end of a visit. -/
structure Concluded (cfg : EngineConfig) (visit : Visit) (run : Run) : Prop where
  id : run.id = visit.entry.run.id
  tenantId : run.tenantId = visit.entry.run.tenantId
  tool : visit.step.nodeType = .tool →
    ToolConcluded cfg visit.step visit.entry visit.calls run.context
  approval : visit.step.nodeType = .approval → cfg.approvalFn = false →
    ∃ event ∈ visit.calls, Approves visit.entry.run visit.step.id event

/-- A mutating tool step executes only while the ledger has nothing under its key, and the end of a
visit is committed only after the visit has done its work. What holds of the trail when a step is
entered is left open. -/
def VisitCall (cfg : EngineConfig) (G : Trail → Prop) (x : DB × Trail) (call : Call) : Prop :=
  match call.op with
  | .stepSpan _ => G x.2
  | .execute (.step stepId) name _ => ∀ tool, cfg.tools.get name = .ok tool →
      tool.sideEffect = true →
      x.1.getEffect call.mem.run.tenantId (ledgerKey call.mem.run.id stepId name) = .ok .null
  | .checkpoint run _ => run.status = .running ∨ run.status = .succeeded →
      ∃ visit, lastVisit x.2 = some visit ∧ Concluded cfg visit run
  | _ => True

/-- The sequential behaviour of calls, with the trail recorded. -/
def visitSpec (cfg : EngineConfig) (redact : Json → Json) (G : Trail → Prop) :
    Spec Call Call.Res (DB × Trail) :=
  .sequential (Prog.Recording (Call.step cfg.policy redact)) (VisitCall cfg G)

section Attempt

variable {cfg : EngineConfig} {redact : Json → Json} {G : Trail → Prop} {step : Step}

/-! ### The calls of an attempt -/

/-- From `m` and `x` the driver has got to `m'` and `x'` by the calls `calls`, without writing to the
ledger or to its context. -/
structure Moved (m : Mem) (x : DB × Trail) (calls : Trail) (m' : Mem) (x' : DB × Trail) : Prop where
  trail : x'.2 = x.2 ++ calls
  effects : x'.1.toolEffects = x.1.toolEffects
  id : m'.run.id = m.run.id
  tenantId : m'.run.tenantId = m.run.tenantId
  context : m'.run.context = m.run.context

theorem Moved.refl (m : Mem) (x : DB × Trail) : Moved m x [] m x :=
  ⟨(List.append_nil _).symm, rfl, rfl, rfl, rfl⟩

theorem Moved.trans {m m₁ m₂ : Mem} {x x₁ x₂ : DB × Trail} {calls calls' : Trail}
    (h : Moved m x calls m₁ x₁) (h' : Moved m₁ x₁ calls' m₂ x₂) :
    Moved m x (calls ++ calls') m₂ x₂ where
  trail := by rw [h'.trail, h.trail, List.append_assoc]
  effects := h'.effects.trans h.effects
  id := h'.id.trans h.id
  tenantId := h'.tenantId.trans h.tenantId
  context := h'.context.trans h.context

theorem Moved.memory {m m₁ m₂ : Mem} {x x₁ : DB × Trail} {calls : Trail}
    (h : Moved m x calls m₁ x₁) (hsame : SameRun m₁ m₂) : Moved m x calls m₂ x₁ :=
  ⟨h.trail, h.effects, hsame.id.trans h.id, hsame.tenantId.trans h.tenantId,
    hsame.context.trans h.context⟩

/-- One more call, which is not one that writes to the ledger. -/
theorem Moved.call {m m₁ : Mem} {x x₁ y : DB × Trail} {calls : Trail} {op : Op} {answer : op.Res}
    (h : Moved m x calls m₁ x₁) (hs : (visitSpec cfg redact G).step x₁ ⟨m₁, op⟩ answer y)
    (hop : ∀ tenantId key runId stepId tool result,
      op ≠ .recordEffect tenantId key runId stepId tool result) :
    Moved m x (calls ++ [⟨⟨m₁, op⟩, answer⟩]) m₁ y := by
  obtain ⟨hstep, htrail⟩ := hs
  refine ⟨by rw [htrail, h.trail, List.append_assoc], ?_, h.id, h.tenantId, h.context⟩
  rcases effects_of_step hstep with hsame | ⟨_, _, _, _, _, _, _, rfl, -⟩
  · exact hsame.trans h.effects
  · exact absurd rfl (hop _ _ _ _ _ _)

theorem Moved.getEffect {m m' : Mem} {x x' : DB × Trail} {calls : Trail}
    (h : Moved m x calls m' x') (tenantId key : String) :
    x'.1.getEffect tenantId key = x.1.getEffect tenantId key := by
  rw [DB.getEffect, DB.getEffect, h.effects]

theorem Moved.single {m : Mem} {x y : DB × Trail} {op : Op} {answer : op.Res}
    (hs : (visitSpec cfg redact G).step x ⟨m, op⟩ answer y)
    (hop : ∀ tenantId key runId stepId tool result,
      op ≠ .recordEffect tenantId key runId stepId tool result) :
    Moved m x [⟨⟨m, op⟩, answer⟩] m y :=
  (Moved.refl m x).call hs hop

/-- Calls of the gate only. -/
def Gatings (calls : Trail) : Prop := ∀ event ∈ calls, event.1.op.Gating

theorem Gatings.nil : Gatings [] := fun _ h => absurd h List.not_mem_nil

theorem Gatings.append {calls calls' : Trail} (h : Gatings calls) (h' : Gatings calls') :
    Gatings (calls ++ calls') := fun event hevent => (List.mem_append.mp hevent).elim (h event) (h' event)

theorem Gatings.singleton {event : Prog.Event Call Call.Res} (h : event.1.op.Gating) :
    Gatings [event] := fun _ hmem => by rwa [List.mem_singleton.mp hmem]

theorem Op.Asking.gating {op : Op} (h : op.Asking) : op.Gating := by
  cases op <;> trivial

/-- Within the approval of a step: calls that ask, and nothing else. -/
def Waiting (m : Mem) (x : DB × Trail) (m' : Mem) (x' : DB × Trail) : Prop :=
  ∃ calls, Moved m x calls m' x' ∧ Gatings calls ∧ ∀ event ∈ calls, ¬Demands event

theorem Waiting.memory {m m₁ m₂ : Mem} {x x₁ : DB × Trail} (h : Waiting m x m₁ x₁)
    (hsame : SameRun m₁ m₂) : Waiting m x m₂ x₁ :=
  let ⟨calls, hmoved, hrest⟩ := h
  ⟨calls, hmoved.memory hsame, hrest⟩

theorem not_demands {event : Prog.Event Call Call.Res}
    (h : ∀ agent tool args context, event.1.op ≠ .policyCheck agent tool args context) :
    ¬Demands event := by
  rintro ⟨m, agent, tool, args, context, decision, rfl, -⟩
  exact h agent tool args context rfl

theorem Waiting.call {m m₁ : Mem} {x x₁ y : DB × Trail} {op : Op} {answer : op.Res}
    (h : Waiting m x m₁ x₁) (hs : (visitSpec cfg redact G).step x₁ ⟨m₁, op⟩ answer y)
    (hop : op.Gating) (hcheck : ∀ agent tool args context, op ≠ .policyCheck agent tool args context) :
    Waiting m x m₁ y := by
  obtain ⟨calls, hmoved, hgating, hdemands⟩ := h
  have hrecord : ∀ tenantId key runId stepId tool result,
      op ≠ .recordEffect tenantId key runId stepId tool result := by
    rintro tenantId key runId stepId tool result rfl
    exact hop
  refine ⟨_, hmoved.call hs hrecord, hgating.append (.singleton hop), fun event hevent => ?_⟩
  rcases List.mem_append.mp hevent with hold | hnew
  · exact hdemands event hold
  · rw [List.mem_singleton.mp hnew]
    exact not_demands hcheck

theorem visitCall_of_ne {x : DB × Trail} {m : Mem} {op : Op}
    (hspan : ∀ step, op ≠ .stepSpan step) (hexecute : ∀ stepId name sent, op ≠ .execute (.step stepId) name sent)
    (hcheckpoint : ∀ run events, op ≠ .checkpoint run events) : VisitCall cfg G x ⟨m, op⟩ := by
  cases op with
  | stepSpan step => exact absurd rfl (hspan step)
  | execute caller name sent =>
      cases caller with
      | step stepId => exact absurd rfl (hexecute stepId name sent)
      | agent name => trivial
  | checkpoint run events => exact absurd rfl (hcheckpoint run events)
  | _ => trivial

theorem visitCall_of_plain {x : DB × Trail} {m : Mem} {op : Op} (h : op.Plain) :
    VisitCall cfg G x ⟨m, op⟩ := by
  refine visitCall_of_ne ?_ ?_ ?_
  · rintro step rfl
    exact h
  · rintro stepId name sent rfl
    exact h
  · rintro run events rfl
    exact h

/-- Asking for an approval, whatever comes of it. -/
theorem waiting_asking (m : Mem) (x : DB × Trail) {op : Op} (hop : op.Asking) :
    Act.Keeps (visitSpec cfg redact G) (Waiting m x) (perform op) := by
  refine Act.keeps_perform ?_
  rintro m₁ x₁ h _ rfl
  refine ⟨visitCall_of_plain hop.plain, fun answer y hs => h.call hs hop.gating ?_⟩
  rintro agent tool args context rfl
  exact hop

/-- A checkpoint that does not commit the end of a visit. -/
theorem savedIn_waiting (m : Mem) (x : DB × Trail) {status : RunStatus}
    (hrunning : status ≠ .running) (hsucceeded : status ≠ .succeeded) :
    SavedIn (visitSpec cfg redact G) (Waiting m x) status := by
  intro m₁ x₁ h hstatus
  refine wp_checkpoint.mpr ?_
  rintro _ rfl
  refine ⟨fun hdone => ?_, fun answer y hs => ?_⟩
  · rcases hdone with hdone | hdone
    · exact absurd (hstatus.symm.trans hdone) hrunning
    · exact absurd (hstatus.symm.trans hdone) hsucceeded
  · have hy := h.call hs trivial fun _ _ _ _ heq => nomatch heq
    cases answer with
    | ok value => exact let ⟨calls, hmoved, hrest⟩ := hy
        ⟨calls, ⟨hmoved.trail, hmoved.effects, hmoved.id, hmoved.tenantId, hmoved.context⟩, hrest⟩
    | error e => exact hy

/-- Without a callback, an approval that is granted was read from the store. -/
theorem granted_awaitAsync (approvers : List String) (tool : String) (args : Args) (m : Mem)
    (x : DB × Trail) :
    Act.wp (visitSpec cfg redact G) (WorkflowEngine.awaitAsync step approvers tool args)
      (fun granted m' x' => ∃ calls, Moved m x calls m' x' ∧ Gatings calls ∧
        (∀ event ∈ calls, ¬Demands event) ∧
        (granted = true → ∃ event ∈ calls, Approves m.run step.id event))
      (fun _ => Waiting m x) m x := by
  have hsame : ∀ m₁ m₂ x₁, SameRun m₁ m₂ → Waiting m x m₁ x₁ → Waiting m x m₂ x₁ :=
    fun m₁ m₂ x₁ h h' => h'.memory h
  refine (wp_getRun_bind _).mpr ((Act.wp_perform_bind _ _).mpr ?_)
  rintro _ rfl
  refine ⟨trivial, fun latest y hs => ?_⟩
  have hmoved := Moved.single hs fun _ _ _ _ _ _ heq => nomatch heq
  have hgating : Gatings [⟨⟨m, .latestApproval m.run.tenantId m.run.id step.id⟩, latest⟩] :=
    .singleton trivial
  have hquiet : ∀ event ∈ [(⟨⟨m, .latestApproval m.run.tenantId m.run.id step.id⟩, latest⟩ :
      Prog.Event Call Call.Res)], ¬Demands event := by
    intro event hevent
    rw [List.mem_singleton.mp hevent]
    exact not_demands fun _ _ _ _ heq => nomatch heq
  have hwaiting : Waiting m x m y := ⟨_, hmoved, hgating, hquiet⟩
  have hpause : SavedIn (visitSpec cfg redact G) (Waiting m x) .waitingApproval :=
    savedIn_waiting m x nofun nofun
  cases latest with
  | none =>
      refine (Act.wp_bind _ _).mpr (Act.wp_mono _ ?_ (fun _ _ _ h => h)
        (waiting_asking m x (show (Op.createApproval _ _ _ _).Asking from trivial) m y hwaiting))
      intro created m₁ x₁ h₁
      refine (Act.wp_ofExcept_bind _ _).mpr ?_
      cases created with
      | error e => exact h₁
      | ok approvalId =>
          refine (wp_modifyRun_bind _ _).mpr ((wp_emit_bind _ _ _ _ _ _).mpr ?_)
          refine (Act.wp_bind _ _).mpr (hpause _ x₁ (hsame m₁ _ x₁ ?_ h₁) rfl)
          exact ⟨⟨rfl, rfl, rfl, rfl, rfl, rfl, List.prefix_append _ _⟩, rfl⟩
  | some found =>
      obtain ⟨approvalId, status⟩ := found
      dsimp only
      by_cases hpending : status = .pending
      · rw [if_pos hpending]
        refine (wp_modifyRun_bind _ _).mpr ((Act.wp_bind _ _).mpr (hpause _ y (hsame m _ y ?_ hwaiting) rfl))
        exact ⟨⟨rfl, rfl, rfl, rfl, rfl, rfl, List.prefix_rfl⟩, rfl⟩
      · rw [if_neg hpending]
        refine (wp_emit_bind _ _ _ _ _ _).mpr ⟨_, hmoved.memory ?_, hgating, hquiet, fun hgranted => ?_⟩
        · exact ⟨⟨rfl, rfl, rfl, rfl, rfl, rfl, List.prefix_append _ _⟩, rfl⟩
        · have happroved : status = .approved := by simpa using hgranted
          subst happroved
          exact ⟨_, List.mem_singleton_self _, m, approvalId, rfl⟩

/-- What `_await_approval` has done when it answers. -/
theorem granted_awaitApproval (approvers : List String) (tool : String) (args : Args) (m : Mem)
    (x : DB × Trail) :
    Act.wp (visitSpec cfg redact G) (WorkflowEngine.awaitApproval cfg step approvers tool args)
      (fun granted m' x' => ∃ calls, Moved m x calls m' x' ∧ Gatings calls ∧
        (∀ event ∈ calls, ¬Demands event) ∧
        (granted = true → cfg.approvalFn = false → ∃ event ∈ calls, Approves m.run step.id event))
      (fun _ => Waiting m x) m x := by
  unfold WorkflowEngine.awaitApproval
  split
  · rename_i hsync
    refine Act.wp_mono _ ?_ (fun _ _ _ h => h) (keeps_awaitSync
      (fun m₁ m₂ x₁ h h' => h'.memory h.toSameRun) (fun op hop => waiting_asking m x hop) step approvers tool
      args m x ⟨[], Moved.refl m x, Gatings.nil, fun _ h => absurd h List.not_mem_nil⟩)
    rintro granted m' x' ⟨calls, hmoved, hgating, hquiet⟩
    refine ⟨calls, hmoved, hgating, hquiet, fun _ hasync => ?_⟩
    rw [hsync] at hasync
    cases hasync
  · exact Act.wp_mono _ (fun granted m' x' ⟨calls, hmoved, hgating, hquiet, happroved⟩ =>
      ⟨calls, hmoved, hgating, hquiet, fun hgranted _ => happroved hgranted⟩) (fun _ _ _ h => h)
      (granted_awaitAsync approvers tool args m x)

/-! ### Tool steps -/

theorem ToolStep.unique {m : Mem} {name name' : String} {tool tool' : Tool} {args args' : Args}
    (h : ToolStep cfg step m name tool args) (h' : ToolStep cfg step m name' tool' args') :
    name' = name ∧ tool' = tool ∧ args' = args := by
  obtain rfl : name' = name := Option.some.inj (h'.named.symm.trans h.named)
  have htool : Except.ok tool' = (Except.ok tool : Except Exc Tool) := h'.found.symm.trans h.found
  have hargs : Except.ok args' = (Except.ok args : Except Exc Args) :=
    h'.resolved.symm.trans h.resolved
  cases htool
  cases hargs
  exact ⟨rfl, rfl, rfl⟩

section Regular

variable {m : Mem} {name : String} {tool : Tool} {args : Args}

theorem Regular.append {calls calls' : Trail} (h : Regular cfg step m name tool args calls)
    (h' : Regular cfg step m name tool args calls') :
    Regular cfg step m name tool args (calls ++ calls') where
  inside := fun event hevent => (List.mem_append.mp hevent).elim (h.inside event) (h'.inside event)
  executed := fun event hevent =>
    (List.mem_append.mp hevent).elim (h.executed event) (h'.executed event)
  gated := fun event hevent => (List.mem_append.mp hevent).elim (h.gated event) (h'.gated event)

theorem regular_gatings {calls : Trail} (h : Gatings calls)
    (hdemands : ∀ event ∈ calls, Demands event →
      cfg.requiresApproval name tool args m.run.context) :
    Regular cfg step m name tool args calls where
  inside := by
    rintro event hevent step' hop
    have hgating := h event hevent
    rw [hop] at hgating
    exact hgating
  executed := by
    intro event hevent caller name' sent hop
    have hgating := h event hevent
    rw [hop] at hgating
    exact hgating.elim
  gated := hdemands

/-- A call to the ledger is regular. -/
theorem regular_ledger {event : Prog.Event Call Call.Res}
    (h : (∃ tenantId key, event.1.op = .getEffect tenantId key) ∨
      ∃ tenantId key runId stepId tool' result,
        event.1.op = .recordEffect tenantId key runId stepId tool' result) :
    Regular cfg step m name tool args [event] where
  inside := by
    intro event' hevent step' hop
    rw [List.mem_singleton.mp hevent] at hop
    rcases h with ⟨_, _, hledger⟩ | ⟨_, _, _, _, _, _, hledger⟩ <;> rw [hop] at hledger <;>
      cases hledger
  executed := by
    intro event' hevent caller name' sent hop
    rw [List.mem_singleton.mp hevent] at hop
    rcases h with ⟨_, _, hledger⟩ | ⟨_, _, _, _, _, _, hledger⟩ <;> rw [hop] at hledger <;>
      cases hledger
  gated := by
    rintro event' hevent ⟨m₁, agent, tool', args', context, decision, heq, -⟩
    rw [← List.mem_singleton.mp hevent, heq] at h
    rcases h with ⟨_, _, hledger⟩ | ⟨_, _, _, _, _, _, hledger⟩ <;> cases hledger

theorem regular_execute (m₁ : Mem) (answer : Except Exc Json) :
    Regular cfg step m name tool args [⟨⟨m₁, .execute (.step step.id) name
      (sentArgs tool args (ledgerKey m.run.id step.id name))⟩, answer⟩] where
  inside := by
    intro event hevent step' hop
    rw [List.mem_singleton.mp hevent] at hop
    cases hop
  executed := by
    intro event hevent caller name' sent hop
    rw [List.mem_singleton.mp hevent] at hop
    cases hop
    exact ⟨rfl, rfl, rfl⟩
  gated := by
    rintro event hevent ⟨_, _, _, _, _, _, heq, -⟩
    rw [List.mem_singleton.mp hevent] at heq
    cases heq

end Regular

/-- What the attempts at a tool step that have failed so far leave behind: regular calls, and, once
there was any, a ledger that is known to hold nothing under the key. -/
structure Attempted (cfg : EngineConfig) (step : Step) (m : Mem) (calls : Trail) (db : DB) :
    Prop where
  inside : Inside calls
  regular : ∀ name tool args, ToolStep cfg step m name tool args →
    Regular cfg step m name tool args calls
  empty : ∀ name tool args, ToolStep cfg step m name tool args → tool.sideEffect = true →
    calls ≠ [] → ∀ output,
      db.getEffect m.run.tenantId (ledgerKey m.run.id step.id name) = .ok output → output = .null

theorem Attempted.nil (m : Mem) (db : DB) : Attempted cfg step m [] db where
  inside := fun _ h => absurd h List.not_mem_nil
  regular := fun _ _ _ _ => regular_gatings Gatings.nil fun _ h => absurd h List.not_mem_nil
  empty := fun _ _ _ _ _ h => absurd rfl h

/-- Past the lookup: the ledger holds nothing and the attempt goes on to act. -/
structure Cleared (cfg : EngineConfig) (step : Step) (m₀ : Mem) (x₀ : DB × Trail) (name : String)
    (tool : Tool) (args : Args) (calls : Trail) (m : Mem) (x : DB × Trail) : Prop where
  moved : Moved m₀ x₀ calls m x
  regular : Regular cfg step m₀ name tool args calls
  empty : tool.sideEffect = true →
    x.1.getEffect m₀.run.tenantId (ledgerKey m₀.run.id step.id name) = .ok .null
  looked : tool.sideEffect = true → ∃ m₁,
    ⟨⟨m₁, .getEffect m₀.run.tenantId (ledgerKey m₀.run.id step.id name)⟩, .ok .null⟩ ∈ calls

section ToolSteps

variable {m₀ m : Mem} {x₀ x : DB × Trail} {name : String} {tool : Tool} {args : Args}
  {calls : Trail}

theorem Cleared.attempted (h : Cleared cfg step m₀ x₀ name tool args calls m x)
    (hts : ToolStep cfg step m₀ name tool args) : Attempted cfg step m₀ calls x.1 where
  inside := h.regular.inside
  regular := by
    intro name' tool' args' hts'
    obtain ⟨rfl, rfl, rfl⟩ := hts.unique hts'
    exact h.regular
  empty := by
    intro name' tool' args' hts' hmutating _ output hget
    obtain ⟨rfl, rfl, rfl⟩ := hts.unique hts'
    rw [h.empty hmutating] at hget
    cases hget
    rfl

theorem Cleared.memory (h : Cleared cfg step m₀ x₀ name tool args calls m x) {m' : Mem}
    (hsame : SameRun m m') : Cleared cfg step m₀ x₀ name tool args calls m' x :=
  ⟨h.moved.memory hsame, h.regular, h.empty, h.looked⟩

/-- Calls of the gate keep the way clear. -/
theorem Cleared.gatings (h : Cleared cfg step m₀ x₀ name tool args calls m x) {m' : Mem}
    {x' : DB × Trail} {calls' : Trail} (hmoved : Moved m x calls' m' x') (hgating : Gatings calls')
    (hdemands : ∀ event ∈ calls', Demands event →
      cfg.requiresApproval name tool args m₀.run.context) :
    Cleared cfg step m₀ x₀ name tool args (calls ++ calls') m' x' where
  moved := h.moved.trans hmoved
  regular := h.regular.append (regular_gatings hgating hdemands)
  empty := fun hmutating => by rw [hmoved.getEffect]; exact h.empty hmutating
  looked := fun hmutating => (h.looked hmutating).imp fun _ hmem => List.mem_append_left _ hmem

theorem cleared_gate (h : Cleared cfg step m₀ x₀ name tool args calls m x) :
    Act.wp (visitSpec cfg redact G) (WorkflowEngine.gate cfg step tool name args)
      (fun _ m' x' => ∃ calls', Cleared cfg step m₀ x₀ name tool args calls' m' x' ∧
        (cfg.approvalFn = false → cfg.requiresApproval name tool args m₀.run.context →
          ∃ event ∈ calls', Approves m₀.run step.id event))
      (fun _ m' x' => ∃ calls', Cleared cfg step m₀ x₀ name tool args calls' m' x') m x := by
  refine (wp_getRun_bind _).mpr ((Act.wp_perform_bind _ _).mpr ?_)
  rintro _ rfl
  refine ⟨trivial, fun decision y hs => ?_⟩
  have hdecision : decision =
      cfg.policy.check (WorkflowEngine.systemAgent name) tool args m₀.run.context := by
    rw [← h.moved.context]
    exact hs.1.1
  have hchecked := Moved.single hs fun _ _ _ _ _ _ heq => nomatch heq
  have hdemands : ∀ event ∈ [(⟨⟨m, .policyCheck (WorkflowEngine.systemAgent name) tool args
      m.run.context⟩, decision⟩ : Prog.Event Call Call.Res)], Demands event →
      cfg.requiresApproval name tool args m₀.run.context := by
    rintro event hevent ⟨m₁, agent, tool', args', context, decision', heq, heffect⟩
    rw [List.mem_singleton.mp hevent] at heq
    cases heq
    rwa [EngineConfig.requiresApproval, ← hdecision]
  have hy := h.gatings hchecked (.singleton trivial) hdemands
  refine (wp_emit_bind _ _ _ _ _ _).mpr ?_
  generalize hm₁ : ({ m with buffer := _ } : Mem) = m₁
  have hemit : Cleared cfg step m₀ x₀ name tool args _ m₁ y := hy.memory
    (by rw [← hm₁]; exact ⟨⟨rfl, rfl, rfl, rfl, rfl, rfl, List.prefix_append _ _⟩, rfl⟩)
  cases heffect : decision.effect with
  | allow =>
      refine ⟨_, hemit, fun _ hrequires => ?_⟩
      rw [EngineConfig.requiresApproval, ← hdecision, heffect] at hrequires
      cases hrequires
  | deny => exact ⟨_, hemit⟩
  | requireApproval =>
      refine (Act.wp_bind _ _).mpr (Act.wp_mono _ ?_ ?_
        (granted_awaitApproval decision.approvers name args m₁ y))
      · rintro granted m' x' ⟨calls', hmoved, hgating, hquiet, happroved⟩
        have hcleared := hemit.gatings hmoved hgating fun event hevent hdemands =>
          absurd hdemands (hquiet event hevent)
        split
        · rename_i hgranted
          refine ⟨_, hcleared, fun hasync _ => ?_⟩
          obtain ⟨event, hevent, m₁, approvalId, rfl⟩ := happroved hgranted hasync
          refine ⟨_, List.mem_append_right _ hevent, m₁, approvalId, ?_⟩
          rw [hemit.moved.id, hemit.moved.tenantId]
        · exact ⟨_, hcleared⟩
      · rintro e m' x' ⟨calls', hmoved, hgating, hquiet⟩
        exact ⟨_, hemit.gatings hmoved hgating fun event hevent hdemands =>
          absurd hdemands (hquiet event hevent)⟩

/-- A tool step that has done its work, entered in `m₀` and `x₀`. -/
def Finished (cfg : EngineConfig) (step : Step) (m₀ : Mem) (x₀ : DB × Trail) (m : Mem)
    (x : DB × Trail) : Prop :=
  ∃ calls, x.2 = x₀.2 ++ calls ∧ m.run.id = m₀.run.id ∧ m.run.tenantId = m₀.run.tenantId ∧
    Inside calls ∧ ToolConcluded cfg step m₀ calls m.run.context

/-- A tool step that has not done its work yet. -/
def Unfinished (cfg : EngineConfig) (step : Step) (m₀ : Mem) (x₀ : DB × Trail) (m : Mem)
    (x : DB × Trail) : Prop :=
  ∃ calls, Moved m₀ x₀ calls m x ∧ Attempted cfg step m₀ calls x.1

/-- One more call, which the tool's execution or a lookup is. -/
theorem Cleared.call (h : Cleared cfg step m₀ x₀ name tool args calls m x) {op : Op}
    {answer : op.Res} {y : DB × Trail} (hs : (visitSpec cfg redact G).step x ⟨m, op⟩ answer y)
    (hop : ∀ tenantId key runId stepId tool result,
      op ≠ .recordEffect tenantId key runId stepId tool result)
    (hregular : Regular cfg step m₀ name tool args [⟨⟨m, op⟩, answer⟩]) :
    Cleared cfg step m₀ x₀ name tool args (calls ++ [⟨⟨m, op⟩, answer⟩]) m y where
  moved := h.moved.call hs hop
  regular := h.regular.append hregular
  empty := fun hmutating => by rw [(Moved.single hs hop).getEffect]; exact h.empty hmutating
  looked := fun hmutating => (h.looked hmutating).imp fun _ hmem => List.mem_append_left _ hmem

theorem finished_act (h : Cleared cfg step m₀ x₀ name tool args calls m x)
    (hts : ToolStep cfg step m₀ name tool args)
    (happroved : cfg.approvalFn = false → cfg.requiresApproval name tool args m₀.run.context →
      ∃ event ∈ calls, Approves m₀.run step.id event) :
    Act.wp (visitSpec cfg redact G)
      (WorkflowEngine.act step tool name args (ledgerKey m₀.run.id step.id name))
      (fun _ => Finished cfg step m₀ x₀) (fun _ => Unfinished cfg step m₀ x₀) m x := by
  refine (Act.wp_perform_bind _ _).mpr ?_
  rintro _ rfl
  refine ⟨fun tool' hget hmutating => ?_, fun answer y hs => ?_⟩
  · have htool : Except.ok tool' = (Except.ok tool : Except Exc Tool) := hget.symm.trans hts.found
    cases htool
    rw [h.moved.id, h.moved.tenantId]
    exact h.empty hmutating
  have hy := h.call hs (fun _ _ _ _ _ _ heq => nomatch heq) (regular_execute m answer)
  refine (Act.wp_ofExcept_bind _ _).mpr ?_
  cases answer with
  | error e => exact ⟨_, hy.moved, hy.attempted hts⟩
  | ok result =>
      -- the result is booked; the ledger call, if there is one, comes in between
      have hbook : ∀ (x' : DB × Trail) (last : Trail), x'.2 = y.2 ++ last →
          Regular cfg step m₀ name tool args last →
          Act.wp (visitSpec cfg redact G) (do
            modifyRun fun run => { run with costUsd := run.costUsd + tool.costUsd }
            emit "tool_result" (.obj [("tool", .str name), ("result", result)]) (some step.id)
              tool.costUsd
            modifyRun fun run => { run with context := Dict.set run.context step.id result }
            return step.next) (fun _ => Finished cfg step m₀ x₀)
            (fun _ => Unfinished cfg step m₀ x₀) m x' := by
        intro x' last hlast hregular
        have hall := hy.regular.append hregular
        refine ⟨_, by rw [hlast, hy.moved.trail, List.append_assoc], hy.moved.id, hy.moved.tenantId,
          hall.inside, name, tool, args, result, hts, by rw [← hy.moved.context], Or.inr ?_⟩
        refine ⟨hall, fun hmutating => ?_, ⟨m, ?_⟩, fun hasync hrequires => ?_⟩
        · obtain ⟨m₁, hmem⟩ := hy.looked hmutating
          exact ⟨m₁, List.mem_append_left _ hmem⟩
        · exact List.mem_append_left _ (List.mem_append_right _ (List.mem_singleton_self _))
        · obtain ⟨event, hevent, happroves⟩ := happroved hasync hrequires
          exact ⟨event, List.mem_append_left _ (List.mem_append_left _ hevent), happroves⟩
      refine (wp_getRun_bind _).mpr ?_
      split
      · refine (Act.wp_perform_bind _ _).mpr ?_
        rintro _ rfl
        exact ⟨trivial, fun answer y' hs' => hbook y' _ hs'.2
          (regular_ledger (Or.inr ⟨_, _, _, _, _, _, rfl⟩))⟩
      · exact hbook y [] (List.append_nil _).symm
          (regular_gatings Gatings.nil fun _ hmem => absurd hmem List.not_mem_nil)

theorem finished_gate_act (h : Cleared cfg step m₀ x₀ name tool args calls m x)
    (hts : ToolStep cfg step m₀ name tool args) :
    Act.wp (visitSpec cfg redact G) (do
      WorkflowEngine.gate cfg step tool name args
      WorkflowEngine.act step tool name args (ledgerKey m₀.run.id step.id name))
      (fun _ => Finished cfg step m₀ x₀) (fun _ => Unfinished cfg step m₀ x₀) m x := by
  refine (Act.wp_bind _ _).mpr (Act.wp_mono _ ?_ ?_ (cleared_gate h))
  · rintro _ m' x' ⟨calls', hcleared, happroved⟩
    exact finished_act hcleared hts happroved
  · rintro e m' x' ⟨calls', hcleared⟩
    exact ⟨calls', hcleared.moved, hcleared.attempted hts⟩

end ToolSteps

/-- A try of a tool step. -/
theorem finished_runTool {m₀ m : Mem} {x₀ x : DB × Trail} (h : Unfinished cfg step m₀ x₀ m x) :
    Act.wp (visitSpec cfg redact G) (WorkflowEngine.runTool cfg step)
      (fun _ => Finished cfg step m₀ x₀) (fun _ => Unfinished cfg step m₀ x₀) m x := by
  obtain ⟨calls, hmoved, hattempted⟩ := h
  unfold WorkflowEngine.runTool
  cases hname : step.tool with
  | none => exact ⟨calls, hmoved, hattempted⟩
  | some name =>
      refine (Act.wp_ofExcept_bind _ _).mpr ?_
      cases hget : cfg.tools.get name with
      | error e => exact ⟨calls, hmoved, hattempted⟩
      | ok tool =>
          refine (wp_getRun_bind _).mpr ((Act.wp_ofExcept_bind _ _).mpr ?_)
          cases hargs : resolve step.args m.run.context with
          | error e => exact ⟨calls, hmoved, hattempted⟩
          | ok args =>
              have hts : ToolStep cfg step m₀ name tool args :=
                ⟨hname, hget, by rw [← hmoved.context]; exact hargs⟩
              have hregular := hattempted.regular name tool args hts
              dsimp only
              rw [hmoved.id]
              by_cases hmutating : tool.sideEffect = true
              · unfold WorkflowEngine.cachedEffect
                rw [if_pos hmutating]
                refine (Act.wp_bind _ _).mpr ((wp_getRun_bind _).mpr
                  ((Act.wp_perform_bind _ _).mpr ?_))
                rintro _ rfl
                refine ⟨trivial, fun answer y hs => ?_⟩
                obtain ⟨hanswer, hdb⟩ := hs.1
                have hlooked := hmoved.call hs fun _ _ _ _ _ _ heq => nomatch heq
                have hledger : Regular cfg step m₀ name tool args
                    [⟨⟨m, .getEffect m.run.tenantId (ledgerKey m₀.run.id step.id name)⟩, answer⟩] :=
                  regular_ledger (Or.inl ⟨_, _, rfl⟩)
                have hnow : y.1.getEffect m₀.run.tenantId (ledgerKey m₀.run.id step.id name) =
                    answer := by
                  rw [hdb, hanswer, hmoved.tenantId]
                refine (Act.wp_ofExcept _).mpr ?_
                cases answer with
                | error e =>
                    refine ⟨_, hlooked, (hregular.append hledger).inside, ?_, ?_⟩
                    · intro name' tool' args' hts'
                      obtain ⟨rfl, rfl, rfl⟩ := hts.unique hts'
                      exact hregular.append hledger
                    · intro name' tool' args' hts' _ _ output hget'
                      obtain ⟨rfl, rfl, rfl⟩ := hts.unique hts'
                      rw [hnow] at hget'
                      cases hget'
                | ok cached =>
                    dsimp only
                    by_cases hnone : cached.isNone = true
                    · rw [if_pos hnone]
                      obtain rfl := Json.isNone_iff.mp hnone
                      refine finished_gate_act ⟨hlooked, hregular.append hledger, fun _ => hnow,
                        fun _ => ⟨m, ?_⟩⟩ hts
                      rw [hmoved.tenantId]
                      exact List.mem_append_right _ (List.mem_singleton_self _)
                    · -- a value is replayed only in the first try: later ones know the ledger empty
                      rw [if_neg hnone]
                      have hrecorded : cached ≠ .null := fun hnull => hnone (Json.isNone_iff.mpr hnull)
                      have hcalls : calls = [] := by
                        by_contra hne
                        refine hrecorded (hattempted.empty name tool args hts hmutating hne cached ?_)
                        rw [← hnow, hdb]
                      subst hcalls
                      refine ⟨_, hlooked.trail, hmoved.id, hmoved.tenantId, hledger.inside, name, tool,
                        args, cached, hts, by rw [← hmoved.context], Or.inl ⟨hmutating, hrecorded, m, ?_⟩⟩
                      rw [← hmoved.tenantId]
                      rfl
              · unfold WorkflowEngine.cachedEffect
                rw [if_neg hmutating]
                exact (Act.wp_bind _ _).mpr (finished_gate_act ⟨hmoved, hregular,
                  fun h => absurd h hmutating, fun h => absurd h hmutating⟩ hts)

end Attempt

/-! ### The step loop -/

section Loop

variable {cfg : EngineConfig} {wf : Workflow} {redact : Json → Json} {G : Trail → Prop}

/-- Since `m₀` and `x₀` no step has been entered. -/
def Visiting (m₀ : Mem) (x₀ : DB × Trail) (m : Mem) (x : DB × Trail) : Prop :=
  ∃ calls, x.2 = x₀.2 ++ calls ∧ Inside calls ∧ m.run.id = m₀.run.id ∧
    m.run.tenantId = m₀.run.tenantId

theorem Visiting.refl (m : Mem) (x : DB × Trail) : Visiting m x m x :=
  ⟨[], (List.append_nil _).symm, fun _ h => absurd h List.not_mem_nil, rfl, rfl⟩

theorem Visiting.trans {m₀ m₁ m₂ : Mem} {x₀ x₁ x₂ : DB × Trail} (h : Visiting m₀ x₀ m₁ x₁)
    (h' : Visiting m₁ x₁ m₂ x₂) : Visiting m₀ x₀ m₂ x₂ := by
  obtain ⟨calls, htrail, hinside, hid, htenant⟩ := h
  obtain ⟨calls', htrail', hinside', hid', htenant'⟩ := h'
  refine ⟨calls ++ calls', by rw [htrail', htrail, List.append_assoc], fun event hevent => ?_,
    hid'.trans hid, htenant'.trans htenant⟩
  exact (List.mem_append.mp hevent).elim (hinside event) (hinside' event)

theorem Visiting.memory {m₀ m m' : Mem} {x₀ x : DB × Trail} (h : Visiting m₀ x₀ m x)
    (hid : m'.run.id = m.run.id) (htenant : m'.run.tenantId = m.run.tenantId) :
    Visiting m₀ x₀ m' x :=
  let ⟨calls, htrail, hinside, hid', htenant'⟩ := h
  ⟨calls, htrail, hinside, hid.trans hid', htenant.trans htenant'⟩

theorem Visiting.call {m₀ m : Mem} {x₀ x y : DB × Trail} {op : Op} {answer : op.Res}
    (h : Visiting m₀ x₀ m x) (hs : (visitSpec cfg redact G).step x ⟨m, op⟩ answer y)
    (hop : ∀ step, op ≠ .stepSpan step) : Visiting m₀ x₀ m y := by
  refine h.trans ⟨[⟨⟨m, op⟩, answer⟩], hs.2, fun event hevent => ?_, rfl, rfl⟩
  rw [List.mem_singleton.mp hevent]
  exact hop

theorem Unfinished.visiting {step : Step} {m₀ m : Mem} {x₀ x : DB × Trail}
    (h : Unfinished cfg step m₀ x₀ m x) : Visiting m₀ x₀ m x :=
  let ⟨calls, hmoved, hattempted⟩ := h
  ⟨calls, hmoved.trail, hattempted.inside, hmoved.id, hmoved.tenantId⟩

theorem Finished.visiting {step : Step} {m₀ m : Mem} {x₀ x : DB × Trail}
    (h : Finished cfg step m₀ x₀ m x) : Visiting m₀ x₀ m x :=
  let ⟨calls, htrail, hid, htenant, hinside, _⟩ := h
  ⟨calls, htrail, hinside, hid, htenant⟩

theorem Waiting.visiting {m₀ m : Mem} {x₀ x : DB × Trail} (h : Waiting m₀ x₀ m x) :
    Visiting m₀ x₀ m x := by
  obtain ⟨calls, hmoved, hgating, -⟩ := h
  refine ⟨calls, hmoved.trail, fun event hevent step hop => ?_, hmoved.id, hmoved.tenantId⟩
  have := hgating event hevent
  rw [hop] at this
  exact this

theorem unfinished_refl (step : Step) (m : Mem) (x : DB × Trail) : Unfinished cfg step m x m x :=
  ⟨[], Moved.refl m x, Attempted.nil m x.1⟩

/-- A checkpoint that does not commit the end of a visit, made within one. -/
theorem savedIn_visiting (m₀ : Mem) (x₀ : DB × Trail) {status : RunStatus}
    (hrunning : status ≠ .running) (hsucceeded : status ≠ .succeeded) :
    SavedIn (visitSpec cfg redact G) (Visiting m₀ x₀) status := by
  intro m x h hstatus
  refine Act.wp_mono _ (fun _ _ _ h' => h.trans h'.visiting) (fun _ _ _ h' => h.trans h'.visiting)
    (savedIn_waiting m x hrunning hsucceeded m x ?_ hstatus)
  exact ⟨[], Moved.refl m x, Gatings.nil, fun _ hmem => absurd hmem List.not_mem_nil⟩

theorem visiting_stepInv (m₀ : Mem) (x₀ : DB × Trail) :
    StepInv cfg wf (visitSpec cfg redact G) (Visiting m₀ x₀) := by
  have hplain : ∀ op : Op, op.Plain →
      Act.Keeps (visitSpec cfg redact G) (Visiting m₀ x₀) (perform op) := by
    refine fun op hop => Act.keeps_perform ?_
    rintro m x h _ rfl
    refine ⟨visitCall_of_plain hop, fun answer y hs => h.call hs ?_⟩
    rintro step rfl
    exact hop
  have hmemory : ∀ (m m' : Mem) (x : DB × Trail), SameRun m m' → Visiting m₀ x₀ m x →
      Visiting m₀ x₀ m' x := fun m m' x hsame h => h.memory hsame.id hsame.tenantId
  exact {
    memory := hmemory
    output := fun _ _ _ m x _ h => h.memory rfl rfl
    respond := fun _ _ _ => hplain _ trivial
    execCall := fun agent _ => keeps_execCall (fun m m' x h hcontext => hmemory m m' x ⟨h.toSameIdent, hcontext⟩)
      (fun op _ => hplain op) agent
    await := keeps_awaitApproval (fun m m' x h => hmemory m m' x h.toSameRun)
      (fun op hop => hplain op hop.plain)
      (savedIn_visiting m₀ x₀ nofun nofun)
    tool := fun step _ _ m x h => Act.wp_mono _ (fun _ _ _ h' => h.trans h'.visiting)
      (fun _ _ _ h' => h.trans h'.visiting) (finished_runTool (unfinished_refl step m x))
    failed := savedIn_visiting m₀ x₀ nofun nofun }

/-- Within a visit to `step` that has not done its work yet. -/
def VisitEntered (cfg : EngineConfig) (step : Step) (m : Mem) (x : DB × Trail) : Prop :=
  ∃ m₀ x₀, lastVisit x₀.2 = some ⟨m₀, step, []⟩ ∧ Visiting m₀ x₀ m x ∧
    (step.nodeType = .tool → Unfinished cfg step m₀ x₀ m x)

/-- At the end of a visit, before it is committed. -/
def VisitDone (cfg : EngineConfig) (m : Mem) (x : DB × Trail) : Prop :=
  ∃ visit, lastVisit x.2 = some visit ∧ Concluded cfg visit m.run

theorem visitDone_of_visiting {step : Step} {m₀ m : Mem} {x₀ x : DB × Trail}
    (hentry : lastVisit x₀.2 = some ⟨m₀, step, []⟩) {calls : Trail} (htrail : x.2 = x₀.2 ++ calls)
    (hinside : Inside calls) (h : Concluded cfg ⟨m₀, step, calls⟩ m.run) : VisitDone cfg m x := by
  refine ⟨⟨m₀, step, calls⟩, ?_, h⟩
  rw [htrail, lastVisit_append hinside, hentry]
  rfl

theorem visited_runStep {step : Step} (hstep : wf.HasStep step) {m : Mem} {x : DB × Trail}
    (h : VisitEntered cfg step m x) :
    Act.wp (visitSpec cfg redact G) (WorkflowEngine.runStep cfg step) (fun _ => VisitDone cfg)
      (fun _ => VisitEntered cfg step) m x := by
  obtain ⟨m₀, x₀, hentry, hvisiting, htool⟩ := h
  have hother : step.nodeType ≠ .tool → step.nodeType ≠ .approval →
      Act.wp (visitSpec cfg redact G) (WorkflowEngine.runStep cfg step) (fun _ => VisitDone cfg)
        (fun _ => VisitEntered cfg step) m x := by
    intro hnotTool hnotApproval
    refine Act.wp_mono _ ?_ (fun _ _ _ h' => ⟨m₀, x₀, hentry, h', fun htype => absurd htype hnotTool⟩)
      ((visiting_stepInv m₀ x₀).runStep hstep m x hvisiting)
    rintro - m' x' ⟨calls, htrail, hinside, hid, htenant⟩
    exact visitDone_of_visiting hentry htrail hinside ⟨hid, htenant,
      fun htype => absurd htype hnotTool, fun htype => absurd htype hnotApproval⟩
  cases htype : step.nodeType with
  | tool =>
      unfold WorkflowEngine.runStep
      rw [htype]
      refine Act.wp_mono _ ?_ ?_ (finished_runTool (htool htype))
      · rintro - m' x' ⟨calls, htrail, hid, htenant, hinside, hconcluded⟩
        refine visitDone_of_visiting hentry htrail hinside ⟨hid, htenant, fun _ => hconcluded, ?_⟩
        intro happroval
        rw [htype] at happroval
        cases happroval
      · exact fun _ m' x' h' => ⟨m₀, x₀, hentry, h'.visiting, fun _ => h'⟩
  | approval =>
      unfold WorkflowEngine.runStep
      rw [htype]
      refine (Act.wp_bind _ _).mpr (Act.wp_mono _ ?_ ?_
        (granted_awaitApproval step.approvers "" Table.empty m x))
      · rintro granted m' x' ⟨calls, hmoved, hgating, hquiet, happroved⟩
        have hwaiting : Waiting m x m' x' := ⟨calls, hmoved, hgating, hquiet⟩
        split
        · rename_i hgranted
          obtain ⟨calls₀, htrail, hinside, hid, htenant⟩ := hvisiting
          obtain ⟨calls', htrail', hinside', -, -⟩ := hwaiting.visiting
          obtain rfl : calls' = calls := List.append_cancel_left (htrail'.symm.trans hmoved.trail)
          refine visitDone_of_visiting hentry
            (htrail'.trans (by rw [htrail, List.append_assoc])) ?_ ⟨hmoved.id.trans hid,
              hmoved.tenantId.trans htenant, fun h' => absurd (htype.symm.trans h') nofun, ?_⟩
          · exact fun event hevent => (List.mem_append.mp hevent).elim (hinside event) (hinside' event)
          · intro _ hasync
            obtain ⟨event, hevent, m₁, approvalId, rfl⟩ := happroved hgranted hasync
            refine ⟨_, List.mem_append_right _ hevent, m₁, approvalId, ?_⟩
            rw [hid, htenant]
        · exact ⟨m₀, x₀, hentry, hvisiting.trans hwaiting.visiting,
            fun h' => absurd (htype.symm.trans h') nofun⟩
      · exact fun _ m' x' h' => ⟨m₀, x₀, hentry, hvisiting.trans h'.visiting,
          fun h'' => absurd (htype.symm.trans h'') nofun⟩
  | agent | branch | terminate | other => exact hother (by simp [htype]) (by simp [htype])

/-- Marking the run failed commits no visit. -/
theorem visited_failRun (reason detail : String) (m : Mem) (x : DB × Trail) :
    Act.wp (visitSpec cfg redact G) (WorkflowEngine.failRun reason detail) (fun _ _ _ => True)
      (fun _ _ _ => True) m x := by
  have hsaved : SavedIn (visitSpec cfg redact G) (Visiting m x) .failed :=
    savedIn_visiting m x nofun nofun
  refine (wp_modifyRun_bind _ _).mpr ((wp_emit_bind _ _ _ _ _ _).mpr ?_)
  exact Act.wp_mono _ (fun _ _ _ _ => trivial) (fun _ _ _ _ => trivial)
    (hsaved _ x ((Visiting.refl m x).memory rfl rfl) rfl)

/-- What holds of the trail when a step is entered holds after the end of a visit is committed. -/
def Reopens (cfg : EngineConfig) (G : Trail → Prop) : Prop :=
  ∀ trail visit, ∀ m : Mem, lastVisit trail = some visit → Concluded cfg visit m.run →
    G (trail ++ [⟨⟨m, .checkpoint m.run m.buffer⟩, .ok ()⟩])

theorem visited_advance (hG : Reopens cfg G) (next : Option String) {m : Mem} {x : DB × Trail}
    (h : VisitDone cfg m x) :
    Act.wp (visitSpec cfg redact G) (WorkflowEngine.advance next) (fun _ _ x => G x.2)
      (fun _ _ _ => True) m x := by
  have hcommit : ∀ m', VisitDone cfg m' x → Act.wp (visitSpec cfg redact G) EngineM.checkpoint
      (fun _ _ x => G x.2) (fun _ _ _ => True) m' x := by
    refine fun m' hdone => wp_checkpoint.mpr ?_
    rintro _ rfl
    refine ⟨fun _ => hdone, fun answer y hs => ?_⟩
    cases answer with
    | ok value =>
        obtain ⟨visit, hlast, hconcluded⟩ := hdone
        change G y.2
        rw [hs.2]
        exact hG x.2 visit m' hlast hconcluded
    | error e => trivial
  obtain ⟨visit, hlast, hconcluded⟩ := h
  refine (wp_modifyRun_bind _ _).mpr ?_
  have hsame : ∀ m' : Mem, m'.run.id = m.run.id → m'.run.tenantId = m.run.tenantId →
      m'.run.context = m.run.context → VisitDone cfg m' x := by
    intro m' hid htenant hcontext
    refine ⟨visit, hlast, hid.trans hconcluded.id, htenant.trans hconcluded.tenantId, ?_,
      hconcluded.approval⟩
    rw [hcontext]
    exact hconcluded.tool
  cases next with
  | some name => exact hcommit _ (hsame _ rfl rfl rfl)
  | none =>
      refine (wp_modifyRun_bind _ _).mpr ((wp_modifyRun_bind _ _).mpr ?_)
      refine (wp_getRun_bind _).mpr ((wp_emit_bind _ _ _ _ _ _).mpr ?_)
      exact hcommit _ (hsame _ rfl rfl rfl)

theorem visits_outline (hG : Reopens cfg G) :
    Outline cfg wf (visitSpec cfg redact G) (fun _ _ x => G x.2) (VisitEntered cfg)
      (fun _ _ => VisitDone cfg) (fun step _ => VisitEntered cfg step) (fun _ _ _ => True) where
  unknown := fun _ _ _ _ _ => trivial
  budget := fun _ _ violation m x _ _ _ => visited_failRun "budget exceeded" violation m x
  enter := by
    intro stepId step m x _ hhead _
    refine (wp_modifyRun_bind _ _).mpr ((wp_emit_bind _ _ _ _ _ _).mpr ((Act.wp_perform _).mpr ?_))
    rintro _ rfl
    refine ⟨hhead, fun answer y hs => ⟨_, y, ?_, Visiting.refl _ y, fun _ => unfinished_refl step _ y⟩⟩
    rw [hs.2]
    exact lastVisit_span x.2 _ step
  run := fun step m x hstep _ h => visited_runStep hstep h
  retry := by
    rintro step e attempt m x _ _ ⟨m₀, x₀, hentry, hvisiting, htool⟩
    have hemit : VisitEntered cfg step { m with buffer := m.buffer ++ [⟨m.run.id, m.run.tenantId,
        "step_retry", WorkflowEngine.retryPayload step attempt e, some step.id, "system", 0⟩] } x := by
      refine ⟨m₀, x₀, hentry, hvisiting.memory rfl rfl, fun htype => ?_⟩
      obtain ⟨calls, hmoved, hattempted⟩ := htool htype
      exact ⟨calls, hmoved.memory ⟨⟨rfl, rfl, rfl, rfl, rfl, rfl, List.prefix_append _ _⟩, rfl⟩,
        hattempted⟩
    exact ⟨hemit, hemit⟩
  exhausted := fun _ _ _ h => h
  denied := fun _ e m x _ _ _ => visited_failRun "policy denied" e.str m x
  failed := by
    intro step e m x _ _ _
    have hinv : StepInv cfg wf (visitSpec cfg redact G) (Visiting m x) := visiting_stepInv m x
    refine (Act.wp_bind _ _).mpr (Act.wp_mono _ (fun _ m' x' _ => ?_) (fun _ _ _ _ => trivial)
      (hinv.compensate step m x (Visiting.refl m x)))
    exact visited_failRun "step failed" e.str m' x'
  other := fun _ _ _ _ _ _ _ _ => trivial
  finish := fun _ next m x _ h => visited_advance hG next h

/-- The engine, entered where its first step may be. -/
theorem visited_resume (hG : Reopens cfg G) (m : Mem) {x : DB × Trail} (hstart : G x.2) :
    Act.wp (visitSpec cfg redact G) (WorkflowEngine.resume cfg wf) (fun _ _ _ => True)
      (fun _ _ _ => True) m x := by
  exact (visits_outline hG).drives fun _ => hstart

end Loop

end Bass
