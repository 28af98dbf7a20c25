import Bass.Providers
import Bass.Interaction.Trace
import Mathlib.Data.List.Chain

/-!
# The conversation with the provider

The loop leaves the results of a turn in the scratch and the provider takes them out with the next one, so
that at every request each tool use is answered. The invariant of the scratch says which half of a turn is
in it.
-/

namespace Bass

open Interaction EngineM

namespace AnthropicModel

/-! ### Messages -/

def field (key : String) : Json → Option Json
  | .obj fields => fields.lookup key
  | _ => none

def HasRole (role : String) (m : Json) : Prop := field "role" m = some (.str role)

/-- A block that reports the result of a tool use. -/
structure AnswersTo (refused : ContentBlock → Prop) (b : ContentBlock) (result : Json) : Prop where
  type : field "type" result = some (.str "tool_result")
  id : field "tool_use_id" result = some (.str b.id)
  error : field "is_error" result = some (.bool true) ↔ refused b

/-- One of the messages is the user's and the other the assistant's. -/
def Alternate (m m' : Json) : Prop :=
  HasRole "user" m ∧ HasRole "assistant" m' ∨ HasRole "assistant" m ∧ HasRole "user" m'

/-- The tool uses of a message, if it has any, have their results in the next one, in the same order. -/
def Answered (refused : ContentBlock → Prop) (m : Json) (after : List Json) : Prop :=
  ∃ content, field "content" m = some (.arr (content.map ContentBlock.json)) ∧
    (toolUses content ≠ [] → ∃ next rest results, after = next :: rest ∧ HasRole "user" next ∧
      field "content" next = some (.arr results) ∧
        List.Forall₂ (AnswersTo refused) (toolUses content) results)

/-- What the messages of a request have to be. -/
structure Conversation (refused : ContentBlock → Prop) (messages : List Json) : Prop where
  first : ∃ m rest, messages = m :: rest ∧ HasRole "user" m
  alternates : messages.IsChain Alternate
  answered : ∀ before m after, messages = before ++ m :: after → HasRole "assistant" m →
    Answered refused m after

def assistant (content : List ContentBlock) : Json := message "assistant" (.arr (content.map ContentBlock.json))

/-- Conversations whose last message is the user's, turn by turn. -/
inductive Transcript (refused : ContentBlock → Prop) : List Json → Prop where
  | task (content : Json) : Transcript refused [message "user" content]
  | turn {messages : List Json} {content : List ContentBlock} {results : List Json}
      (earlier : Transcript refused messages)
      (hresults : List.Forall₂ (AnswersTo refused) (toolUses content) results) :
      Transcript refused (messages ++ [assistant content, message "user" (.arr results)])

variable {refused : ContentBlock → Prop} {messages : List Json}

theorem hasRole_message (role : String) (content : Json) : HasRole role (message role content) := rfl

theorem not_assistant_of_user {m : Json} (h : HasRole "user" m) : ¬HasRole "assistant" m := by
  intro hassistant
  unfold HasRole at h hassistant
  rw [h] at hassistant
  simp at hassistant

namespace Transcript

theorem last_user (h : Transcript refused messages) : ∀ m ∈ messages.getLast?, HasRole "user" m := by
  cases h with
  | task content =>
      intro m hm
      obtain rfl : message "user" content = m := by simpa using hm
      exact hasRole_message _ _
  | @turn messages content results earlier hresults =>
      intro m hm
      obtain rfl : message "user" (.arr results) = m := by simpa using hm
      exact hasRole_message _ _

theorem first (h : Transcript refused messages) : ∃ m rest, messages = m :: rest ∧ HasRole "user" m := by
  induction h with
  | task content => exact ⟨_, [], rfl, hasRole_message _ _⟩
  | turn earlier hresults ih =>
      obtain ⟨m, rest, rfl, hm⟩ := ih
      exact ⟨m, _, List.cons_append, hm⟩

theorem alternates (h : Transcript refused messages) : messages.IsChain Alternate := by
  induction h with
  | task content => exact List.isChain_singleton _
  | @turn messages content results earlier hresults ih =>
      apply List.isChain_append.mpr
      refine ⟨ih, ?_, ?_⟩
      · exact List.isChain_pair.mpr (Or.inr ⟨hasRole_message _ _, hasRole_message _ _⟩)
      · intro m hm m' hm'
        obtain rfl : assistant content = m' := by simpa using hm'
        exact Or.inl ⟨earlier.last_user m hm, hasRole_message _ _⟩

theorem answered (h : Transcript refused messages) : ∀ before m after, messages = before ++ m :: after →
    HasRole "assistant" m → Answered refused m after := by
  induction h with
  | task content =>
      intro before m after heq hm
      obtain ⟨rfl, rfl, rfl⟩ : before = [] ∧ m = message "user" content ∧ after = [] := by
        cases before with
        | nil => simpa [eq_comm] using heq
        | cons first before => simp at heq
      exact absurd hm (not_assistant_of_user (hasRole_message _ _))
  | @turn messages content results earlier hresults ih =>
      intro before m after heq hm
      have hlast : ∀ rest, [assistant content, message "user" (.arr results)] = rest ++ m :: after →
          m = assistant content ∧ after = [message "user" (.arr results)] := by
        intro rest hrest
        cases rest with
        | nil =>
            obtain ⟨rfl, hafter⟩ := List.cons.inj hrest
            exact ⟨rfl, hafter.symm⟩
        | cons first rest =>
            obtain ⟨-, htail⟩ := List.cons.inj hrest
            cases rest with
            | nil =>
                obtain ⟨rfl, -⟩ := List.cons.inj htail
                exact absurd hm (not_assistant_of_user (hasRole_message _ _))
            | cons second rest => simp at htail
      have hturn : m = assistant content ∧ after = [message "user" (.arr results)] →
          Answered refused m after := by
        rintro ⟨rfl, rfl⟩
        exact ⟨content, rfl, fun _ => ⟨_, [], results, rfl, hasRole_message _ _, rfl, hresults⟩⟩
      rcases List.append_eq_append_iff.mp heq with ⟨rest, rfl, hrest⟩ | ⟨rest, rfl, hrest⟩
      · exact hturn (hlast rest hrest)
      · cases rest with
        | nil => exact hturn (hlast [] hrest.symm)
        | cons first rest =>
            obtain ⟨rfl, rfl⟩ := List.cons.inj hrest
            obtain ⟨content', hcontent, hnext⟩ := ih before m rest rfl hm
            refine ⟨content', hcontent, fun huses => ?_⟩
            obtain ⟨next, rest', results', rfl, huser, hfield, hanswers⟩ := hnext huses
            exact ⟨next, _, results', List.cons_append, huser, hfield, hanswers⟩

theorem conversation (h : Transcript refused messages) : Conversation refused messages :=
  ⟨h.first, h.alternates, h.answered⟩

end Transcript

/-! ### The scratch between two requests -/

/-- What the loop leaves for a tool use. -/
inductive Outcome (refused : ContentBlock → Prop) (b : ContentBlock) : Json → Prop where
  | denied (reason : String) (h : refused b) :
      Outcome refused b (.obj [("id", .str b.id), ("tool", .str b.name), ("error", .str reason)])
  | executed (result : Json) (h : ¬refused b) :
      Outcome refused b (.obj [("id", .str b.id), ("tool", .str b.name), ("result", result)])

/-- Either nothing has been said, or the last message asks for tools and their results are pending. -/
inductive Ready (refused : ContentBlock → Prop) (scratch : Scratch) : Prop where
  | start (hmessages : scratch.get? "messages" = none) (hpending : scratch.get? "tool_results" = none)
  | turn {messages : List Json} {content : List ContentBlock} {results : List Json}
      (earlier : Transcript refused messages) (huses : toolUses content ≠ [])
      (hmessages : scratch.get? "messages" = some (.arr (messages ++ [assistant content])))
      (hpending : scratch.get? "tool_results" = some (.arr results))
      (houtcomes : List.Forall₂ (Outcome refused) (toolUses content) results)

/-- A response of the provider: tools are asked for in the last message, or the loop ends. -/
inductive Turned (refused : ContentBlock → Prop) (response : Response) (scratch : Scratch) : Prop where
  | calls {messages : List Json} {content : List ContentBlock} (earlier : Transcript refused messages)
      (huses : toolUses content ≠ []) (htype : response.type = some "tool_calls")
      (hcalls : response.calls = some ((toolUses content).map ContentBlock.call))
      (hmessages : scratch.get? "messages" = some (.arr (messages ++ [assistant content])))
  | final (htype : response.type = some "final")

variable {provider : AnthropicModel} {agent : Agent} {task : Args} {scratch : Scratch}

theorem Outcome.answersTo {b : ContentBlock} {result block : Json} (h : Outcome refused b result)
    (hblock : provider.resultBlock result = .ok block) : AnswersTo refused b block := by
  cases h with
  | denied reason hrefused =>
      obtain rfl := Except.ok.inj hblock
      exact ⟨rfl, rfl, iff_of_true rfl hrefused⟩
  | executed result hallowed =>
      have hexecuted : provider.resultBlock
          (.obj [("id", .str b.id), ("tool", .str b.name), ("result", result)]) =
            (provider.dumps result >>= fun text =>
              .ok (.obj [("type", .str "tool_result"), ("tool_use_id", .str b.id), ("content", .str text)])) := rfl
      rw [hexecuted] at hblock
      cases htext : provider.dumps result with
      | error e =>
          rw [htext] at hblock
          cases hblock
      | ok text =>
          rw [htext] at hblock
          obtain rfl := Except.ok.inj hblock
          refine ⟨rfl, rfl, iff_of_false ?_ hallowed⟩
          intro herror
          cases herror

/-- What is done to each item of a list in turn. -/
theorem forall₂_of_mapM {α β ε : Type} {f : α → Except ε β} {l : List α} {l' : List β}
    (h : l.mapM f = .ok l') : List.Forall₂ (fun a b => f a = .ok b) l l' := by
  induction l generalizing l' with
  | nil =>
      obtain rfl := Except.ok.inj h
      exact .nil
  | cons a l ih =>
      rw [List.mapM_cons] at h
      cases ha : f a with
      | error e =>
          rw [ha] at h
          cases h
      | ok b =>
          cases hl : l.mapM f with
          | error e =>
              rw [ha, hl] at h
              cases h
          | ok rest =>
              rw [ha, hl] at h
              obtain rfl := Except.ok.inj h
              exact .cons ha (ih hl)

theorem answersTo_of_outcomes {uses : List ContentBlock} {results blocks : List Json}
    (houtcomes : List.Forall₂ (Outcome refused) uses results)
    (hblocks : List.Forall₂ (fun result block => provider.resultBlock result = .ok block) results blocks) :
    List.Forall₂ (AnswersTo refused) uses blocks := by
  induction houtcomes generalizing blocks with
  | nil =>
      cases hblocks
      exact .nil
  | cons houtcome _ ih =>
      cases hblocks with
      | cons hblock hrest => exact .cons (houtcome.answersTo hblock) (ih hrest)

/-- The pending results complete the turn. -/
theorem transcript_withPending {content : List ContentBlock} {results sent : List Json}
    (earlier : Transcript refused messages) (huses : toolUses content ≠ [])
    (houtcomes : List.Forall₂ (Outcome refused) (toolUses content) results)
    (h : provider.withPending (messages ++ [assistant content]) (.arr results) = .ok sent) :
    Transcript refused sent := by
  have htruthy : (Json.arr results).truthy = true := by
    cases results with
    | nil => exact absurd (List.forall₂_nil_right_iff.mp houtcomes) huses
    | cons result results => rfl
  have hresults : provider.resultBlocks (.arr results) = .arr <$> results.mapM provider.resultBlock := rfl
  unfold withPending at h
  rw [if_pos htruthy, hresults] at h
  cases hblocks : results.mapM provider.resultBlock with
  | error e =>
      rw [hblocks] at h
      cases h
  | ok blocks =>
      rw [hblocks] at h
      obtain rfl := Except.ok.inj h
      rw [List.append_assoc]
      exact .turn earlier (answersTo_of_outcomes houtcomes (forall₂_of_mapM hblocks))

/-- Whatever is sent is a conversation that ends with the user. -/
theorem Ready.request {request : ApiRequest} (h : Ready refused scratch)
    (hrequest : provider.request agent task scratch = .ok request) : Transcript refused request.messages := by
  have hmessages : ∃ earlier, provider.conversation task scratch = .ok earlier ∧
      provider.withPending earlier ((scratch.get? "tool_results").getD .null) = .ok request.messages := by
    unfold AnthropicModel.request at hrequest
    cases hconversation : provider.conversation task scratch with
    | error e =>
        rw [hconversation] at hrequest
        cases hrequest
    | ok earlier =>
        cases hpending : provider.withPending earlier ((scratch.get? "tool_results").getD .null) with
        | error e =>
            simp only [hconversation, bind, Except.bind, hpending] at hrequest
            cases hrequest
        | ok sent =>
            refine ⟨earlier, rfl, ?_⟩
            simp only [hconversation, bind, Except.bind, hpending] at hrequest
            split at hrequest
            · cases hrequest
            · split at hrequest
              · cases hrequest
              · obtain rfl := Except.ok.inj hrequest
                exact hpending
  obtain ⟨earlier, hconversation, hpending⟩ := hmessages
  cases h with
  | start hnone hempty =>
      rw [hempty] at hpending
      obtain rfl : earlier = request.messages := Except.ok.inj hpending
      unfold conversation at hconversation
      rw [hnone] at hconversation
      cases htask : provider.taskBlock task with
      | error e =>
          rw [htask] at hconversation
          cases hconversation
      | ok content =>
          rw [htask] at hconversation
          rw [← Except.ok.inj hconversation]
          exact .task content
  | turn before huses hlast hresults houtcomes =>
      unfold conversation at hconversation
      rw [hlast] at hconversation
      obtain rfl := Except.ok.inj hconversation
      rw [hresults] at hpending
      exact transcript_withPending before huses houtcomes hpending

theorem receive_turned {resp : ApiMessage} {response : Response} {later : Scratch}
    (h : Transcript refused messages) (hstop : resp.stopReason = "tool_use" → toolUses resp.content ≠ [])
    (hreceive : provider.receive agent messages scratch resp = .ok (response, later)) :
    Turned refused response later := by
  unfold receive at hreceive
  by_cases hreason : resp.stopReason = "tool_use"
  · rw [if_pos hreason] at hreceive
    obtain ⟨rfl, rfl⟩ := Prod.mk.inj (Except.ok.inj hreceive)
    exact .calls h (hstop hreason) rfl rfl (Dict.get?_set_self _ _ _)
  · rw [if_neg hreason] at hreceive
    dsimp only at hreceive
    cases houtput : provider.parseOutput agent
        (String.join ((resp.content.filter fun b => b.type = "text").map ContentBlock.text)) with
    | error e =>
        rw [houtput] at hreceive
        cases hreceive
    | ok output =>
        rw [houtput] at hreceive
        obtain ⟨rfl, -⟩ := Prod.mk.inj (Except.ok.inj hreceive)
        exact .final rfl

/-! ### The loop -/

abbrev ApiTrail : Type := List (Prog.Event ApiCall ApiCall.Res)

def ApiCall.isCreate : ApiCall → Bool
  | .create _ => true
  | .other _ => false

/-- The requests made so far. -/
def creates (h : ApiTrail) : Nat := h.countP fun event => event.1.isCreate

/-- A response stops for tool use exactly when it has a tool use, and the policy decides by its rules.
Everything else is answered arbitrarily. -/
def Allowed (policy : PolicyEngine) : (op : ApiCall) → op.Res → Prop
  | .create _, answer => ∀ resp : ApiMessage, answer = .ok resp →
      (resp.stopReason = "tool_use" ↔ toolUses resp.content ≠ [])
  | .other ⟨_, .policyCheck agent tool args context⟩, decision =>
      decision = policy.check agent tool args context
  | .other _, _ => True

/-- What the loop may rely on. -/
def Told (policy : PolicyEngine) (refused : ContentBlock → Prop) : (op : Op) → op.Res → Prop
  | .respond .., answer => ∀ response scratch, answer = .ok (response, scratch) →
      Turned refused response scratch
  | .policyCheck agent tool args context, decision => decision = policy.check agent tool args context
  | _, _ => True

def Op.isRespond : Op → Bool
  | .respond .. => true
  | _ => false

/-- The scratch that the model is called with. -/
def Prepared (refused : ContentBlock → Prop) : Op → Prop
  | .respond _ _ scratch => Ready refused scratch
  | _ => True

/-- The model is called at most `limit` times, with a scratch that is ready. -/
def talkSpec (policy : PolicyEngine) (refused : ContentBlock → Prop) (limit : Nat) :
    Spec Call Call.Res ApiTrail :=
  { step := fun before call answer after => Told policy refused call.op answer ∧
      creates after ≤ creates before + if Op.isRespond call.op then 1 else 0
    rely := Eq
    guar := fun before call => Prepared refused call.op ∧ (Op.isRespond call.op = true → creates before < limit) }

/-- The policy refuses the call that a block asks for. -/
def Refused (cfg : EngineConfig) (agent : Agent) (context : Context) (b : ContentBlock) : Prop :=
  ∃ tool, cfg.tools.get b.name = .ok tool ∧ (cfg.policy.check agent tool b.input context).effect ≠ .allow

variable {cfg : EngineConfig} {context : Context} {limit : Nat}

abbrev loopSpec (cfg : EngineConfig) (agent : Agent) (context : Context) (limit : Nat) :
    Spec Call Call.Res ApiTrail :=
  talkSpec cfg.policy (Refused cfg agent context) limit

/-- Between two calls of the model. -/
def Kept (context : Context) (n : Nat) (m : Mem) (h : ApiTrail) : Prop :=
  m.run.context = context ∧ creates h ≤ n

theorem prepared_of_not_respond {op : Op} (hop : Op.isRespond op = false) : Prepared refused op := by
  cases op <;> trivial

/-- A call that is not one of the model's. -/
theorem wp_other {α : Type} {n : Nat} {m : Mem} {h : ApiTrail} {op : Op} {f : op.Res → EngineM α}
    {Q : α → Mem → ApiTrail → Prop} {E : Exc → Mem → ApiTrail → Prop} (hop : Op.isRespond op = false)
    (hkept : Kept context n m h)
    (hnext : ∀ answer later, Told cfg.policy (Refused cfg agent context) op answer → Kept context n m later →
      Act.wp (loopSpec cfg agent context limit) (f answer) Q E m later) :
    Act.wp (loopSpec cfg agent context limit) (perform op >>= f) Q E m h := by
  apply (Act.wp_perform_bind _ _).mpr
  rintro _ rfl
  refine ⟨⟨prepared_of_not_respond hop, fun hrespond => ?_⟩, fun answer later hs => ?_⟩
  · rw [hop] at hrespond
    cases hrespond
  · obtain ⟨htold, hcount⟩ := hs
    rw [hop] at hcount
    exact hnext answer later htold ⟨hkept.1, le_trans hcount hkept.2⟩

/-- The loop leaves the outcome of every tool use. -/
theorem wp_execCall (b : ContentBlock) {n : Nat} {m : Mem} {h : ApiTrail} (hkept : Kept context n m h) :
    Act.wp (loopSpec cfg agent context limit) (AgentRuntime.execCall cfg agent b.call)
      (fun result m h => Outcome (Refused cfg agent context) b result ∧ Kept context n m h)
      (fun _ _ _ => True) m h := by
  unfold AgentRuntime.execCall
  apply (Act.wp_ofExcept_bind _ _).mpr
  change Act.wp _ _ _ _ _ _
  apply (Act.wp_ofExcept_bind _ _).mpr
  cases htool : cfg.tools.get b.name with
  | error e => trivial
  | ok tool =>
      apply (wp_getRun_bind _).mpr
      refine wp_other ?_ hkept ?_
      · rfl
      intro decision later hdecision hlater
      apply (wp_emit_bind _ _ _ _ _ _).mpr
      have hrefused : Refused cfg agent context b ↔ decision.effect ≠ .allow := by
        have hcheck : decision = cfg.policy.check agent tool b.input context := by
          rw [← hkept.1]
          exact hdecision
        rw [hcheck]
        constructor
        · rintro ⟨tool', htool', heffect⟩
          obtain rfl := Except.ok.inj (htool.symm.trans htool')
          exact heffect
        · intro heffect
          exact ⟨tool, htool, heffect⟩
      by_cases hallow : decision.effect = .allow
      · rw [if_pos hallow]
        have hbuffered : Kept context n
            { m with buffer := m.buffer ++ [⟨m.run.id, m.run.tenantId, "policy_decision",
              AgentRuntime.decisionPayload b.name decision, none, agent.name, 0⟩] } later := hlater
        refine wp_other ?_ hbuffered ?_
        · rfl
        intro answer after _ hafter
        apply (Act.wp_ofExcept_bind _ _).mpr
        cases answer with
        | error e => trivial
        | ok result =>
            apply (wp_modifyRun_bind _ _).mpr
            apply (wp_emit_bind _ _ _ _ _ _).mpr
            exact ⟨.executed result fun hdenied => hrefused.mp hdenied hallow, hafter.1, hafter.2⟩
      · rw [if_neg hallow]
        apply (wp_emit_bind _ _ _ _ _ _).mpr
        exact ⟨.denied _ (hrefused.mpr hallow), hlater.1, hlater.2⟩

theorem wp_execCalls (uses : List ContentBlock) {n : Nat} {m : Mem} {h : ApiTrail}
    (hkept : Kept context n m h) :
    Act.wp (loopSpec cfg agent context limit) (AgentRuntime.execCalls cfg agent (uses.map ContentBlock.call))
      (fun results m h => List.Forall₂ (Outcome (Refused cfg agent context)) uses results ∧
        Kept context n m h) (fun _ _ _ => True) m h := by
  induction uses generalizing m h with
  | nil => exact ⟨.nil, hkept⟩
  | cons b uses ih =>
      apply (Act.wp_bind _ _).mpr
      refine Act.wp_mono _ ?_ (fun _ _ _ _ => trivial) (wp_execCall b hkept)
      rintro result m₁ h₁ ⟨houtcome, hkept₁⟩
      apply (Act.wp_bind _ _).mpr
      refine Act.wp_mono _ ?_ (fun _ _ _ _ => trivial) (ih hkept₁)
      rintro results m₂ h₂ ⟨houtcomes, hkept₂⟩
      exact ⟨.cons houtcome houtcomes, hkept₂⟩

/-- A scratch with the results of its last message is ready. -/
theorem Turned.ready {messages : List Json} {content : List ContentBlock} {results : List Json}
    (earlier : Transcript refused messages) (huses : toolUses content ≠ [])
    (hmessages : scratch.get? "messages" = some (.arr (messages ++ [assistant content])))
    (houtcomes : List.Forall₂ (Outcome refused) (toolUses content) results) :
    Ready refused (Dict.set scratch "tool_results" (.arr results)) := by
  refine .turn earlier huses ?_ (Dict.get?_set_self _ _ _) houtcomes
  rw [Dict.get?_set_of_ne _ _ (by decide)]
  exact hmessages

/-- With `n` iterations left the loop has made at most `limit - n` requests. -/
theorem wp_loop (task : Args) (n : Nat) {m : Mem} {h : ApiTrail}
    (hready : Ready (Refused cfg agent context) scratch) (hcontext : m.run.context = context)
    (hcount : creates h + n ≤ limit) :
    Act.wp (loopSpec cfg agent context limit) (AgentRuntime.loop cfg agent task n scratch)
      (fun _ _ _ => True) (fun _ _ _ => True) m h := by
  induction n generalizing scratch m h with
  | zero => trivial
  | succ n ih =>
      unfold AgentRuntime.loop
      apply (Act.wp_perform_bind _ _).mpr
      rintro _ rfl
      refine ⟨⟨hready, fun _ => by omega⟩, fun answer later hs => ?_⟩
      obtain ⟨htold, hmore⟩ := hs
      change creates later ≤ creates h + 1 at hmore
      apply (Act.wp_ofExcept_bind _ _).mpr
      cases answer with
      | error e => trivial
      | ok out =>
          obtain ⟨response, scratch'⟩ := out
          apply (wp_modifyRun_bind _ _).mpr
          apply (Act.wp_ofExcept_bind _ _).mpr
          cases htold response scratch' rfl with
          | calls earlier huses htype hcalls hmessages =>
              rw [htype]
              apply (wp_emit_bind _ _ _ _ _ _).mpr
              rw [if_pos rfl, hcalls]
              apply (Act.wp_ofExcept_bind _ _).mpr
              apply (Act.wp_bind _ _).mpr
              have hkept : Kept context (creates h + 1) _ later := ⟨hcontext, hmore⟩
              refine Act.wp_mono _ ?_ (fun _ _ _ _ => trivial) (wp_execCalls _ hkept)
              rintro results m₁ h₁ ⟨houtcomes, hkept₁⟩
              apply ih (Turned.ready earlier huses hmessages houtcomes) hkept₁.1
              have hbound := hkept₁.2
              omega
          | final htype =>
              rw [htype]
              apply (wp_emit_bind _ _ _ _ _ _).mpr
              rw [if_neg (by decide)]
              apply (Act.wp_ofExcept_bind _ _).mpr
              cases response.output with
              | none => trivial
              | some output => trivial

/-! ### The provider behind the loop -/

/-- What every request satisfies. -/
def Sound (refused : ContentBlock → Prop) (limit : Nat) (before : ApiTrail) : ApiCall → Prop
  | .create request => Transcript refused request.messages ∧ creates before < limit
  | .other _ => True

theorem creates_snoc (h : ApiTrail) (op : ApiCall) (answer : op.Res) :
    creates (h ++ [⟨op, answer⟩]) = creates h + if op.isCreate then 1 else 0 := by
  rw [creates, List.countP_append, List.countP_singleton]
  rfl

/-- The provider sends one request for a call, and answers as the loop expects. -/
theorem wp_respond {policy : PolicyEngine} {h : ApiTrail} (hready : Ready refused scratch)
    (hcount : creates h < limit) :
    (provider.respond agent task scratch).wp (.history (Allowed policy) (Sound refused limit))
      (fun answer after => (∀ response later, answer = .ok (response, later) → Turned refused response later) ∧
        creates after ≤ creates h + 1) h := by
  unfold respond
  cases hrequest : provider.request agent task scratch with
  | error e =>
      refine ⟨?_, Nat.le_succ _⟩
      intro response later heq
      cases heq
  | ok request =>
      have hsent := hready.request hrequest
      rintro _ rfl
      refine ⟨⟨hsent, hcount⟩, ?_⟩
      rintro answer _ ⟨hallowed, rfl⟩
      refine ⟨?_, (creates_snoc h _ answer).le⟩
      intro response later heq
      cases answer with
      | error e => cases heq
      | ok resp => exact receive_turned hsent (hallowed resp rfl).mp heq

/-- The provider keeps its side of what the loop relies on, and other calls are passed on. -/
theorem wp_implement (provider : AnthropicModel) (policy : PolicyEngine) {call : Call} {h : ApiTrail}
    (hguar : (talkSpec policy refused limit).guar h call) :
    (provider.implement call).wp (.history (Allowed policy) (Sound refused limit))
      (fun answer after => (talkSpec policy refused limit).step h call answer after) h := by
  obtain ⟨m, op⟩ := call
  obtain ⟨hprepared, hcount⟩ := hguar
  cases op with
  | respond agent task scratch => exact wp_respond hprepared (hcount rfl)
  | _ =>
      rintro _ rfl
      refine ⟨trivial, ?_⟩
      rintro answer _ ⟨hallowed, rfl⟩
      exact ⟨hallowed, (creates_snoc h _ answer).le⟩

/-- A count of requests, each of which is made below the limit. -/
theorem creates_le {trace : ApiTrail}
    (h : ∀ before request answer after, trace = before ++ ⟨.create request, answer⟩ :: after →
      creates before < limit) : creates trace ≤ limit := by
  induction trace using List.reverseRecOn with
  | nil => exact Nat.zero_le _
  | append_singleton trace event ih =>
      have hearlier : creates trace ≤ limit := by
        apply ih
        intro before request answer after heq
        apply h before request answer (after ++ [event])
        rw [heq, List.append_assoc, List.cons_append]
      obtain ⟨op, answer⟩ := event
      rw [creates_snoc]
      cases op with
      | create request => exact h trace request answer [] rfl
      | other call => exact hearlier

/-- **The conversation.** Whatever the provider's responses are, as long as one stops for tool use exactly
when it has a tool use, and whatever the tools answer: every request of a run of the agent carries a
conversation in which each tool use has its result, marked as an error exactly when the policy refuses the
call, and there are at most `max_steps` requests. -/
theorem conversation_kept (provider : AnthropicModel) (cfg : EngineConfig) (agent : Agent) (task : Args)
    (m : Mem) {trace : ApiTrail}
    (h : (((AgentRuntime.run cfg agent task).exec m).interp provider.implement).Path (Allowed cfg.policy) trace) :
    (∀ before request answer after, trace = before ++ ⟨.create request, answer⟩ :: after →
      Conversation (Refused cfg agent m.run.context) request.messages) ∧
    (creates trace : Int) ≤ max agent.maxSteps 0 := by
  have hloop : ((AgentRuntime.run cfg agent task).exec m).wp
      (loopSpec cfg agent m.run.context agent.maxSteps.toNat) (fun _ _ => True) [] := by
    have hready : Ready (Refused cfg agent m.run.context) (Table.empty : Scratch) := .start rfl rfl
    have hrun : Act.wp (loopSpec cfg agent m.run.context agent.maxSteps.toNat)
        (AgentRuntime.run cfg agent task) (fun _ _ _ => True) (fun _ _ _ => True) m [] :=
      wp_loop task agent.maxSteps.toNat hready rfl (Nat.zero_add _).le
    exact Prog.wp_mono (fun _ _ _ => trivial) _ hrun
  have hsound : (((AgentRuntime.run cfg agent task).exec m).interp provider.implement).wp
      (.history (Allowed cfg.policy) (Sound (Refused cfg agent m.run.context) agent.maxSteps.toNat))
      (fun _ _ => True) [] :=
    Prog.wp_interp provider.implement (fun _ => rfl)
      (fun call before hguar => wp_implement provider cfg.policy hguar) _ hloop
  have hrequests : ∀ before request answer after, trace = before ++ ⟨.create request, answer⟩ :: after →
      Transcript (Refused cfg agent m.run.context) request.messages ∧ creates before < agent.maxSteps.toNat := by
    rintro before request answer after rfl
    exact h.guaranteed hsound
  constructor
  · intro before request answer after heq
    exact (hrequests before request answer after heq).1.conversation
  · have hcount := creates_le fun before request answer after heq => (hrequests before request answer after heq).2
    omega

/-! ### A clerk who would also pay -/

def lookupTool : Tool := { name := "lookup_vendor", connector := "accounting" }

def invoiceTool : Tool := { name := "pay_invoice", connector := "accounting", sideEffect := true, costUsd := 1 }

def clerkRegistry : ToolRegistry where
  tools := Dict.ofList [("lookup_vendor", lookupTool), ("pay_invoice", invoiceTool)]
  connectors := ["accounting"]
  named := by decide
  connected := by decide

def clerkConfig : EngineConfig :=
  { agents := Table.empty, tools := clerkRegistry, policy := .ofPolicies [], approvalFn := false }

def clerk : Agent :=
  { name := "clerk", role := "Clerk", instructions := "Look the vendors up.",
    tools := ["lookup_vendor", "pay_invoice"] }

/-- The text of a string is the string itself. -/
def asText : Json → String
  | .str text => text
  | _ => ""

def clerkProvider : AnthropicModel where
  tools := clerkRegistry
  model := fun _ => "claude-sonnet-5"
  outputSchema := fun _ => none
  description := fun tool => tool.name
  inputSchema := fun _ => .obj [("type", .str "object")]
  dumps := fun _ => .ok "null"
  dumpsIndented := fun _ => .ok "\x7b\x7d"
  loads := fun _ => .error (.python "JSONDecodeError" "Expecting value: line 1 column 1 (char 0)")
  str := asText

def vendor (name : String) : Args := Dict.ofList [("vendor", .str name)]

def lookupBlock (id name : String) : ContentBlock :=
  { type := "tool_use", id := id, name := "lookup_vendor", input := vendor name }

def payBlock : ContentBlock :=
  { type := "tool_use", id := "toolu_2", name := "pay_invoice", input := vendor "globex" }

/-- Three calls at once, the one in the middle a mutation that no policy permits. -/
def parallelBlocks : List ContentBlock :=
  [{ type := "text", text := "Looking up." }, lookupBlock "toolu_1" "globex", payBlock,
    lookupBlock "toolu_3" "initech"]

def parallelResponse : ApiMessage := ⟨parallelBlocks, "tool_use", 10, 20⟩

def clerkMemory : Mem :=
  ⟨{ tenantId := "acme", workflowId := "w", workflowVersion := 1, triggerEvent := .null, idempotencyKey := "k",
     id := "r" }, []⟩

def taskMessage : Json :=
  message "user" (.arr [.obj [("type", .str "text"), ("text", .str "<task_input>\n\x7b\x7d\n</task_input>")]])

def foundBlock (id : String) : Json :=
  .obj [("type", .str "tool_result"), ("tool_use_id", .str id), ("content", .str "null")]

def refusedBlock : Json :=
  .obj [("type", .str "tool_result"), ("tool_use_id", .str "toolu_2"),
    ("content", .str "no policy permits mutating tool 'pay_invoice' (deny-by-default)"), ("is_error", .bool true)]

/-- The second request of the clerk. -/
def parallelMessages : List Json :=
  [taskMessage, assistant parallelBlocks,
    message "user" (.arr [foundBlock "toolu_1", refusedBlock, foundBlock "toolu_3"])]

theorem clerk_path : ∃ before request answer, request.messages = parallelMessages ∧
    (((AgentRuntime.run clerkConfig clerk Table.empty).exec clerkMemory).interp
      clerkProvider.implement).Path (Allowed clerkConfig.policy) (before ++ [⟨.create request, answer⟩]) := by
  refine ⟨[⟨.create _, .ok parallelResponse⟩,
    ⟨.other ⟨_, .policyCheck clerk lookupTool (vendor "globex") Table.empty⟩,
      clerkConfig.policy.check clerk lookupTool (vendor "globex") Table.empty⟩,
    ⟨.other ⟨_, .execute (.agent "clerk") "lookup_vendor" (vendor "globex")⟩, .ok .null⟩,
    ⟨.other ⟨_, .policyCheck clerk invoiceTool (vendor "globex") Table.empty⟩,
      clerkConfig.policy.check clerk invoiceTool (vendor "globex") Table.empty⟩,
    ⟨.other ⟨_, .policyCheck clerk lookupTool (vendor "initech") Table.empty⟩,
      clerkConfig.policy.check clerk lookupTool (vendor "initech") Table.empty⟩,
    ⟨.other ⟨_, .execute (.agent "clerk") "lookup_vendor" (vendor "initech")⟩, .ok .null⟩], _,
    .error (.paused ""), ?_, .cons ?_ (.cons ?_ (.cons ?_ (.cons ?_ (.cons ?_ (.cons ?_ (.cons ?_ (.nil _)))))))⟩
  · rfl
  · intro resp heq
    obtain rfl := Except.ok.inj heq
    exact iff_of_true rfl (List.cons_ne_nil _ _)
  · rfl
  · trivial
  · rfl
  · rfl
  · trivial
  · intro resp heq
    cases heq

theorem refused_payBlock : Refused clerkConfig clerk Table.empty payBlock := by
  have hdenied : (clerkConfig.policy.check clerk invoiceTool payBlock.input Table.empty).effect = .deny := rfl
  exact ⟨invoiceTool, rfl, by rw [hdenied]; decide⟩

theorem not_refused_lookupBlock (id name : String) :
    ¬Refused clerkConfig clerk Table.empty (lookupBlock id name) := by
  rintro ⟨tool, hget, hrefused⟩
  have htool : Except.ok lookupTool = Except.ok tool := hget
  obtain rfl := Except.ok.inj htool
  exact hrefused rfl

theorem conversation_kept_clerk :
    Conversation (Refused clerkConfig clerk Table.empty) parallelMessages ∧
      Refused clerkConfig clerk Table.empty payBlock ∧
      ¬Refused clerkConfig clerk Table.empty (lookupBlock "toolu_1" "globex") ∧
      ¬Refused clerkConfig clerk Table.empty (lookupBlock "toolu_3" "initech") := by
  obtain ⟨before, request, answer, hmessages, hpath⟩ := clerk_path
  have hkept := conversation_kept clerkProvider clerkConfig clerk Table.empty clerkMemory hpath
  have hconversation := hkept.1 before request answer [] rfl
  rw [hmessages] at hconversation
  exact ⟨hconversation, refused_payBlock, not_refused_lookupBlock _ _, not_refused_lookupBlock _ _⟩

end AnthropicModel

end Bass
