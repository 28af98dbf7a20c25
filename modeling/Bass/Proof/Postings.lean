import Bass.Connectors
import Bass.ExampleRun
import Bass.Proof.Effects
import Bass.Proof.Revisits

/-!
# Entries are posted once

The drivers together with the accounting system that their mutating tool acts on, through its connector.
Others may post at any time, an invocation that a connector gave up on among them; the entries that they may
post are a parameter. The system files one entry under a ledger key, whatever is retried, and every recorded
effect is the entry itself.
-/

namespace Bass

open Interaction EngineM

/-! ### Entries stay -/

namespace AccountingSystem

variable {acct acct₁ acct' : AccountingSystem} {args : Args} {name : String} {entry : Json}
  {kind kind' : DictKey → Json → Prop}

/-- The entries are still there, as they were. -/
def Grows (acct acct' : AccountingSystem) : Prop :=
  ∀ key entry, acct.entries.get? key = some entry → acct'.entries.get? key = some entry

theorem Grows.refl (acct : AccountingSystem) : acct.Grows acct := fun _ _ h => h

theorem Grows.trans (h : acct.Grows acct₁) (h' : acct₁.Grows acct') : acct.Grows acct' :=
  fun key entry hentry => h' key entry (h key entry hentry)

/-- The entries are still there, and the new ones are of the kind. -/
structure GrowsBy (kind : DictKey → Json → Prop) (acct acct' : AccountingSystem) : Prop where
  kept : acct.Grows acct'
  filed : ∀ key entry, acct'.entries.get? key = some entry → acct.entries.get? key = some entry ∨ kind key entry

theorem GrowsBy.refl (kind : DictKey → Json → Prop) (acct : AccountingSystem) : acct.GrowsBy kind acct :=
  ⟨.refl acct, fun _ _ h => Or.inl h⟩

theorem GrowsBy.trans (h : acct.GrowsBy kind acct₁) (h' : acct₁.GrowsBy kind acct') : acct.GrowsBy kind acct' := by
  refine ⟨h.kept.trans h'.kept, fun key entry hentry => ?_⟩
  rcases h'.filed key entry hentry with hold | hkind
  · exact h.filed key entry hold
  · exact Or.inr hkind

theorem GrowsBy.mono (h : acct.GrowsBy kind acct') (hkind : ∀ key entry, kind key entry → kind' key entry) :
    acct.GrowsBy kind' acct' :=
  ⟨h.kept, fun key entry hentry => (h.filed key entry hentry).imp_right (hkind key entry)⟩

/-- A call of the tool may file the entry under the key. -/
def Files (name : String) (args : Args) (key : DictKey) (entry : Json) : Prop :=
  name = "create_ap_entry" ∧ (entryKey args).dictKey = .ok key ∧ entry = newEntry args

/-- The entry that a call with the arguments is answered by. -/
def Filed (args : Args) (entry : Json) (acct : AccountingSystem) : Prop :=
  ∃ key, (entryKey args).dictKey = .ok key ∧ acct.entries.get? key = some entry

theorem growsBy_createApEntry (acct : AccountingSystem) (args : Args) :
    acct.GrowsBy (Files "create_ap_entry" args) (acct.createApEntry args).2 := by
  unfold createApEntry
  split
  · exact .refl _ acct
  · rename_i key hkey
    split
    · exact .refl _ acct
    · rename_i hnone
      constructor
      · intro key' entry hentry
        have hne : key ≠ key' := by
          rintro rfl
          rw [hnone] at hentry
          cases hentry
        exact (Dict.get?_set_of_ne _ _ hne).trans hentry
      · intro key' entry hentry
        by_cases hsame : key = key'
        · subst hsame
          have hnew : some (newEntry args) = some entry := (Dict.get?_set_self _ _ _).symm.trans hentry
          exact Or.inr ⟨rfl, hkey, (Option.some.inj hnew).symm⟩
        · exact Or.inl ((Dict.get?_set_of_ne _ _ hsame).symm.trans hentry)

theorem filed_createApEntry (h : acct.createApEntry args = (.ok entry, acct')) : Filed args entry acct' := by
  unfold createApEntry at h
  split at h
  · cases h
  · rename_i key hkey
    split at h
    · rename_i hfound
      cases h
      exact ⟨key, hkey, hfound⟩
    · cases h
      exact ⟨key, hkey, Dict.get?_set_self _ _ _⟩

theorem growsBy_invoke (acct : AccountingSystem) (name : String) (args : Args) :
    acct.GrowsBy (Files name args) (acct.invoke name args).2 := by
  unfold invoke
  split
  · rename_i hname
    rw [hname]
    exact growsBy_createApEntry acct args
  · split <;> exact .refl _ acct

theorem filed_invoke (h : acct.invoke "create_ap_entry" args = (.ok entry, acct')) : Filed args entry acct' :=
  filed_createApEntry (by rwa [invoke, if_pos rfl] at h)

/-- A call with an idempotency key is filed under the key. -/
theorem dictKey_entryKey {key : String} (hkey : key ≠ "") (hsent : args.get? "_idempotency_key" = some (.str key)) :
    (entryKey args).dictKey = .ok (.text key) := by
  have htruthy : (Json.str key).truthy = true := decide_eq_true hkey
  have hfield : args.field "_idempotency_key" = .str key := by rw [Args.field, hsent, Option.getD_some]
  rw [entryKey, hfield, Json.or, Json.or, if_pos htruthy, if_pos htruthy]
  rfl

theorem entries_of_filed {key : String} (h : Filed args entry acct) (hkey : key ≠ "")
    (hsent : args.get? "_idempotency_key" = some (.str key)) : acct.entries.get? (.text key) = some entry := by
  obtain ⟨filedUnder, hfiled, hentry⟩ := h
  cases hfiled.symm.trans (dictKey_entryKey hkey hsent)
  exact hentry

end AccountingSystem

/-! ### Through the connector -/

namespace Connector

open AccountingSystem

/-- A call of the connector's code for an operation of the accounting system: an invocation that is waited
for to its end acts, and others may have posted before. One that is not may still act, as one of them. -/
def Serves (others : DictKey → Json → Prop) (name : String) (args : Args) (acct : AccountingSystem) :
    (op : Op) → op.Res → AccountingSystem → Prop
  | .invoke, .returned result, acct' =>
      ∃ acct₁, acct.GrowsBy others acct₁ ∧ acct₁.invoke name args = (.ok result, acct')
  | .invoke, .raised e, acct' => ∃ acct₁, acct.GrowsBy others acct₁ ∧ acct₁.invoke name args = (.error e, acct')
  | _, _, acct' => acct.GrowsBy others acct'

/-- `connector.run(tool.fn, args)`, with the breaker as it happens to be. -/
def Runs (c : Connector) (others : DictKey → Json → Prop) (name : String) (args : Args) (acct : AccountingSystem)
    (answer : Except Exc Json) (acct' : AccountingSystem) : Prop :=
  ∃ breaker breaker' trace, Prog.Exec (fun acct (site : Interaction.Site Op CircuitBreaker) answer acct' =>
    Serves others name args acct site.op answer acct') (c.run.exec breaker) acct trace (.pure (answer, breaker'))
    acct'

variable {c : Connector} {others : DictKey → Json → Prop} {name : String} {args : Args}
  {acct acct₀ acct' : AccountingSystem}

/-- What a call of the tool or somebody else may file. -/
abbrev Filing (others : DictKey → Json → Prop) (name : String) (args : Args) (key : DictKey) (entry : Json) : Prop :=
  others key entry ∨ Files name args key entry

theorem growsBy_of_serves {op : Op} {answer : op.Res} (h : Serves others name args acct op answer acct') :
    acct.GrowsBy (Filing others name args) acct' := by
  have hrest : ∀ acct₁, acct.GrowsBy others acct₁ → acct.GrowsBy (Filing others name args) acct₁ :=
    fun acct₁ h' => h'.mono fun _ _ => Or.inl
  cases op with
  | invoke =>
      cases answer with
      | timedOut => exact hrest acct' h
      | returned | raised =>
          obtain ⟨acct₁, hgrows, hinvoke⟩ := h
          have hlast := growsBy_invoke acct₁ name args
          rw [hinvoke] at hlast
          exact (hrest acct₁ hgrows).trans (hlast.mono fun _ _ => Or.inr)
  | now | sleep => exact hrest acct' h

theorem grows_of_serves {op : Op} {answer : op.Res} (h : Serves others name args acct op answer acct') :
    acct.Grows acct' := (growsBy_of_serves h).kept

abbrev serviceSpec (others : DictKey → Json → Prop) (name : String) (args : Args) :
    Spec (Interaction.Site Op CircuitBreaker) (fun site => site.op.Res) AccountingSystem :=
  .sequential (fun acct site answer acct' => Serves others name args acct site.op answer acct') fun _ _ => True

/-- The operation has returned the result, and the entries are as it left them. -/
def Returned (name : String) (args : Args) (result : Json) (acct' : AccountingSystem) : Prop :=
  ∃ acct₁ : AccountingSystem, acct₁.invoke name args = (.ok result, acct')

/-- What a call of the connector, or an attempt of one, may end with: a result of the operation, or an
exception of the connector. -/
def Ended (name : String) (args : Args) (acct₀ : AccountingSystem) (answer : Except Exc Json)
    (acct' : AccountingSystem) : Prop :=
  acct₀.Grows acct' ∧ match answer with
    | .ok result => Returned name args result acct'
    | .error e => e.ofExecute = true

/-- Whatever the connector's code calls, the entries stay. -/
theorem silent_perform (op : Op) {breaker : CircuitBreaker} (h : acct₀.Grows acct) :
    Act.wp (serviceSpec others name args) (Act.perform op : ConnectorM op.Res) (fun _ _ acct' => acct₀.Grows acct')
      (fun e _ acct' => Ended name args acct₀ (.error e) acct') breaker acct := by
  rintro _ rfl
  exact ⟨trivial, fun answer acct' hserves => h.trans (grows_of_serves hserves)⟩

theorem silent_recordFailure (cfg : ReliabilityConfig) {breaker : CircuitBreaker} (h : acct₀.Grows acct) :
    Act.wp (serviceSpec others name args) (CircuitBreaker.recordFailure rig cfg) (fun _ _ acct' => acct₀.Grows acct')
      (fun e _ acct' => Ended name args acct₀ (.error e) acct') breaker acct := by
  refine (Act.wp_bind _ _).mpr (Act.wp_get.mpr ((Act.wp_bind _ _).mpr ((Act.wp_set _).mpr ?_)))
  split
  · exact (Act.wp_bind _ _).mpr (Act.wp_mono _ (fun _ _ _ h' => h') (fun _ _ _ h' => h') (silent_perform .now h))
  · exact h

theorem ofExecute_of_isConnectorError {e : Exc} (h : e.isConnectorError = true) : e.ofExecute = true := by
  cases e with
  | bass cls message =>
      change cls.isConnectorError = true at h
      simp [Exc.ofExecute, h]
  | paused => cases h
  | python => cases h

theorem ofExecute_of_isTransient {e : Exc} (h : e.isTransient = true) : e.ofExecute = true := by
  unfold Exc.isTransient at h
  split at h
  · rfl
  · cases h

/-- An attempt ends as a call may. -/
theorem ended_attempt {breaker : CircuitBreaker} (h : acct₀.Grows acct) :
    Act.wp (serviceSpec others name args) (c.attempt rig) (fun answer _ acct' => Ended name args acct₀ answer acct')
      (fun e _ acct' => Ended name args acct₀ (.error e) acct') breaker acct := by
  have hfailed : ∀ (e : Exc) (breaker : CircuitBreaker) (acct : AccountingSystem), e.ofExecute = true →
      acct₀.Grows acct → Act.wp (serviceSpec others name args) (do
        CircuitBreaker.recordFailure rig c.config
        return (.error e : Except Exc Json)) (fun answer _ acct' => Ended name args acct₀ answer acct')
      (fun e _ acct' => Ended name args acct₀ (.error e) acct') breaker acct := by
    intro e breaker acct he h
    exact (Act.wp_bind _ _).mpr (Act.wp_mono _ (fun _ _ _ h' => ⟨h', he⟩) (fun _ _ _ h' => h')
      (silent_recordFailure c.config h))
  unfold attempt
  refine (Act.wp_perform_bind _ _).mpr ?_
  rintro _ rfl
  refine ⟨trivial, fun outcome acct' hserves => ?_⟩
  have hgrown := h.trans (grows_of_serves hserves)
  cases outcome with
  | returned result =>
      obtain ⟨acct₁, -, hinvoke⟩ := hserves
      exact ⟨hgrown, acct₁, hinvoke⟩
  | timedOut => exact hfailed _ _ _ rfl hgrown
  | raised e =>
      dsimp only
      split
      · exact hfailed _ _ _ rfl hgrown
      · split
        · rename_i htransient
          exact hfailed _ _ _ (ofExecute_of_isTransient htransient) hgrown
        · split
          · rename_i hconnector
            exact ⟨hgrown, ofExecute_of_isConnectorError hconnector⟩
          · exact (Act.wp_bind _ _).mpr (Act.wp_mono _ (fun _ _ _ h' => ⟨h', rfl⟩) (fun _ _ _ h' => h')
              (silent_recordFailure c.config hgrown))

/-- The loop ends as one of its attempts does, or with an error of the backoff. -/
theorem ended_attempts (n number : Nat) (last : Option Exc) {breaker : CircuitBreaker} (h : acct₀.Grows acct)
    (hlast : ∀ e, last = some e → e.ofExecute = true) :
    Act.wp (serviceSpec others name args) (c.attempts rig n number last)
      (fun result _ acct' => Ended name args acct₀ (.ok result) acct')
      (fun e _ acct' => Ended name args acct₀ (.error e) acct') breaker acct := by
  induction n generalizing number last breaker acct with
  | zero =>
      cases last with
      | none => exact ⟨h, rfl⟩
      | some e => exact ⟨h, hlast e rfl⟩
  | succ n ih =>
      refine (Act.wp_bind _ _).mpr (Act.wp_mono _ ?_ (fun _ _ _ h' => h') (ended_attempt h))
      rintro answer breaker' acct' ⟨hgrown, hended⟩
      cases answer with
      | ok result => exact ⟨hgrown, hended⟩
      | error e =>
          have hagain : ∀ e', some e = some e' → e'.ofExecute = true := by
            rintro e' ⟨⟩
            exact hended
          dsimp only
          split
          · cases hdelay : c.backoff number with
            | ok delay =>
                dsimp only
                refine (Act.wp_bind _ _).mpr (Act.wp_mono _ (fun _ _ _ h' => ih _ _ h' hagain)
                  (fun _ _ _ h' => h') ?_)
                exact silent_perform (.sleep _) hgrown
            | error e' =>
                refine ⟨hgrown, ?_⟩
                unfold backoff at hdelay
                split at hdelay
                · cases hdelay
                · cases hdelay
                  rfl
          · exact ih _ _ hgrown hagain

theorem Runs.growsBy {answer : Except Exc Json} (h : c.Runs others name args acct answer acct') :
    acct.GrowsBy (Filing others name args) acct' := by
  obtain ⟨breaker, breaker', trace, hexec⟩ := h
  have hcalls : (c.run.exec breaker).wp (.calls fun _ => True) (fun _ _ => True) () :=
    Prog.wp_of_guar (fun _ _ => trivial) _ ()
  exact hexec.preserves (GrowsBy.refl _) (fun _ _ _ => GrowsBy.trans) (fun _ _ _ _ _ => growsBy_of_serves) hcalls

theorem silent_allow (cfg : ReliabilityConfig) {breaker : CircuitBreaker} (h : acct₀.Grows acct) :
    Act.wp (serviceSpec others name args) (CircuitBreaker.allow rig cfg) (fun _ _ acct' => acct₀.Grows acct')
      (fun e _ acct' => Ended name args acct₀ (.error e) acct') breaker acct := by
  refine (Act.wp_bind _ _).mpr (Act.wp_get.mpr ?_)
  split
  · exact h
  · exact (Act.wp_bind _ _).mpr (Act.wp_mono _ (fun _ _ _ h' => h') (fun _ _ _ h' => h') (silent_perform .now h))

/-- The connector returns what the operation has returned, or raises what the connector may. -/
theorem Runs.ended {answer : Except Exc Json} (h : c.Runs others name args acct answer acct') :
    Ended name args acct answer acct' := by
  obtain ⟨breaker, breaker', trace, hexec⟩ := h
  have hrun : Act.wp (serviceSpec others name args) c.run
      (fun result _ acct' => Ended name args acct (.ok result) acct')
      (fun e _ acct' => Ended name args acct (.error e) acct') breaker acct := by
    refine (Act.wp_bind _ _).mpr (Act.wp_mono _ (fun allowed _ _ h' => ?_) (fun _ _ _ h' => h')
      (silent_allow c.config (.refl acct)))
    split
    · exact ended_attempts _ _ _ h' (by rintro e ⟨⟩)
    · exact ⟨h', rfl⟩
  cases answer <;> exact Act.wp_of_exec hexec hrun

/-- An entry that the connector returns is filed. -/
theorem Runs.filed {result : Json} (h : c.Runs others "create_ap_entry" args acct (.ok result) acct') :
    Filed args result acct' := by
  obtain ⟨-, acct₁, hinvoke⟩ := h.ended
  exact filed_invoke hinvoke

theorem Runs.raised {e : Exc} (h : c.Runs others name args acct (.error e) acct') : e.ofExecute = true := h.ended.2

end Connector

/-! ### The drivers and the accounting system -/

/-- `ToolRegistry.execute`: a registered tool goes through the connector. -/
def ToolRegistry.Executes (tools : ToolRegistry) (c : Connector) (others : DictKey → Json → Prop) (name : String)
    (args : Args) (acct : AccountingSystem) (answer : Except Exc Json) (acct' : AccountingSystem) : Prop :=
  match tools.get name with
  | .ok _ => c.Runs others name args acct answer acct'
  | .error e => answer = .error e ∧ acct' = acct

/-- What the registry raises is what a call of a tool may raise. -/
theorem ToolRegistry.Executes.raised {tools : ToolRegistry} {c : Connector} {others : DictKey → Json → Prop}
    {name : String} {args : Args} {acct acct' : AccountingSystem} {answer : Except Exc Json} {e : Exc}
    (h : tools.Executes c others name args acct answer acct') (he : answer = .error e) : e.ofExecute = true := by
  subst he
  unfold ToolRegistry.Executes at h
  cases hget : tools.get name with
  | ok tool =>
      rw [hget] at h
      exact h.raised
  | error e' =>
      rw [hget] at h
      cases h.1
      unfold ToolRegistry.get at hget
      split at hget <;> cases hget
      rfl

/-- What a call does to the accounting system. -/
def Op.posts (tools : ToolRegistry) (c : Connector) (others : DictKey → Json → Prop) :
    (op : Op) → op.Res → AccountingSystem → AccountingSystem → Prop
  | .execute _ name args, answer, acct, acct' => tools.Executes c others name args acct answer acct'
  | _, _, acct, acct' => acct' = acct

namespace Posting

variable (d : Deployment) (redact : Json → Json) (c : Connector) (others : DictKey → Json → Prop)

def step (x : DB × AccountingSystem) (call : Call) (answer : call.Res) (y : DB × AccountingSystem) : Prop :=
  Call.step d.engine.policy redact x.1 call answer y.1 ∧ call.op.posts d.engine.tools c others answer x.2 y.2

/-- Others post. -/
def env (x y : DB × AccountingSystem) : Prop := y.1 = x.1 ∧ x.2.GrowsBy others y.2

/-- Any number of requests at once, each of them to its end or to a crash. -/
abbrev Run : Pool Request Call Call.Res (DB × AccountingSystem) → List (Pool.Label Request Call Call.Res) →
    Pool Request Call Call.Res (DB × AccountingSystem) → Prop :=
  Pool.Run (step d redact c others) (fun request => request.program d) (env others)

end Posting

/-- Every recorded effect is the entry under its key. -/
def Ledgered (x : DB × AccountingSystem) : Prop :=
  ∀ row ∈ x.1.toolEffects.rows, x.2.entries.get? (.text row.idempotencyKey) = some row.resultJson

/-- The only tool of the registry that changes anything posts entries. -/
theorem name_of_mutates {tools : ToolRegistry} {name : String} (hregistry : defaultRegistry = .ok tools)
    (hmutates : tools.mutates name = true) : name = "create_ap_entry" := by
  by_contra hne
  have htools : tools.tools = Dict.set (Dict.set Table.empty "lookup_vendor" lookupVendorTool) "create_ap_entry"
      createApEntryTool := by
    cases hregistry
    rfl
  have hget : tools.tools.get? name = Dict.get? (Dict.set Table.empty "lookup_vendor" lookupVendorTool) name := by
    rw [htools]
    exact Dict.get?_set_of_ne _ _ (Ne.symm hne)
  unfold ToolRegistry.mutates ToolRegistry.get at hmutates
  by_cases hlookup : name = "lookup_vendor"
  · rw [hget, hlookup, Dict.get?_set_self] at hmutates
    cases hmutates
  · rw [hget, Dict.get?_set_of_ne _ _ (Ne.symm hlookup)] at hmutates
    cases hmutates

theorem mutates_createApEntry {tools : ToolRegistry} (hregistry : defaultRegistry = .ok tools) :
    tools.mutates "create_ap_entry" = true := by
  cases hregistry
  rfl

section Runs

variable {d : Deployment} {redact : Json → Json} {c : Connector} {others : DictKey → Json → Prop}
  {x₀ x y : DB × AccountingSystem} {labels : List (Pool.Label Request Call Call.Res)}

/-- What is known of a run: the entries are kept, every effect in the ledger is one, and so is every value
that a driver has got for a ledger key. -/
structure Posted (tools : ToolRegistry) (x₀ : DB × AccountingSystem)
    (labels : List (Pool.Label Request Call Call.Res)) (x : DB × AccountingSystem) : Prop where
  kept : x₀.2.Grows x.2
  ledger : Ledgered x
  answered : ∀ i, ∀ event ∈ Pool.trace i labels, ∀ key value, Yields tools key value event →
    x.2.entries.get? (.text key) = some value

/-- What is new after a call has been posted by others, or by the call. -/
theorem growsBy_of_posts {tools : ToolRegistry} {op : Op} {answer : op.Res} {acct acct' : AccountingSystem}
    (h : op.posts tools c others answer acct acct') :
    acct.GrowsBy (fun key entry => others key entry ∨ ∃ caller name args, op = .execute caller name args ∧
      AccountingSystem.Files name args key entry) acct' := by
  cases op with
  | execute caller name args =>
      change tools.Executes c others name args acct answer acct' at h
      unfold ToolRegistry.Executes at h
      cases hget : tools.get name with
      | ok tool =>
          rw [hget] at h
          exact h.growsBy.mono fun key entry => Or.imp_right fun hfiles => ⟨caller, name, args, rfl, hfiles⟩
      | error e =>
          rw [hget] at h
          rw [h.2]
          exact .refl _ acct
  | _ =>
      obtain rfl : acct' = acct := h
      exact .refl _ acct'

/-- What a call yields is filed. -/
theorem entry_of_yields {m : Mem} {op : Op} {answer : op.Res} {key : String} {value : Json}
    (hregistry : defaultRegistry = .ok d.engine.tools) (hledger : Ledgered x)
    (hstep : Posting.step d redact c others x ⟨m, op⟩ answer y)
    (hyields : Yields d.engine.tools key value ⟨⟨m, op⟩, answer⟩) :
    y.2.entries.get? (.text key) = some value := by
  rcases hyields with ⟨m', tenantId, heq, hvalue⟩ | ⟨hkey, m', caller, name, sent, heq, hmutates, hsent⟩
  · cases heq
    obtain ⟨⟨hfound, -⟩, hacct⟩ := hstep
    obtain ⟨row, hrow, rfl⟩ := row_of_getEffect hfound.symm hvalue
    have hentry := hledger row (Table.mem_of_find? hrow)
    rw [show row.idempotencyKey = key from Table.key_of_find? hrow] at hentry
    rw [show y.2 = x.2 from hacct]
    exact hentry
  · cases heq
    obtain rfl := name_of_mutates hregistry hmutates
    have hposts : d.engine.tools.Executes c others "create_ap_entry" sent x.2 (.ok value) y.2 := hstep.2
    unfold ToolRegistry.Executes at hposts
    unfold ToolRegistry.mutates at hmutates
    cases hget : d.engine.tools.get "create_ap_entry" with
    | ok tool =>
        rw [hget] at hposts
        exact AccountingSystem.entries_of_filed hposts.filed hkey hsent
    | error e =>
        rw [hget] at hmutates
        cases hmutates

/-- One call of a driver that does what it owes. -/
theorem Posted.call {i : Nat} {m : Mem} {op : Op} {answer : op.Res}
    (hregistry : defaultRegistry = .ok d.engine.tools) (h : Posted d.engine.tools x₀ labels x)
    (hstep : Posting.step d redact c others x ⟨m, op⟩ answer y)
    (howed : EffectedCall d.engine.tools (Pool.trace i labels) ⟨m, op⟩) :
    Posted d.engine.tools x₀ (labels ++ [.call i ⟨m, op⟩ answer]) y := by
  have hgrows : x.2.Grows y.2 := (growsBy_of_posts hstep.2).kept
  refine ⟨h.kept.trans hgrows, fun row hrow => ?_, fun j event hevent key value hyields => ?_⟩
  · rcases effects_of_step hstep.1 with hsame | ⟨tenantId, key, runId, stepId, tool, result, now, rfl, hinsert⟩
    · rw [hsame] at hrow
      exact hgrows _ _ (h.ledger row hrow)
    · rw [hinsert] at hrow
      rcases Table.mem_insert hrow with hold | rfl
      · exact hgrows _ _ (h.ledger row hold)
      · obtain ⟨earlier, event, hbefore, hacts⟩ := howed
        have hmem : event ∈ Pool.trace i labels := by
          rw [hbefore]
          exact List.mem_append_right _ List.mem_cons_self
        exact hgrows _ _ (h.answered i event hmem key result (Or.inr hacts))
  · rw [Pool.trace_append] at hevent
    rcases List.mem_append.mp hevent with hold | hnew
    · exact hgrows _ _ (h.answered j event hold key value hyields)
    · by_cases hij : i = j
      · obtain rfl : event = ⟨⟨m, op⟩, answer⟩ := by simpa [Pool.trace, Pool.Label.event?, hij] using hnew
        exact entry_of_yields hregistry h.ledger hstep hyields
      · simp [Pool.trace, Pool.Label.event?, hij] at hnew

/-- A driver owes what its own calls say. -/
theorem owed_of_run {p : Pool Request Call Call.Res (DB × AccountingSystem)}
    {before after : List (Pool.Label Request Call Call.Res)} {i : Nat} {call : Call} {answer : call.Res}
    (hrun : Posting.Run d redact c others ⟨[], x₀⟩ (before ++ .call i call answer :: after) p) :
    EffectedCall d.engine.tools (Pool.trace i before) call :=
  hrun.owed (Pool.trace_call i before after call answer) fun request => effected_program d request []

theorem posted_of_run {p : Pool Request Call Call.Res (DB × AccountingSystem)}
    (hregistry : defaultRegistry = .ok d.engine.tools) (hledger : Ledgered x₀)
    (hrun : Posting.Run d redact c others ⟨[], x₀⟩ labels p) : Posted d.engine.tools x₀ labels p.shared := by
  induction labels using List.reverseRecOn generalizing p with
  | nil =>
      cases hrun
      exact ⟨.refl _, hledger, fun _ _ hmem => absurd hmem List.not_mem_nil⟩
  | append_singleton labels label ih =>
      obtain ⟨p₁, hbefore, hlast⟩ := hrun.split
      have h := ih hbefore
      cases hlast with
      | cons head tail =>
          cases tail
          cases head with
          | call hthread hstep => exact h.call hregistry hstep (owed_of_run hrun)
          | spawn threads s tag =>
              refine ⟨h.kept, h.ledger, fun i event hmem => h.answered i event ?_⟩
              simpa [Pool.trace, Pool.Label.event?] using hmem
          | crash hthread =>
              refine ⟨h.kept, h.ledger, fun i event hmem => h.answered i event ?_⟩
              simpa [Pool.trace, Pool.Label.event?] using hmem
          | env henv =>
              obtain ⟨hdb, hgrows, -⟩ := henv
              refine ⟨h.kept.trans hgrows, fun row hrow => ?_, fun i event hmem key value hyields => ?_⟩
              · rw [hdb] at hrow
                exact hgrows _ _ (h.ledger row hrow)
              · refine hgrows _ _ (h.answered i event ?_ key value hyields)
                simpa [Pool.trace, Pool.Label.event?] using hmem

/-- Every entry was there before, is one of the others', or was asked for by a call. -/
theorem origin_of_run {q p : Pool Request Call Call.Res (DB × AccountingSystem)}
    (hrun : Posting.Run d redact c others q labels p) {key : DictKey} {entry : Json}
    (hentry : p.shared.2.entries.get? key = some entry) :
    q.shared.2.entries.get? key = some entry ∨ others key entry ∨ ∃ i m caller name args answer,
      .call i ⟨m, .execute caller name args⟩ answer ∈ labels ∧ AccountingSystem.Files name args key entry := by
  induction hrun with
  | nil q => exact Or.inl hentry
  | @cons q q₁ p label labels head tail ih =>
      rcases ih hentry with hbefore | hothers | ⟨i, m, caller, name, args, answer, hmem, hfiles⟩
      · cases head with
        | @call threads s s' i tag call next answer hthread hstep =>
            obtain ⟨m, op⟩ := call
            rcases (growsBy_of_posts hstep.2).filed key entry hbefore with hold | hothers |
              ⟨caller, name, args, rfl, hfiles⟩
            · exact Or.inl hold
            · exact Or.inr (Or.inl hothers)
            · exact Or.inr (Or.inr ⟨i, m, caller, name, args, answer, List.mem_cons_self, hfiles⟩)
        | spawn | crash => exact Or.inl hbefore
        | env henv => exact (henv.2.filed key entry hbefore).imp_right Or.inl
      · exact Or.inr (Or.inl hothers)
      · exact Or.inr (Or.inr ⟨i, m, caller, name, args, answer, List.mem_cons_of_mem _ hmem, hfiles⟩)

/-- No entry is ever replaced, every effect in the ledger is the entry under its key, and a driver commits
the end of a step that posts only with the entry under the key of the step as its output. -/
structure PostedOnce (x₀ : DB × AccountingSystem) (labels : List (Pool.Label Request Call Call.Res))
    (x : DB × AccountingSystem) : Prop where
  kept : x₀.2.Grows x.2
  ledger : Ledgered x
  passed : ∀ before after i m run events, labels = before ++ .call i ⟨m, .checkpoint run events⟩ (.ok ()) :: after →
    run.status = .running ∨ run.status = .succeeded →
    ∃ visit, lastVisit (Pool.trace i before) = some visit ∧ visit.entry.run.id = run.id ∧
      (visit.step.nodeType = .tool → visit.step.tool = some "create_ap_entry" →
        ∃ entry, run.context.get? visit.step.id = some entry ∧
          x.2.entries.get? (.text (ledgerKey run.id visit.step.id "create_ap_entry")) = some entry)

/-- **Exactly-once posting.** With the reference registry, whatever the workflows, policies and agents are,
and however many drivers run, retry and crash, a posting step that is passed has exactly one entry under its
key, the one that the ledger and the context of the run show. -/
theorem entries_posted_once {p : Pool Request Call Call.Res (DB × AccountingSystem)}
    (hregistry : defaultRegistry = .ok d.engine.tools) (hledger : Ledgered x₀)
    (hrun : Posting.Run d redact c others ⟨[], x₀⟩ labels p) : PostedOnce x₀ labels p.shared := by
  have h := posted_of_run hregistry hledger hrun
  refine ⟨h.kept, h.ledger, ?_⟩
  rintro before after i m run events rfl hmoves
  obtain ⟨visit, hvisit, hid, heffected⟩ := owed_of_run hrun hmoves
  refine ⟨visit, hvisit, hid.symm, fun hnode hname => ?_⟩
  obtain ⟨entry, hentry, event, hmem, hyields⟩ := heffected _ hnode hname (mutates_createApEntry hregistry)
  refine ⟨entry, hentry, h.answered i event ?_ _ _ hyields⟩
  rw [Pool.trace_append]
  exact List.mem_append_left _ (mem_of_lastVisit hvisit event hmem)

end Runs

/-! ### A retried posting -/

namespace Connector

/-- Serve a connector whose operation answers at once. -/
def serve (name : String) (args : Args) (acct : AccountingSystem) : (op : Op) → op.Res × AccountingSystem
  | .now => ((0 : ℚ), acct)
  | .sleep _ => ((), acct)
  | .invoke =>
      match acct.invoke name args with
      | (.ok result, acct') => (.returned result, acct')
      | (.error e, acct') => (.raised e, acct')

theorem serves_serve (others : DictKey → Json → Prop) (name : String) (args : Args) (acct : AccountingSystem)
    (op : Op) : Serves others name args acct op (serve name args acct op).1 (serve name args acct op).2 := by
  cases op with
  | now | sleep => exact .refl _ acct
  | invoke =>
      unfold serve
      rcases hinvoke : acct.invoke name args with ⟨result | e, acct'⟩
      · exact ⟨acct, .refl _ acct, hinvoke⟩
      · exact ⟨acct, .refl _ acct, hinvoke⟩

/-- `connector.run` of a connector that nothing has failed on. -/
def answer (c : Connector) (name : String) (args : Args) (acct : AccountingSystem) :
    Except Exc Json × AccountingSystem :=
  let out := (c.run.exec .closed).complete (fun acct site => serve name args acct site.op) acct
  (out.2.1.1, out.2.2)

theorem runs_answer (c : Connector) (others : DictKey → Json → Prop) (name : String) (args : Args)
    (acct : AccountingSystem) :
    c.Runs others name args acct (c.answer name args acct).1 (c.answer name args acct).2 :=
  ⟨_, _, _, Prog.complete_exec (fun acct site => serves_serve others name args acct site.op) _ _⟩

end Connector

namespace Posting

def serve (d : Deployment) (redact : Json → Json) (c : Connector) (world : World) (x : DB × AccountingSystem)
    (call : Call) : call.Res × (DB × AccountingSystem) :=
  match call with
  | ⟨_, .execute _ name args⟩ =>
      match d.engine.tools.get name with
      | .ok _ => let out := c.answer name args x.2; (out.1, x.1, out.2)
      | .error e => (.error e, x)
  | ⟨_, op⟩ => let out := op.serve d.engine.policy redact world x.1; (out.1, out.2, x.2)

theorem step_serve (d : Deployment) (redact : Json → Json) (c : Connector) (others : DictKey → Json → Prop)
    (world : World) (x : DB × AccountingSystem) (call : Call) :
    step d redact c others x call (serve d redact c world x call).1 (serve d redact c world x call).2 := by
  obtain ⟨m, op⟩ := call
  cases op with
  | execute caller name args =>
      have hexecutes : d.engine.tools.Executes c others name args x.2
          (serve d redact c world x ⟨m, .execute caller name args⟩).1
          (serve d redact c world x ⟨m, .execute caller name args⟩).2.2 := by
        unfold serve ToolRegistry.Executes
        dsimp only
        cases d.engine.tools.get name with
        | ok tool => exact c.runs_answer others name args x.2
        | error e => exact ⟨rfl, rfl⟩
      refine ⟨⟨fun e he => hexecutes.raised he, ?_⟩, hexecutes⟩
      unfold serve
      dsimp only
      cases d.engine.tools.get name <;> rfl
  | _ => exact ⟨Op.serve_step d.engine.policy redact world x.1 _, rfl⟩

def play (d : Deployment) (redact : Json → Json) (c : Connector) (world : World)
    (moves : List (Pool.Move Request)) (x : DB × AccountingSystem) :
    List (Pool.Label Request Call Call.Res) × Pool Request Call Call.Res (DB × AccountingSystem) :=
  Pool.play (serve d redact c world) (Request.program d) moves ⟨[], x⟩

end Posting

def referenceTools : ToolRegistry :=
  { tools := Dict.ofList [("lookup_vendor", lookupVendorTool), ("create_ap_entry", createApEntryTool)]
    connectors := ["accounting"]
    named := by decide
    connected := by decide }

theorem defaultRegistry_eq : defaultRegistry = .ok referenceTools := rfl

/-- The reference service, whose model reads the invoice of the trigger. -/
def triageApp : Deployment := referenceApp .ascii ⟨fun _ => "", fun _ => "", fun text => text⟩ referenceTools

def triageWorld : World := { World.constant .null with respond := MockModel.respond }

def accountingConnector : Connector := ⟨"accounting", {}, fun _ => "10.0"⟩

def invoice (amount : ℚ) : Trigger :=
  Dict.ofList [("message_id", .str "<inv-4471@acme>"), ("amount", .float (.finite amount))]

/-- The driver of the fire crashes when it has posted the entry, and another one goes on. -/
def retriedPosting : List (Pool.Label Request Call Call.Res) × Pool Request Call Call.Res (DB × AccountingSystem) :=
  Posting.play triageApp id accountingConnector triageWorld
    (.spawn (.apiFire "acme" "run" "invoice-triage" (invoice 1200)) :: List.replicate 16 (.call 0) ++
      .crash 0 :: .spawn (.runnerResume "acme" "run") :: List.replicate 7 (.call 1))
    (DB.empty, AccountingSystem.empty)

theorem retriedPosting_run (others : DictKey → Json → Prop) : Posting.Run triageApp id accountingConnector others
    ⟨[], (DB.empty, AccountingSystem.empty)⟩ retriedPosting.1 retriedPosting.2 :=
  Pool.play_run (Posting.step_serve triageApp id accountingConnector others triageWorld) _ _

theorem entries_posted_once_retried :
    retriedPosting.1.filterMap executionOf =
        [(.step "validate", "lookup_vendor", none),
          (.step "post", "create_ap_entry", some "run:post:create_ap_entry"),
          (.step "post", "create_ap_entry", some "run:post:create_ap_entry")] ∧
      retriedPosting.2.shared.2.count = 1 ∧
      PostedOnce (DB.empty, AccountingSystem.empty) retriedPosting.1 retriedPosting.2.shared := by
  refine ⟨by decide +kernel, by decide +kernel, entries_posted_once defaultRegistry_eq ?_
    (retriedPosting_run fun _ _ => False)⟩
  rintro row ⟨⟩

end Bass
