import Bass.Ruleset
import Bass.Data.Sorting

/-!
# What the policy gate allows

The gate fails closed: a mutating tool passes only on the word of the first rule that has anything to say,
in the order of the priorities. Which rule that is depends on where a rule stands in the list only among
rules of one priority.
-/

namespace Bass

namespace Policy

variable (agent : Agent) (tool : Tool) (args : Args) (context : Context)

/-- The rule applies to the call, or fails on it. -/
def speaks (p : Policy) : Bool :=
  match p.applies agent tool args context with
  | .ok false => false
  | _ => true

/-- What the gate decides when this rule is the first one that speaks. -/
def decision (p : Policy) : Decision :=
  match p.applies agent tool args context with
  | .ok _ => ⟨p.effect, s!"policy '{p.name}' v{p.version}: {p.reason}", p.approvers⟩
  | .error _ => ⟨.deny, s!"policy '{p.name}' errored during evaluation", []⟩

variable {agent tool args context} {p : Policy}

theorem speaks_eq_false_iff :
    p.speaks agent tool args context = false ↔ p.applies agent tool args context = .ok false := by
  unfold speaks
  split <;> simp_all

theorem effect_decision_eq_allow_iff (h : p.speaks agent tool args context = true) :
    (p.decision agent tool args context).effect = .allow ↔
      p.effect = .allow ∧ p.applies agent tool args context = .ok true := by
  unfold speaks at h
  unfold decision
  cases happlies : p.applies agent tool args context with
  | error e => simp
  | ok applies =>
      cases applies with
      | false => simp [happlies] at h
      | true => simp

end Policy

namespace PolicyEngine

variable {agent : Agent} {tool : Tool} {args : Args} {context : Context} {policies : List Policy}

theorem firstMatch_eq_head? : firstMatch agent tool args context policies =
    (policies.filter (Policy.speaks agent tool args context)).head?.map
      (Policy.decision agent tool args context) := by
  induction policies with
  | nil => rfl
  | cons p policies ih =>
      cases happlies : p.applies agent tool args context with
      | error e => simp [firstMatch, Policy.speaks, Policy.decision, happlies]
      | ok applies => cases applies <;> simp [firstMatch, Policy.speaks, Policy.decision, happlies, ih]

/-- The rules that speak, in the order in which the gate tries them. -/
def speaking (agent : Agent) (tool : Tool) (args : Args) (context : Context) (policies : List Policy) :
    List Policy :=
  (policies.filter (Policy.speaks agent tool args context)).insertionSort fun p q =>
    p.priority ≤ q.priority

theorem firstMatch_ofPolicies : firstMatch agent tool args context (ofPolicies policies).policies =
    (speaking agent tool args context policies).head?.map (Policy.decision agent tool args context) := by
  rw [firstMatch_eq_head?, ofPolicies, Sorting.filter_insertionSort Policy.priority]
  rfl

theorem check_congr {policies' : List Policy}
    (h : speaking agent tool args context policies = speaking agent tool args context policies') :
    (ofPolicies policies).check agent tool args context =
      (ofPolicies policies').check agent tool args context := by
  rw [check, check, firstMatch_ofPolicies, firstMatch_ofPolicies, h]

variable (agent tool args context) in
/-- Of the rules that speak, `p` is the first by priority, and as listed among equal priorities. -/
def First (policies : List Policy) (p : Policy) : Prop :=
  ∃ before after, policies = before ++ p :: after ∧
    (∀ q ∈ before, q.priority ≤ p.priority → q.applies agent tool args context = .ok false) ∧
    (∀ q ∈ after, q.priority < p.priority → q.applies agent tool args context = .ok false)

theorem first_of_head? {p : Policy} (h : (speaking agent tool args context policies).head? = some p) :
    First agent tool args context policies p ∧ p.speaks agent tool args context = true := by
  obtain ⟨before, after, hfilter, hbefore, hafter⟩ := Sorting.head?_insertionSort Policy.priority h
  obtain ⟨first, rest, rfl, hfirst, hrest⟩ := List.filter_eq_append_iff.mp hfilter
  obtain ⟨idle, later, rfl, hidle, hspeaks, hlater⟩ := List.filter_eq_cons_iff.mp hrest
  refine ⟨⟨first ++ idle, later, by simp, ?_, ?_⟩, hspeaks⟩
  · intro q hq hle
    rw [← Policy.speaks_eq_false_iff]
    by_contra hne
    rcases List.mem_append.mp hq with hq | hq
    · have hmem : q ∈ before := by
        rw [← hfirst]
        exact List.mem_filter.mpr ⟨hq, by simpa using hne⟩
      exact absurd hle (not_le.mpr (hbefore q hmem))
    · exact absurd (hidle q hq) (by simpa using hne)
  · intro q hq hlt
    rw [← Policy.speaks_eq_false_iff]
    by_contra hne
    have hmem : q ∈ after := by
      rw [← hlater]
      exact List.mem_filter.mpr ⟨hq, by simpa using hne⟩
    exact absurd hlt (not_lt.mpr (hafter q hmem))

/-- With distinct priorities the order of the rules does not matter, nor do rules that do not speak. -/
theorem speaking_perm {idle listed : List Policy}
    (hdistinct : policies.Pairwise fun p q => p.priority ≠ q.priority)
    (hidle : ∀ p ∈ idle, p.applies agent tool args context = .ok false)
    (hlisted : listed.Perm (policies ++ idle)) :
    speaking agent tool args context policies = speaking agent tool args context listed := by
  apply Sorting.insertionSort_eq_of_perm Policy.priority
  · have hnone : idle.filter (Policy.speaks agent tool args context) = [] := by
      apply List.filter_eq_nil_iff.mpr
      intro p hp
      simpa using Policy.speaks_eq_false_iff.mpr (hidle p hp)
    have hsame : policies.filter (Policy.speaks agent tool args context) =
        (policies ++ idle).filter (Policy.speaks agent tool args context) := by
      rw [List.filter_append, hnone, List.append_nil]
    rw [hsame]
    exact (hlisted.filter _).symm
  · exact hdistinct.filter _

end PolicyEngine

open PolicyEngine

/-- **The gate fails closed.** A mutating tool is allowed only if it is on the agent's allow-list and the
first rule that speaks is one that applies with the effect ALLOW; and with distinct priorities neither the
order of the rules nor rules that never speak change the decision. -/
theorem check_fails_closed (policies : List Policy) (agent : Agent) (tool : Tool) (args : Args)
    (context : Context) :
    (tool.sideEffect = true → ((ofPolicies policies).check agent tool args context).effect = .allow →
      tool.name ∈ agent.tools ∧
        ∃ p, First agent tool args context policies p ∧
          p.applies agent tool args context = .ok true ∧ p.effect = .allow) ∧
    (policies.Pairwise (fun p q => p.priority ≠ q.priority) → ∀ idle listed : List Policy,
      (∀ p ∈ idle, p.applies agent tool args context = .ok false) → listed.Perm (policies ++ idle) →
        (ofPolicies listed).check agent tool args context =
          (ofPolicies policies).check agent tool args context) := by
  constructor
  · intro hmutating hallow
    have hmem := mem_tools_of_check (by rw [hallow]; simp)
    refine ⟨hmem, ?_⟩
    rw [check, if_pos hmem, firstMatch_ofPolicies] at hallow
    cases hhead : (speaking agent tool args context policies).head? with
    | none => simp [hhead, hmutating] at hallow
    | some p =>
        rw [hhead] at hallow
        obtain ⟨hfirst, hspeaks⟩ := first_of_head? hhead
        obtain ⟨heffect, happlies⟩ := (Policy.effect_decision_eq_allow_iff hspeaks).mp hallow
        exact ⟨p, hfirst, happlies, heffect⟩
  · intro hdistinct idle listed hidle hlisted
    exact (check_congr (speaking_perm hdistinct hidle hlisted)).symm

def apClerk : Agent := { name := "ap", role := "clerk", instructions := "", tools := ["create_ap_entry"] }

def createApEntry : Tool := { name := "create_ap_entry", connector := "erp", sideEffect := true }

/-- A rule that fails where an argument is missing. -/
def knownVendor : Policy where
  name := "known-vendor"
  version := 1
  applies := fun _ _ args _ => match args.get? "vendor" with
    | some _ => .ok false
    | none => .error (.keyError "vendor")
  effect := .deny
  reason := "entries need a vendor"
  priority := 40

/-- Listed neither in the order of the priorities nor in its reverse. -/
def entryRules : List Policy := [smallEntryOk, knownVendor, largeEntryNeedsApproval .ascii]

theorem check_fails_closed_smallEntry :
    ((ofPolicies entryRules).check apClerk createApEntry Table.empty Table.empty).effect = .allow ∧
      createApEntry.name ∈ apClerk.tools ∧
      (∃ p, First apClerk createApEntry Table.empty Table.empty entryRules p ∧
        p.applies apClerk createApEntry Table.empty Table.empty = .ok true ∧ p.effect = .allow) ∧
      (ofPolicies (entryRules ++ [readOnlyOk]).reverse).check apClerk createApEntry Table.empty Table.empty =
        (ofPolicies entryRules).check apClerk createApEntry Table.empty Table.empty := by
  have hallow : ((ofPolicies entryRules).check apClerk createApEntry Table.empty Table.empty).effect = .allow := by
    decide +kernel
  have hgate := check_fails_closed entryRules apClerk createApEntry Table.empty Table.empty
  have hidle : ∀ p ∈ [readOnlyOk], p.applies apClerk createApEntry Table.empty Table.empty = .ok false := by
    simp [readOnlyOk, createApEntry]
  have hdistinct : entryRules.Pairwise fun p q => p.priority ≠ q.priority := by
    simp [entryRules, smallEntryOk, knownVendor, largeEntryNeedsApproval]
  obtain ⟨hmem, hfirst⟩ := hgate.1 rfl hallow
  exact ⟨hallow, hmem, hfirst, hgate.2 hdistinct [readOnlyOk] _ hidle (List.reverse_perm _)⟩

end Bass
