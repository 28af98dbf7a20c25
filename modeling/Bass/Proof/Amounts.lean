import Bass.Proof.Policies
import Bass.Proof.Tokens

/-!
# Which amounts the reference ruleset lets through

The threshold rule asks for approval above $5,000, and the rule behind it allows whatever is left. What is
left is more than the amounts up to $5,000: a missing amount counts as zero, and the comparison with a NaN
is false.
-/

namespace Bass

open PolicyEngine

/-! ### Readings that are not a number -/

theorem PyFloat.exceeds_eq_false_iff {t : ℚ} {x : PyFloat} :
    x.exceeds t = false ↔ x.atMost t = true ∨ x = .nan := by
  cases x <;> simp [exceeds, atMost]

theorem PyFloat.ofMagnitude_ne_nan (negative : Bool) (x : ℚ) : PyFloat.ofMagnitude negative x ≠ .nan := by
  unfold ofMagnitude
  dsimp only
  split_ifs <;> simp

namespace TextRules

/-- The text is `nan`, in any case and after at most one sign. -/
def SpellsNan (text : List Char) : Prop := (signed text).2.map Char.toLower = ['n', 'a', 'n']

/-- The values that `float` reads as NaN. -/
def ReadsNan (rules : TextRules) : Json → Prop
  | .float .nan => True
  | .str text => SpellsNan (rules.trimmed text)
  | _ => False

theorem toLower_of_isDigit {c : Char} (h : c.isDigit = true) : c.toLower = c := by
  obtain ⟨-, hle⟩ := Bool.and_eq_true_iff.mp h
  have hnine : c.val ≤ '9'.val := of_decide_eq_true hle
  refine dif_neg fun hcapital => ?_
  exact absurd (UInt32.le_trans hcapital.1 hnine) (by decide)

theorem mem_signed {text : List Char} {c : Char} (h : c ∈ text) : c = '+' ∨ c = '-' ∨ c ∈ (signed text).2 := by
  unfold signed
  split
  · rcases List.mem_cons.mp h with rfl | hword
    · exact Or.inl rfl
    · exact Or.inr (Or.inr hword)
  · rcases List.mem_cons.mp h with rfl | hword
    · exact Or.inr (Or.inl rfl)
    · exact Or.inr (Or.inr hword)
  · exact Or.inr (Or.inr h)

/-- The letters of `nan` are neither digits nor underscores. -/
theorem SpellsNan.letters {text : List Char} (h : SpellsNan text) {c : Char} (hc : c ∈ text) :
    c.isDigit = false ∧ c ≠ '_' := by
  rcases mem_signed hc with rfl | rfl | hword
  · decide
  · decide
  · have hlower : c.toLower ∈ ['n', 'a', 'n'] := h ▸ List.mem_map_of_mem hword
    constructor
    · cases hdigit : c.isDigit with
      | false => rfl
      | true =>
          rw [toLower_of_isDigit hdigit] at hlower
          have hletters : ∀ c ∈ ['n', 'a', 'n'], c.isDigit = false := by simp [Char.isDigit]
          rw [hletters c hlower] at hdigit
          cases hdigit
    · rintro rfl
      revert hlower
      decide

theorem dropUnderscores_eq_self {prev : Char} {text : List Char} (hprev : prev ≠ '_')
    (h : ∀ c ∈ text, c ≠ '_') : dropUnderscores prev text = some text := by
  induction text generalizing prev with
  | nil => simp [dropUnderscores, hprev]
  | cons c rest ih =>
      obtain ⟨hc, hrest⟩ := List.forall_mem_cons.mp h
      simp [dropUnderscores, hc, hprev, ih hc hrest]

/-- A text that has no digits left has lost no underscores. -/
theorem eq_of_dropUnderscores {prev : Char} {text kept : List Char} (hprev : prev ≠ '_')
    (hdigit : prev.isDigit = false) (h : dropUnderscores prev text = some kept)
    (hkept : ∀ c ∈ kept, c.isDigit = false) : kept = text := by
  induction text generalizing prev kept with
  | nil => simpa [dropUnderscores, hprev, eq_comm] using h
  | cons c rest ih =>
      by_cases hc : c = '_'
      · simp [dropUnderscores, hc, hdigit] at h
      · simp only [dropUnderscores, hc, hprev, if_false, false_and, Option.map_eq_map, Option.map_eq_some_iff] at h
        obtain ⟨kept', hrest, rfl⟩ := h
        obtain ⟨hcdigit, hkept'⟩ := List.forall_mem_cons.mp hkept
        rw [ih hc hcdigit hrest hkept']

theorem magnitude_eq_none {c : Char} {rest : List Char} (hdigit : c.isDigit = false) (hdot : c ≠ '.') :
    magnitude (c :: rest) = none := by
  unfold magnitude
  rw [List.takeWhile_cons_of_neg (by simp [hdigit]), List.dropWhile_cons_of_neg (by simp [hdigit])]
  split
  rename_i fraction rest' hcut
  split at hcut
  · rename_i hdot'
    exact absurd (List.cons.inj hdot').1 hdot
  · obtain ⟨rfl, -⟩ := Prod.mk.inj hcut
    exact if_pos ⟨rfl, rfl⟩

theorem readFloat_eq_nan_iff {text : List Char} : readFloat text = some .nan ↔ SpellsNan text := by
  unfold readFloat SpellsNan
  generalize signed text = parts
  obtain ⟨negative, word⟩ := parts
  dsimp only
  constructor
  · intro h
    split at h
    · exact absurd (Option.some.inj h) (PyFloat.ofMagnitude_ne_nan _ _)
    · split_ifs at h with hinf hnegative hnan
      · cases h
      · cases h
      · simpa using congrArg String.toList hnan
  · intro h
    have hnone : magnitude word = none := by
      cases word with
      | nil => cases h
      | cons c rest =>
          have hc := (List.cons.inj h).1
          have hdigit : c.isDigit = false := by
            by_contra hdigit
            rw [toLower_of_isDigit (by simpa using hdigit)] at hc
            rw [hc] at hdigit
            exact hdigit (by decide)
          refine magnitude_eq_none hdigit ?_
          rintro rfl
          exact absurd hc (by decide)
    rw [hnone, h]
    rfl

theorem toFloat_str_eq_nan_iff {rules : TextRules} {text : String} :
    rules.toFloat (.str text) = .ok .nan ↔ SpellsNan (rules.trimmed text) := by
  have hread : rules.toFloat (.str text) = .ok .nan ↔
      (dropUnderscores ' ' (rules.trimmed text)).bind readFloat = some .nan := by
    rw [toFloat]
    cases (dropUnderscores ' ' (rules.trimmed text)).bind readFloat <;> simp
  rw [hread, Option.bind_eq_some_iff]
  constructor
  · rintro ⟨kept, hkept, hnan⟩
    have hspells := readFloat_eq_nan_iff.mp hnan
    rwa [← eq_of_dropUnderscores (by decide) (by decide) hkept fun c hc => (hspells.letters hc).1]
  · intro hspells
    refine ⟨rules.trimmed text, ?_, readFloat_eq_nan_iff.mpr hspells⟩
    exact dropUnderscores_eq_self (by decide) fun c hc => (hspells.letters hc).2

theorem toFloat_eq_nan_iff {rules : TextRules} {v : Json} : rules.toFloat v = .ok .nan ↔ rules.ReadsNan v := by
  cases v with
  | str text => exact toFloat_str_eq_nan_iff
  | float value => cases value <;> simp [toFloat, ReadsNan]
  | int value =>
      rw [toFloat]
      refine iff_of_false (fun h => ?_) fun h => h
      cases hvalue : Auth.floatOfInt value <;> rw [hvalue] at h <;> cases h
  | null | bool | arr | obj => simp [toFloat, ReadsNan]

theorem toFloat_int (rules : TextRules) {n : Int} (h : n.natAbs ≤ 2 ^ 53) :
    rules.toFloat (.int n) = .ok (.finite n) := by
  rw [toFloat, Auth.floatOfInt_eq h]
  rfl

theorem toFloat_zero (rules : TextRules) : rules.toFloat (.int 0) = .ok (.finite 0) :=
  rules.toFloat_int (by decide)

end TextRules

/-! ### The decision on an entry -/

section Entry

variable {rules : TextRules} {agent : Agent} {tool : Tool} {args : Args} {context : Context}

/-- The reference ruleset as it stands is in the order of its priorities. -/
theorem policies_defaultPolicies (rules : TextRules) :
    (ofPolicies (defaultPolicies rules)).policies = defaultPolicies rules := rfl

/-- What the rules decide on an entry whose amount is read so. -/
def entryVerdict : Except Exc PyFloat → PolicyEffect
  | .ok amount => if amount.exceeds 5000 then .requireApproval else .allow
  | .error _ => .deny

/-- An entry for an agent that may make entries is decided by its amount, zero if there is none. -/
theorem effect_check_entry (hname : tool.name = "create_ap_entry") (hmutating : tool.sideEffect = true)
    (hmem : tool.name ∈ agent.tools) :
    ((ofPolicies (defaultPolicies rules)).check agent tool args context).effect =
      entryVerdict (rules.toFloat ((args.get? "amount").getD (.int 0))) := by
  have hread : readOnlyOk.applies agent tool args context = .ok false := by
    simp [readOnlyOk, hmutating]
  have hlarge : (largeEntryNeedsApproval rules).applies agent tool args context =
      (PyFloat.exceeds 5000 ·) <$> rules.toFloat ((args.get? "amount").getD (.int 0)) :=
    if_pos (beq_iff_eq.mpr hname)
  have hsmall : smallEntryOk.applies agent tool args context = .ok true := by
    simp [smallEntryOk, hname]
  rw [check, if_pos hmem, policies_defaultPolicies]
  cases hfloat : rules.toFloat ((args.get? "amount").getD (.int 0)) with
  | error e => simp [firstMatch, defaultPolicies, entryVerdict, hread, hlarge, hfloat]
  | ok amount =>
      have heffect : (largeEntryNeedsApproval rules).effect = .requireApproval ∧
          smallEntryOk.effect = .allow := ⟨rfl, rfl⟩
      cases hexceeds : amount.exceeds 5000 with
      | true => simp [firstMatch, defaultPolicies, entryVerdict, hread, hlarge, hfloat, hexceeds, heffect]
      | false =>
          simp [firstMatch, defaultPolicies, entryVerdict, hread, hlarge, hsmall, hfloat, hexceeds, heffect]

/-- `args` has an amount that `float` reads as a number up to `limit`. -/
def HasAmount (rules : TextRules) (limit : ℚ) (args : Args) : Prop :=
  ∃ amount value, args.get? "amount" = some amount ∧ rules.toFloat amount = .ok value ∧ value.atMost limit = true

/-- An entry is allowed only with an amount up to $5,000, unless the amount is missing or a NaN. -/
theorem small_entry_iff (rules : TextRules) (agent : Agent) (tool : Tool) (args : Args) (context : Context)
    (hname : tool.name = "create_ap_entry") (hmutating : tool.sideEffect = true) :
    (((ofPolicies (defaultPolicies rules)).check agent tool args context).effect = .allow →
        HasAmount rules 5000 args) ↔
      (tool.name ∈ agent.tools → ∃ amount, args.get? "amount" = some amount ∧ ¬rules.ReadsNan amount) := by
  by_cases hmem : tool.name ∈ agent.tools
  · rw [effect_check_entry hname hmutating hmem]
    cases hamount : args.get? "amount" with
    | none => simp [HasAmount, hamount, rules.toFloat_zero, entryVerdict, PyFloat.exceeds, hmem]
    | some amount =>
        rw [Option.getD_some]
        cases hfloat : rules.toFloat amount with
        | error e =>
            have hread : ¬rules.ReadsNan amount := by
              rw [← TextRules.toFloat_eq_nan_iff, hfloat]
              intro hnan
              cases hnan
            simp [entryVerdict, hread]
        | ok value =>
            have hnan : rules.ReadsNan amount ↔ value = .nan := by
              rw [← TextRules.toFloat_eq_nan_iff, hfloat, Except.ok.injEq]
            have hhas : HasAmount rules 5000 args ↔ value.atMost 5000 = true := by
              simp [HasAmount, hamount, hfloat]
            cases hexceeds : value.exceeds 5000 with
            | true =>
                have hnumber : value ≠ .nan := by
                  rintro rfl
                  cases hexceeds
                simp [entryVerdict, hnan, hexceeds, hnumber]
            | false =>
                have hatMost : value.atMost 5000 = true ↔ value ≠ .nan := by
                  constructor
                  · rintro hle rfl
                    cases hle
                  · exact (PyFloat.exceeds_eq_false_iff.mp hexceeds).resolve_right
                simp [entryVerdict, hnan, hhas, hexceeds, hmem, hatMost]
  · have hdeny : ((ofPolicies (defaultPolicies rules)).check agent tool args context).effect = .deny := by
      rw [check, if_neg hmem]
    simp [hdeny, hmem]

end Entry

def entryArgs (amount : Json) : Args := Dict.ofList [("amount", amount)]

/-- An amount of $100 is not one of the exceptions, so its entry is allowed as the rules mean it. -/
theorem small_entry_hundred :
    ((ofPolicies (defaultPolicies .ascii)).check apClerk createApEntry (entryArgs (.int 100))
        Table.empty).effect = .allow ∧ HasAmount .ascii 5000 (entryArgs (.int 100)) := by
  have hallow : ((ofPolicies (defaultPolicies .ascii)).check apClerk createApEntry (entryArgs (.int 100))
      Table.empty).effect = .allow := by
    have hfloat : TextRules.ascii.toFloat (((entryArgs (.int 100)).get? "amount").getD (.int 0)) =
        .ok (.finite (100 : Int)) := TextRules.toFloat_int .ascii (by decide)
    rw [effect_check_entry rfl rfl (by decide), hfloat]
    have hbelow : ((100 : Int) : ℚ) ≤ 5000 := by norm_num
    simpa [entryVerdict, PyFloat.exceeds] using hbelow
  have hiff := small_entry_iff .ascii apClerk createApEntry (entryArgs (.int 100)) Table.empty rfl rfl
  exact ⟨hallow, hiff.mpr (fun _ => ⟨.int 100, rfl, fun h => h⟩) hallow⟩

/-- An entry without an amount, and entries over NaN dollars, are approved without being asked about. -/
theorem entries_allowed_unread :
    (((ofPolicies (defaultPolicies .ascii)).check apClerk createApEntry Table.empty Table.empty).effect = .allow ∧
      ¬HasAmount .ascii 5000 Table.empty) ∧
    (((ofPolicies (defaultPolicies .ascii)).check apClerk createApEntry (entryArgs (.float .nan))
        Table.empty).effect = .allow ∧ ¬HasAmount .ascii 5000 (entryArgs (.float .nan))) ∧
    ((ofPolicies (defaultPolicies .ascii)).check apClerk createApEntry (entryArgs (.str "NaN"))
        Table.empty).effect = .allow ∧ ¬HasAmount .ascii 5000 (entryArgs (.str "NaN")) := by
  have hnone : ¬HasAmount .ascii 5000 Table.empty := by
    rintro ⟨amount, value, ⟨⟩, -⟩
  have hnan : ∀ amount, TextRules.ascii.ReadsNan amount → ¬HasAmount .ascii 5000 (entryArgs amount) := by
    rintro amount hreads ⟨_, value, hamount, hvalue, hle⟩
    cases hamount
    rw [TextRules.toFloat_eq_nan_iff.mpr hreads] at hvalue
    cases hvalue
    cases hle
  have hallow : ∀ args, TextRules.ascii.toFloat ((args.get? "amount").getD (.int 0)) = .ok .nan →
      ((ofPolicies (defaultPolicies .ascii)).check apClerk createApEntry args Table.empty).effect = .allow := by
    intro args hfloat
    rw [effect_check_entry rfl rfl (by decide), hfloat]
    rfl
  have hmissing : ((ofPolicies (defaultPolicies .ascii)).check apClerk createApEntry Table.empty
      Table.empty).effect = .allow := by
    rw [effect_check_entry rfl rfl (by decide)]
    exact congrArg entryVerdict (TextRules.toFloat_zero .ascii)
  have hspells : TextRules.ascii.ReadsNan (.str "NaN") := by
    change TextRules.SpellsNan (TextRules.ascii.trimmed "NaN")
    unfold TextRules.SpellsNan
    decide
  exact ⟨⟨hmissing, hnone⟩, ⟨hallow _ rfl, hnan _ trivial⟩,
    hallow _ (TextRules.toFloat_eq_nan_iff.mpr hspells), hnan _ hspells⟩

end Bass
