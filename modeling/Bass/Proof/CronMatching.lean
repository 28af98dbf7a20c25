import Bass.Cron
import Bass.Data.Text

/-!
# The cron matcher reads its language

What the matcher computes from the text of an expression of the documented language is what the expression
denotes. The separators of the language are neither digits nor white space, so every split of the parser
falls where the text was put together.
-/

namespace Bass

/-! ### Digits and separators -/

theorem digit_bounds {c : Char} (h : c.isDigit = true) : 48 ≤ c.toNat ∧ c.toNat ≤ 57 := by
  simp only [Char.isDigit, Bool.and_eq_true, decide_eq_true_eq] at h
  exact ⟨h.1, h.2⟩

theorem digit_ne {c sep : Char} (h : c.isDigit = true) (hsep : sep.isDigit = false) : c ≠ sep := by
  intro heq
  rw [heq, hsep] at h
  cases h

namespace TextRules

variable (rules : TextRules)

theorem space_eq_false {c : Char} (h : 33 ≤ c.toNat) (h' : c.toNat < 128) : rules.space c = false := by
  rw [rules.space_ascii c h']
  apply decide_eq_false
  omega

theorem space_digit {c : Char} (h : c.isDigit = true) : rules.space c = false := by
  have := digit_bounds h
  exact rules.space_eq_false (by omega) (by omega)

theorem space_blank : rules.space ' ' = true := rules.space_ascii ' ' (by decide)

theorem strip_eq_self {text : List Char} (h : ∀ c ∈ text, rules.space c = false) :
    rules.strip text = text := by
  have hleft : text.dropWhile rules.space = text := by
    apply List.dropWhile_eq_self_iff.mpr
    intro hlength
    simp [h _ (List.getElem_mem hlength)]
  rw [strip, hleft]
  apply List.rdropWhile_eq_self_iff.mpr
  intro hne
  simp [h _ (List.getLast_mem hne)]

/-- A text without the separator ends where the separator follows. -/
theorem cut_append {sep : Char} {text rest : List Char} (h : sep ∉ text) :
    cut sep (text ++ sep :: rest) = (text, rest) := by
  have hall : ∀ c ∈ text, decide (c ≠ sep) = true := by
    intro c hc
    apply decide_eq_true
    intro heq
    exact h (heq ▸ hc)
  rw [cut, List.takeWhile_append_of_pos hall, List.dropWhile_append_of_pos hall]
  simp

/-! ### Numbers -/

theorem mapM_decimal {digits : List Char} (h : ∀ c ∈ digits, c.isDigit = true) :
    digits.mapM rules.decimal = some (digits.map fun c => c.toNat - 48) := by
  induction digits with
  | nil => rfl
  | cons c digits ih =>
      have hc := h c List.mem_cons_self
      have hbounds := digit_bounds hc
      have hdecimal : rules.decimal c = some (c.toNat - 48) := by
        rw [rules.decimal_ascii c (by omega), if_pos hc]
      have hrest := ih fun c hmem => h c (List.mem_cons_of_mem _ hmem)
      simp [List.mapM_cons, hdecimal, hrest]

theorem number_digits {digits : List Char} (hne : digits ≠ []) (h : ∀ c ∈ digits, c.isDigit = true) :
    rules.number digits = some (Nat.ofDigitChars 10 digits 0) := by
  have hsplit : digits.splitOn '_' = [digits] := by
    apply List.splitOn_eq_singleton
    intro hmem
    exact digit_ne (h _ hmem) rfl rfl
  have hempty : [digits].any List.isEmpty = false := by simpa using hne
  rw [number, hsplit, hempty, Nat.ofDigitChars_eq_foldl]
  simp [rules.mapM_decimal h, List.foldl_map]

theorem int_digits {digits : List Char} (hne : digits ≠ []) (h : ∀ c ∈ digits, c.isDigit = true) :
    rules.int digits = .ok (Nat.ofDigitChars 10 digits 0 : Nat) := by
  have hstrip : rules.strip digits = digits := rules.strip_eq_self fun c hc => rules.space_digit (h c hc)
  have hsign : ∀ sep : Char, sep.isDigit = false → ∀ rest, digits ≠ sep :: rest := by
    rintro sep hsep rest rfl
    exact digit_ne (h sep List.mem_cons_self) hsep rfl
  have hnumber := rules.number_digits hne h
  unfold int
  rw [hstrip]
  split
  · exact absurd rfl (hsign '+' rfl _)
  · exact absurd rfl (hsign '-' rfl _)
  · simp [hnumber]

theorem int_decimal (n : Cron.Decimal) : rules.int n.digits = .ok (n.value : Int) :=
  rules.int_digits n.nonempty n.decimal

/-! ### Ranges -/

theorem mem_range {first last stride v : Nat} (h : 0 < stride) :
    (v : Int) ∈ range first ((last : Int) + 1) stride ↔ first ≤ v ∧ v ≤ last ∧ stride ∣ v - first := by
  have hstride : (0 : Int) < stride := by exact_mod_cast h
  have hlength : ∀ i : Nat, i < (((last : Int) + 1 - first + stride - 1) / stride).toNat ↔
      first + i * stride ≤ last := by
    intro i
    have hdiv : ((i : Int) + 1) ≤ ((last : Int) + 1 - first + stride - 1) / stride ↔
        ((i : Int) + 1) * stride ≤ (last : Int) + 1 - first + stride - 1 := Int.le_ediv_iff_mul_le hstride
    have hmul : ((i : Int) + 1) * stride = ((i * stride : Nat) : Int) + stride := by
      push_cast
      ring
    rw [hmul] at hdiv
    omega
  rw [range, if_pos hstride]
  simp only [List.mem_map, List.mem_range, hlength]
  constructor
  · rintro ⟨i, hi, hv⟩
    have hv : first + i * stride = v := by exact_mod_cast hv
    refine ⟨by omega, by omega, ?_⟩
    rw [← hv, Nat.add_sub_cancel_left]
    exact Nat.dvd_mul_left stride i
  · rintro ⟨hfirst, hlast, i, hi⟩
    have hv : first + i * stride = v := by
      rw [Nat.mul_comm]
      omega
    refine ⟨i, by omega, ?_⟩
    exact_mod_cast hv

/-! ### One field -/

open Cron

theorem notMem_digits {n : Decimal} {sep : Char} (hsep : sep.isDigit = false) : sep ∉ n.digits := by
  intro hmem
  exact digit_ne (n.decimal _ hmem) hsep rfl

theorem mem_base_text {base : Base} {c : Char} (h : c ∈ base.text) :
    c.isDigit = true ∨ c = '*' ∨ c = '-' := by
  cases base with
  | star => exact Or.inr (Or.inl (List.mem_singleton.mp h))
  | literal a => exact Or.inl (a.decimal c h)
  | span a b =>
      rcases List.mem_append.mp h with h | h
      · exact Or.inl (a.decimal c h)
      · rcases List.mem_cons.mp h with h | h
        · exact Or.inr (Or.inr h)
        · exact Or.inl (b.decimal c h)

theorem mem_part_text {part : Part} {c : Char} (h : c ∈ part.text) :
    c.isDigit = true ∨ c = '*' ∨ c = '-' ∨ c = '/' := by
  unfold Part.text at h
  split at h
  · have := mem_base_text h
    tauto
  · rename_i n _
    rcases List.mem_append.mp h with h | h
    · have := mem_base_text h
      tauto
    · rcases List.mem_cons.mp h with h | h
      · tauto
      · exact Or.inl (n.decimal c h)

theorem slash_notMem {base : Base} : '/' ∉ base.text := by
  intro hmem
  rcases mem_base_text hmem with h | h | h <;> exact absurd h (by decide)

theorem comma_notMem {part : Part} : ',' ∉ part.text := by
  intro hmem
  rcases mem_part_text hmem with h | h | h | h <;> exact absurd h (by decide)

/-- What the parser takes a part for: the text of its base, and its step. -/
def splitStep (part : List Char) : Except Exc (List Char × Int) :=
  if '/' ∈ part then (rules.int (cut '/' part).2).map fun step => ((cut '/' part).1, step)
  else .ok (part, 1)

/-- What the parser takes the text of a base for: the first value and the last one. -/
def bounds (rng : List Char) (lo hi : Int) : Except Exc (Int × Int) :=
  if rng = ['*'] then .ok (lo, hi)
  else if '-' ∈ rng then do
    let a ← rules.int (cut '-' rng).1
    (rules.int (cut '-' rng).2).map fun b => (a, b)
  else (rules.int rng).map fun value => (value, value)

/-- The values between two bounds that lie in the field's range. -/
def members (lo hi : Int) (ends : Int × Int) (step : Int) : Except Exc (List Int) :=
  if step = 0 then .error (valueError "range() arg 3 must not be zero")
  else .ok ((range ends.1 (ends.2 + 1) step).filter fun v => lo ≤ v ∧ v ≤ hi)

theorem parsePart_eq (part : List Char) (lo hi : Int) : rules.parsePart part lo hi =
    (rules.splitStep part).bind fun base =>
      (rules.bounds base.1 lo hi).bind fun ends => members lo hi ends base.2 := by
  have hbounds : ∀ rng step, ((rules.bounds rng lo hi).bind fun ends => members lo hi ends step) =
      if rng = ['*'] then members lo hi (lo, hi) step
      else if '-' ∈ rng then
        (rules.int (cut '-' rng).1).bind fun a =>
          (rules.int (cut '-' rng).2).bind fun b => members lo hi (a, b) step
      else (rules.int rng).bind fun value => members lo hi (value, value) step := by
    intro rng step
    unfold bounds
    split
    · rfl
    · split
      · cases rules.int (cut '-' rng).1 with
        | error e => rfl
        | ok a => cases rules.int (cut '-' rng).2 <;> rfl
      · cases rules.int rng <;> rfl
  simp only [hbounds]
  unfold parsePart splitStep
  by_cases hslash : '/' ∈ part
  · rw [if_pos hslash, if_pos hslash]
    cases rules.int (cut '/' part).2 <;> rfl
  · rw [if_neg hslash, if_neg hslash]
    rfl

theorem splitStep_text (part : Part) :
    rules.splitStep part.text = .ok (part.base.text, (part.stride : Int)) := by
  unfold splitStep Part.text Part.stride
  cases part.step with
  | none => exact if_neg slash_notMem
  | some n =>
      rw [if_pos (List.mem_append_right _ List.mem_cons_self), cut_append slash_notMem, rules.int_decimal]
      rfl

theorem bounds_text (base : Base) (lo hi : Nat) :
    rules.bounds base.text lo hi = .ok ((base.first lo : Int), (base.last hi : Int)) := by
  unfold bounds
  cases base with
  | star => rfl
  | literal a =>
      have hdash : '-' ∉ (Base.literal a).text := notMem_digits (by decide)
      have hstar : (Base.literal a).text ≠ ['*'] := by
        intro heq
        have hmem : '*' ∈ (Base.literal a).text := by simp [heq]
        exact notMem_digits (by decide) hmem
      rw [if_neg hstar, if_neg hdash, Base.text, rules.int_decimal]
      rfl
  | span a b =>
      have hdash : '-' ∈ (Base.span a b).text := List.mem_append_right _ List.mem_cons_self
      have hstar : (Base.span a b).text ≠ ['*'] := by
        intro heq
        rw [heq] at hdash
        exact absurd hdash (by decide)
      have hcut : cut '-' (Base.span a b).text = (a.digits, b.digits) :=
        cut_append (notMem_digits (by decide))
      rw [if_neg hstar, if_pos hdash, hcut]
      simp only [rules.int_decimal]
      rfl

theorem parsePart_text (part : Part) (lo hi : Nat) :
    ∃ values, rules.parsePart part.text lo hi = .ok values ∧
      ∀ v : Nat, (v : Int) ∈ values ↔ lo ≤ v ∧ v ≤ hi ∧ part.Denotes lo hi v := by
  have hpos : (part.stride : Int) ≠ 0 := by exact_mod_cast part.stride_pos.ne'
  rw [parsePart_eq, splitStep_text, Except.bind, bounds_text, Except.bind, members, if_neg hpos]
  refine ⟨_, rfl, ?_⟩
  intro v
  rw [List.mem_filter, mem_range part.stride_pos, decide_eq_true_eq, Nat.cast_le, Nat.cast_le, and_comm,
    and_assoc]
  rfl

theorem parseParts_text (parts : List Part) (lo hi : Nat) :
    ∃ values, rules.parseParts lo hi (parts.map Part.text) = .ok values ∧
      ∀ v : Nat, (v : Int) ∈ values ↔ lo ≤ v ∧ v ≤ hi ∧ ∃ part ∈ parts, part.Denotes lo hi v := by
  induction parts with
  | nil => exact ⟨[], rfl, by simp⟩
  | cons part parts ih =>
      obtain ⟨values, hvalues, hmem⟩ := rules.parsePart_text part lo hi
      obtain ⟨others, hothers, hmem'⟩ := ih
      refine ⟨values ++ others, ?_, ?_⟩
      · rw [List.map_cons, parseParts, hvalues, hothers]
        rfl
      · intro v
        simp only [List.mem_append, hmem, hmem', List.mem_cons, exists_eq_or_imp]
        tauto

theorem parseField_text (field : Field) (lo hi : Nat) :
    ∃ values, rules.parseField field.text lo hi = .ok values ∧
      ∀ v : Nat, (v : Int) ∈ values ↔ field.Denotes lo hi v := by
  have hsplit : field.text.splitOn ',' = field.parts.map Part.text := by
    apply List.splitOn_intercalate
    · simp [comma_notMem]
    · simpa using field.nonempty
  rw [parseField, hsplit]
  exact rules.parseParts_text _ lo hi

/-! ### The expression -/

theorem space_field {field : Field} {c : Char} (h : c ∈ field.text) : rules.space c = false := by
  rcases Text.mem_intercalate h with rfl | ⟨text, htext, hc⟩
  · exact rules.space_eq_false (by decide) (by decide)
  · obtain ⟨part, -, rfl⟩ := List.mem_map.mp htext
    rcases mem_part_text hc with h | rfl | rfl | rfl
    · exact rules.space_digit h
    all_goals exact rules.space_eq_false (by decide) (by decide)

theorem base_text_ne_nil (base : Base) : base.text ≠ [] := by
  cases base with
  | star => exact List.cons_ne_nil _ _
  | literal a => exact a.nonempty
  | span a b => simp [Base.text]

theorem part_text_ne_nil (part : Part) : part.text ≠ [] := by
  unfold Part.text
  split
  · exact base_text_ne_nil _
  · simp

theorem field_text_ne_nil (field : Field) : field.text ≠ [] := by
  unfold Field.text
  cases hparts : field.parts with
  | nil => exact absurd hparts field.nonempty
  | cons part parts =>
      have hne := part_text_ne_nil part
      cases parts with
      | nil => simpa [List.intercalate_singleton] using hne
      | cons next parts => simp [List.intercalate_cons_cons]

theorem split_text (e : Expression) : rules.split e.text.toList = e.fields := by
  have hfields : ∀ text ∈ e.fields, ∃ field : Field, text = field.text := by
    intro text htext
    simp only [Expression.fields, List.mem_cons, List.not_mem_nil, or_false] at htext
    rcases htext with h | h | h | h | h <;> exact ⟨_, h⟩
  have hsplit : ([' '].intercalate e.fields).splitOnP rules.space = e.fields := by
    apply Text.splitOnP_intercalate rules.space_blank (List.cons_ne_nil _ _)
    intro text htext c hc
    obtain ⟨field, rfl⟩ := hfields text htext
    exact rules.space_field hc
  rw [split, Expression.text, String.toList_ofList, hsplit, List.filter_eq_self]
  intro text htext
  obtain ⟨field, rfl⟩ := hfields text htext
  simpa using field_text_ne_nil field

theorem strip_field (field : Field) : rules.strip field.text = field.text :=
  rules.strip_eq_self fun _ hc => rules.space_field hc

/-- How the matcher combines its two day fields. -/
def dayMatches (dom dow : List Char) (dt : DateTime) (days weekdays : List Int) : Bool :=
  decide <|
    if rules.strip dom ≠ ['*'] ∧ rules.strip dow ≠ ['*'] then
      (dt.day : Int) ∈ days ∨ (Expression.weekday dt : Int) ∈ weekdays
    else
      (rules.strip dom ≠ ['*'] → (dt.day : Int) ∈ days) ∧
        (rules.strip dow ≠ ['*'] → (Expression.weekday dt : Int) ∈ weekdays)

/-- The matcher on five fields: each is parsed only once the ones before it match. -/
theorem cronMatches_fields {expr : String} (dt : DateTime) {minute hour dom month dow : List Char}
    (h : rules.split expr.toList = [minute, hour, dom, month, dow]) : rules.cronMatches expr dt =
      (rules.parseField minute 0 59).bind fun minutes =>
        if (dt.minute : Int) ∈ minutes then
          (rules.parseField hour 0 23).bind fun hours =>
            if (dt.hour : Int) ∈ hours then
              (rules.parseField month 1 12).bind fun months =>
                if (dt.month : Int) ∈ months then
                  (rules.parseField dom 1 31).bind fun days =>
                    (rules.parseField dow 0 6).bind fun weekdays =>
                      .ok (rules.dayMatches dom dow dt days weekdays)
                else .ok false
            else .ok false
        else .ok false := by
  have hweekday : ((dt.weekday : Int) + 1) % 7 = Expression.weekday dt := by
    unfold Expression.weekday
    omega
  unfold cronMatches
  rw [h]
  simp only [bind, pure, Except.bind, Except.pure, ite_not, hweekday]
  cases rules.parseField minute 0 59 with
  | error e => rfl
  | ok minutes =>
      by_cases hminute : (dt.minute : Int) ∈ minutes
      · simp only [if_pos hminute]
        cases rules.parseField hour 0 23 with
        | error e => rfl
        | ok hours =>
            by_cases hhour : (dt.hour : Int) ∈ hours
            · simp only [if_pos hhour]
              cases rules.parseField month 1 12 with
              | error e => rfl
              | ok months =>
                  by_cases hmonth : (dt.month : Int) ∈ months
                  · simp only [if_pos hmonth]
                    cases rules.parseField dom 1 31 with
                    | error e => rfl
                    | ok days =>
                        cases rules.parseField dow 0 6 with
                        | error e => rfl
                        | ok weekdays =>
                            by_cases hdom : rules.strip dom = ['*'] <;>
                              by_cases hdow : rules.strip dow = ['*'] <;> simp [dayMatches, hdom, hdow]
                  · simp only [if_neg hmonth]
            · simp only [if_neg hhour]
      · simp only [if_neg hminute]

theorem cronMatches_of_split {expr : String} {e : Expression} (h : rules.split expr.toList = e.fields)
    (dt : DateTime) : rules.cronMatches expr dt = .ok (decide (e.Matches dt)) := by
  obtain ⟨minutes, hminutes, hminute⟩ := rules.parseField_text e.minute 0 59
  obtain ⟨hours, hhours, hhour⟩ := rules.parseField_text e.hour 0 23
  obtain ⟨months, hmonths, hmonth⟩ := rules.parseField_text e.month 1 12
  obtain ⟨days, hdays, hday⟩ := rules.parseField_text e.dom 1 31
  obtain ⟨weekdays, hweekdays, hweekday⟩ := rules.parseField_text e.dow 0 6
  have hdate : rules.dayMatches e.dom.text e.dow.text dt days weekdays = decide (e.MatchesDay dt) := by
    apply decide_eq_decide.mpr
    simp only [strip_field, hday, hweekday]
    exact iff_of_eq (if_congr Iff.rfl rfl rfl)
  have hfields := rules.cronMatches_fields dt h
  simp only [Nat.cast_ofNat, Nat.cast_zero, Nat.cast_one] at hminutes hhours hmonths hdays hweekdays
  simp only [hminutes, hhours, hmonths, hdays, hweekdays, Except.bind, hminute, hhour, hmonth,
    hdate] at hfields
  rw [hfields]
  unfold Expression.Matches
  by_cases hminute : e.minute.Denotes 0 59 dt.minute <;> by_cases hhour : e.hour.Denotes 0 23 dt.hour <;>
    by_cases hmonth : e.month.Denotes 1 12 dt.month <;> simp [hminute, hhour, hmonth]

end TextRules

/-- **The matcher agrees with its language.** On the text of an expression it returns whether the expression
denotes the minute. -/
theorem cronMatches_text (rules : TextRules) (e : Cron.Expression) (dt : DateTime) :
    rules.cronMatches e.text dt = .ok (decide (e.Matches dt)) :=
  rules.cronMatches_of_split (rules.split_text e) dt

end Bass
