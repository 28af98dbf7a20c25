import Bass.Proof.CronMatching

/-!
# Which expressions the matcher refuses

A part of a field is refused when a number in it is not one for `int` or its step is zero, and for nothing
else: numbers outside the field's range and ranges that are empty only leave the field with fewer values.
A field is not looked at before the fields ahead of it match, so the minute decides which parts count.
-/

namespace Bass

namespace TextRules

variable {rules : TextRules}

theorem cut_spec {sep : Char} {text : List Char} (h : sep ∈ text) :
    text = (cut sep text).1 ++ sep :: (cut sep text).2 ∧ sep ∉ (cut sep text).1 := by
  obtain ⟨before, after, rfl, hbefore⟩ := List.eq_append_cons_of_mem h
  rw [cut_append hbefore]
  exact ⟨rfl, hbefore⟩

theorem eq_cut_of_append {sep : Char} {text before after : List Char} (h : text = before ++ sep :: after)
    (hbefore : sep ∉ before) : sep ∈ text ∧ cut sep text = (before, after) := by
  rw [h]
  exact ⟨List.mem_append_right _ List.mem_cons_self, cut_append hbefore⟩

theorem int_error {text : List Char} {e : Exc} (h : rules.int text = .error e) :
    ∃ message, e = valueError message := by
  unfold int at h
  dsimp only at h
  split at h
  · cases h
  · cases h
    exact ⟨_, rfl⟩

variable (rules) in
/-- The text of a part is a base, and a step after a slash if there is one. -/
def SplitsInto (part base : List Char) (step : Int) : Prop :=
  '/' ∉ part ∧ base = part ∧ step = 1 ∨
    ∃ text, part = base ++ '/' :: text ∧ '/' ∉ base ∧ rules.int text = .ok step

variable (rules) in
/-- The text of a base is a star, two numbers with a dash between them, or one number. -/
def Spans (base : List Char) (lo hi first last : Int) : Prop :=
  base = ['*'] ∧ first = lo ∧ last = hi ∨
    (∃ a b, base = a ++ '-' :: b ∧ '-' ∉ a ∧ rules.int a = .ok first ∧ rules.int b = .ok last) ∨
      base ≠ ['*'] ∧ '-' ∉ base ∧ rules.int base = .ok first ∧ last = first

variable (rules) in
/-- The part says: every `step`th value from `first` on, up to `last`. -/
def Reads (part : List Char) (lo hi first last step : Int) : Prop :=
  step ≠ 0 ∧ ∃ base, rules.SplitsInto part base step ∧ rules.Spans base lo hi first last

theorem splitStep_eq_ok_iff {part base : List Char} {step : Int} :
    rules.splitStep part = .ok (base, step) ↔ rules.SplitsInto part base step := by
  unfold splitStep SplitsInto
  by_cases hslash : '/' ∈ part
  · obtain ⟨hpart, hbefore⟩ := cut_spec hslash
    rw [if_pos hslash]
    constructor
    · intro h
      cases hint : rules.int (cut '/' part).2 with
      | error e =>
          rw [hint] at h
          cases h
      | ok n =>
          rw [hint] at h
          cases h
          exact Or.inr ⟨_, hpart, hbefore, hint⟩
    · rintro (⟨hnone, -⟩ | ⟨text, htext, hbase, hint⟩)
      · exact absurd hslash hnone
      · rw [(eq_cut_of_append htext hbase).2, hint]
        rfl
  · rw [if_neg hslash]
    constructor
    · intro h
      cases h
      exact Or.inl ⟨hslash, rfl, rfl⟩
    · rintro (⟨-, rfl, rfl⟩ | ⟨text, htext, hbase, -⟩)
      · rfl
      · exact absurd (eq_cut_of_append htext hbase).1 hslash

theorem bounds_eq_ok_iff {base : List Char} {lo hi first last : Int} :
    rules.bounds base lo hi = .ok (first, last) ↔ rules.Spans base lo hi first last := by
  unfold bounds Spans
  by_cases hstar : base = ['*']
  · rw [if_pos hstar]
    constructor
    · intro h
      cases h
      exact Or.inl ⟨hstar, rfl, rfl⟩
    · rintro (⟨-, rfl, rfl⟩ | ⟨a, b, hbase, ha, -⟩ | ⟨hne, -⟩)
      · rfl
      · have hdash := (eq_cut_of_append hbase ha).1
        rw [hstar] at hdash
        exact absurd hdash (by decide)
      · exact absurd hstar hne
  · rw [if_neg hstar]
    by_cases hdash : '-' ∈ base
    · obtain ⟨hbase, hbefore⟩ := cut_spec hdash
      rw [if_pos hdash]
      constructor
      · intro h
        cases ha : rules.int (cut '-' base).1 with
        | error e =>
            rw [ha] at h
            cases h
        | ok a =>
            rw [ha] at h
            cases hb : rules.int (cut '-' base).2 with
            | error e =>
                rw [hb] at h
                cases h
            | ok b =>
                rw [hb] at h
                cases h
                exact Or.inr (Or.inl ⟨_, _, hbase, hbefore, ha, hb⟩)
      · rintro (⟨hne, -⟩ | ⟨a, b, htext, ha, hfirst, hlast⟩ | ⟨-, hnone, -⟩)
        · exact absurd hne hstar
        · rw [(eq_cut_of_append htext ha).2]
          simp only [hfirst, hlast]
          rfl
        · exact absurd hdash hnone
    · rw [if_neg hdash]
      constructor
      · intro h
        cases hint : rules.int base with
        | error e =>
            rw [hint] at h
            cases h
        | ok n =>
            rw [hint] at h
            cases h
            exact Or.inr (Or.inr ⟨hstar, hdash, rfl, rfl⟩)
      · rintro (⟨hne, -⟩ | ⟨a, b, htext, ha, -⟩ | ⟨-, -, hint, rfl⟩)
        · exact absurd hne hstar
        · exact absurd (eq_cut_of_append htext ha).1 hdash
        · rw [hint]
          rfl

/-! ### Parts and fields -/

variable (rules) in
def ReadablePart (part : List Char) (lo hi : Int) : Prop :=
  ∃ first last step, rules.Reads part lo hi first last step

variable (rules) in
/-- The value is in the field's range, and one of those that the part asks for. -/
def Lists (part : List Char) (lo hi v : Int) : Prop :=
  lo ≤ v ∧ v ≤ hi ∧ ∃ first last step, rules.Reads part lo hi first last step ∧
    v ∈ range first (last + 1) step

variable (rules) in
/-- Every part of the field can be read. -/
def ReadableField (field : List Char) (lo hi : Int) : Prop :=
  ∀ part ∈ field.splitOn ',', rules.ReadablePart part lo hi

variable (rules) in
def Includes (field : List Char) (lo hi v : Int) : Prop :=
  ∃ part ∈ field.splitOn ',', rules.Lists part lo hi v

theorem splitStep_error {part : List Char} {e : Exc} (h : rules.splitStep part = .error e) :
    ∃ message, e = valueError message := by
  unfold splitStep at h
  split at h
  · cases hint : rules.int (cut '/' part).2 with
    | error e' =>
        rw [hint] at h
        cases h
        exact int_error hint
    | ok n =>
        rw [hint] at h
        cases h
  · cases h

theorem bounds_error {base : List Char} {lo hi : Int} {e : Exc} (h : rules.bounds base lo hi = .error e) :
    ∃ message, e = valueError message := by
  unfold bounds at h
  split at h
  · cases h
  · split at h
    · cases ha : rules.int (cut '-' base).1 with
      | error e' =>
          rw [ha] at h
          cases h
          exact int_error ha
      | ok a =>
          rw [ha] at h
          cases hb : rules.int (cut '-' base).2 with
          | error e' =>
              rw [hb] at h
              cases h
              exact int_error hb
          | ok b =>
              rw [hb] at h
              cases h
    · cases hint : rules.int base with
      | error e' =>
          rw [hint] at h
          cases h
          exact int_error hint
      | ok n =>
          rw [hint] at h
          cases h

/-- What `parse` returns is what `readable` and `lists` say, and otherwise it is a `ValueError`. -/
def ParsesTo (readable : Prop) (lists : Int → Prop) (parsed : Except Exc (List Int)) : Prop :=
  (readable ∧ ∃ values, parsed = .ok values ∧ ∀ v, v ∈ values ↔ lists v) ∨
    (¬readable ∧ ∃ message, parsed = .error (valueError message))

theorem parsePart_spec (part : List Char) (lo hi : Int) :
    ParsesTo (rules.ReadablePart part lo hi) (rules.Lists part lo hi) (rules.parsePart part lo hi) := by
  have hreads : ∀ {first last step}, rules.Reads part lo hi first last step →
      rules.parsePart part lo hi = .ok ((range first (last + 1) step).filter fun v => lo ≤ v ∧ v ≤ hi) := by
    rintro first last step ⟨hstep, base, hsplit, hspans⟩
    rw [parsePart_eq, splitStep_eq_ok_iff.mpr hsplit, Except.bind, bounds_eq_ok_iff.mpr hspans]
    exact if_neg hstep
  by_cases hreadable : rules.ReadablePart part lo hi
  · obtain ⟨first, last, step, hread⟩ := hreadable
    refine Or.inl ⟨⟨first, last, step, hread⟩, _, hreads hread, ?_⟩
    intro v
    rw [List.mem_filter, decide_eq_true_eq]
    constructor
    · rintro ⟨hmem, hlo, hhi⟩
      exact ⟨hlo, hhi, first, last, step, hread, hmem⟩
    · rintro ⟨hlo, hhi, first', last', step', hread', hmem⟩
      have hsame := (hreads hread).symm.trans (hreads hread')
      have hfiltered : v ∈ (range first' (last' + 1) step').filter fun v => lo ≤ v ∧ v ≤ hi :=
        List.mem_filter.mpr ⟨hmem, decide_eq_true ⟨hlo, hhi⟩⟩
      rw [← Except.ok.inj hsame, List.mem_filter, decide_eq_true_eq] at hfiltered
      exact hfiltered
  · refine Or.inr ⟨hreadable, ?_⟩
    rw [parsePart_eq]
    cases hsplit : rules.splitStep part with
    | error e =>
        obtain ⟨message, rfl⟩ := splitStep_error hsplit
        exact ⟨message, rfl⟩
    | ok base =>
        cases hbounds : rules.bounds base.1 lo hi with
        | error e =>
            obtain ⟨message, rfl⟩ := bounds_error hbounds
            exact ⟨message, by rw [Except.bind, hbounds]; rfl⟩
        | ok ends =>
            have hzero : base.2 = 0 := by
              by_contra hstep
              exact hreadable ⟨ends.1, ends.2, base.2, hstep, base.1, splitStep_eq_ok_iff.mp hsplit,
                bounds_eq_ok_iff.mp hbounds⟩
            refine ⟨"range() arg 3 must not be zero", ?_⟩
            rw [Except.bind, hbounds]
            exact if_pos hzero

theorem parseParts_spec (parts : List (List Char)) (lo hi : Int) :
    ParsesTo (∀ part ∈ parts, rules.ReadablePart part lo hi) (fun v => ∃ part ∈ parts, rules.Lists part lo hi v)
      (rules.parseParts lo hi parts) := by
  induction parts with
  | nil => exact Or.inl ⟨by simp, [], rfl, by simp⟩
  | cons part parts ih =>
      rcases rules.parsePart_spec part lo hi with ⟨hpart, values, hvalues, hmem⟩ | ⟨hpart, message, herror⟩
      · rcases ih with ⟨hparts, others, hothers, hmem'⟩ | ⟨hparts, message, herror⟩
        · refine Or.inl ⟨List.forall_mem_cons.mpr ⟨hpart, hparts⟩, values ++ others, ?_, ?_⟩
          · rw [parseParts, hvalues, hothers]
            rfl
          · intro v
            simp only [List.mem_append, hmem, hmem', List.mem_cons, exists_eq_or_imp]
        · refine Or.inr ⟨fun h => hparts (List.forall_mem_cons.mp h).2, message, ?_⟩
          rw [parseParts, hvalues, herror]
          rfl
      · refine Or.inr ⟨fun h => hpart (List.forall_mem_cons.mp h).1, message, ?_⟩
        rw [parseParts, herror]
        rfl

theorem parseField_spec (field : List Char) (lo hi : Int) :
    ParsesTo (rules.ReadableField field lo hi) (rules.Includes field lo hi) (rules.parseField field lo hi) :=
  rules.parseParts_spec _ lo hi

/-! ### Expressions -/

variable (rules) in
/-- There are five fields, and each field that is looked at can be read. The hour is looked at when the
minute is included, the month when the hour is too, and the two day fields when the month is. -/
def ReadableAt (expr : String) (dt : DateTime) : Prop :=
  ∃ minute hour dom month dow, rules.split expr.toList = [minute, hour, dom, month, dow] ∧
    rules.ReadableField minute 0 59 ∧ (rules.Includes minute 0 59 dt.minute →
      rules.ReadableField hour 0 23 ∧ (rules.Includes hour 0 23 dt.hour →
        rules.ReadableField month 1 12 ∧ (rules.Includes month 1 12 dt.month →
          rules.ReadableField dom 1 31 ∧ rules.ReadableField dow 0 6)))

/-- The matcher answers if it accepts, and raises `ValueError` if it does not. -/
def Verdict (accepted : Prop) (result : Except Exc Bool) : Prop :=
  (accepted ∧ ∃ fires, result = .ok fires) ∨ (¬accepted ∧ ∃ message, result = .error (valueError message))

theorem ParsesTo.bind {readable rest : Prop} {lists : Int → Prop} {parsed : Except Exc (List Int)}
    {next : List Int → Except Exc Bool} (h : ParsesTo readable lists parsed)
    (hrest : ∀ values, (∀ v, v ∈ values ↔ lists v) → Verdict rest (next values)) :
    Verdict (readable ∧ rest) (parsed.bind next) := by
  rcases h with ⟨hreadable, values, rfl, hmem⟩ | ⟨hreadable, message, rfl⟩
  · rcases hrest values hmem with ⟨haccepted, hok⟩ | ⟨hrefused, herror⟩
    · exact Or.inl ⟨⟨hreadable, haccepted⟩, hok⟩
    · exact Or.inr ⟨fun haccepted => hrefused haccepted.2, herror⟩
  · exact Or.inr ⟨fun haccepted => hreadable haccepted.1, message, rfl⟩

theorem Verdict.ite {accepted included : Prop} {v : Int} {values : List Int} {result : Except Exc Bool}
    (hincluded : v ∈ values ↔ included) (h : Verdict accepted result) :
    Verdict (included → accepted) (if v ∈ values then result else .ok false) := by
  by_cases hmem : v ∈ values
  · rw [if_pos hmem]
    rcases h with ⟨haccepted, hok⟩ | ⟨hrefused, herror⟩
    · exact Or.inl ⟨fun _ => haccepted, hok⟩
    · exact Or.inr ⟨fun haccepted => hrefused (haccepted (hincluded.mp hmem)), herror⟩
  · rw [if_neg hmem]
    exact Or.inl ⟨fun h => absurd (hincluded.mpr h) hmem, false, rfl⟩

theorem cronMatches_verdict (expr : String) (dt : DateTime) :
    Verdict (rules.ReadableAt expr dt) (rules.cronMatches expr dt) := by
  by_cases hfive : ∃ minute hour dom month dow, rules.split expr.toList = [minute, hour, dom, month, dow]
  · obtain ⟨minute, hour, dom, month, dow, hsplit⟩ := hfive
    have hreadable : rules.ReadableAt expr dt ↔
        rules.ReadableField minute 0 59 ∧ (rules.Includes minute 0 59 dt.minute →
          rules.ReadableField hour 0 23 ∧ (rules.Includes hour 0 23 dt.hour →
            rules.ReadableField month 1 12 ∧ (rules.Includes month 1 12 dt.month →
              rules.ReadableField dom 1 31 ∧ rules.ReadableField dow 0 6 ∧ True))) := by
      unfold ReadableAt
      constructor
      · rintro ⟨minute', hour', dom', month', dow', hsplit', h⟩
        obtain ⟨rfl, rfl, rfl, rfl, rfl⟩ : minute = minute' ∧ hour = hour' ∧ dom = dom' ∧
            month = month' ∧ dow = dow' := by simpa [hsplit] using hsplit'
        simpa using h
      · intro h
        exact ⟨minute, hour, dom, month, dow, hsplit, by simpa using h⟩
    rw [hreadable, rules.cronMatches_fields _ hsplit]
    apply (rules.parseField_spec minute 0 59).bind
    intro minutes hminutes
    apply Verdict.ite (hminutes _)
    apply (rules.parseField_spec hour 0 23).bind
    intro hours hhours
    apply Verdict.ite (hhours _)
    apply (rules.parseField_spec month 1 12).bind
    intro months hmonths
    apply Verdict.ite (hmonths _)
    apply (rules.parseField_spec dom 1 31).bind
    intro days _
    apply (rules.parseField_spec dow 0 6).bind
    intro weekdays _
    exact Or.inl ⟨trivial, _, rfl⟩
  · refine Or.inr ⟨?_, "cron expression must have 5 fields: " ++ rules.repr expr, ?_⟩
    · rintro ⟨minute, hour, dom, month, dow, hsplit, -⟩
      exact hfive ⟨minute, hour, dom, month, dow, hsplit⟩
    · unfold cronMatches
      split
      · exact absurd ⟨_, _, _, _, _, by assumption⟩ hfive
      · rfl

end TextRules

/-! ### Documented expressions -/

theorem Cron.Field.exists_denotes {field : Field} {lo hi : Nat} (hle : lo ≤ hi)
    (h : field.Documented lo hi) : ∃ v, field.Denotes lo hi v := by
  obtain ⟨part, hpart⟩ := List.exists_mem_of_ne_nil _ field.nonempty
  have hdoc := h part hpart
  have hfirst : lo ≤ part.base.first lo ∧ part.base.first lo ≤ hi ∧
      part.base.first lo ≤ part.base.last hi := by
    unfold Part.Documented at hdoc
    cases hbase : part.base with
    | star => exact ⟨le_rfl, hle, hle⟩
    | literal a =>
        rw [hbase] at hdoc
        exact ⟨hdoc.2.1, hdoc.2.2, le_rfl⟩
    | span a b =>
        rw [hbase] at hdoc
        exact ⟨hdoc.1, hdoc.2.1.trans hdoc.2.2, hdoc.2.1⟩
  refine ⟨part.base.first lo, hfirst.1, hfirst.2.1, part, hpart, le_rfl, hfirst.2.2, ?_⟩
  rw [Nat.sub_self]
  exact dvd_zero _

/-- **What the matcher refuses.** It raises `ValueError`, and nothing else, iff there are not five fields or
a field that is looked at has a part that cannot be read; an expression of the documented language is never
refused and none of its fields is empty. -/
theorem cronMatches_error_iff (rules : TextRules) (expr : String) (dt : DateTime) :
    ((∃ message, rules.cronMatches expr dt = .error (valueError message)) ↔
        ¬rules.ReadableAt expr dt) ∧
      (∀ e, rules.cronMatches expr dt = .error e → ∃ message, e = valueError message) ∧
      ∀ e : Cron.Expression, e.Documented → rules.split expr.toList = e.fields →
        (∃ fires, rules.cronMatches expr dt = .ok fires) ∧
          (∃ v, e.minute.Denotes 0 59 v) ∧ (∃ v, e.hour.Denotes 0 23 v) ∧ (∃ v, e.dom.Denotes 1 31 v) ∧
          (∃ v, e.month.Denotes 1 12 v) ∧ ∃ v, e.dow.Denotes 0 6 v := by
  refine ⟨?_, ?_, ?_⟩
  · rcases rules.cronMatches_verdict expr dt with ⟨haccepted, fires, hok⟩ | ⟨hrefused, herror⟩
    · constructor
      · rintro ⟨message, herror⟩
        rw [hok] at herror
        cases herror
      · intro hrefused
        exact absurd haccepted hrefused
    · exact ⟨fun _ => hrefused, fun _ => herror⟩
  · intro e he
    rcases rules.cronMatches_verdict expr dt with ⟨-, fires, hok⟩ | ⟨-, message, herror⟩
    · rw [hok] at he
      cases he
    · rw [herror] at he
      exact ⟨message, (Except.error.inj he).symm⟩
  · rintro e ⟨hminute, hhour, hdom, hmonth, hdow⟩ hsplit
    have hfields : (∃ v, e.minute.Denotes 0 59 v) ∧ (∃ v, e.hour.Denotes 0 23 v) ∧
        (∃ v, e.dom.Denotes 1 31 v) ∧ (∃ v, e.month.Denotes 1 12 v) ∧ ∃ v, e.dow.Denotes 0 6 v :=
      ⟨Cron.Field.exists_denotes (by decide) hminute, Cron.Field.exists_denotes (by decide) hhour,
        Cron.Field.exists_denotes (by decide) hdom, Cron.Field.exists_denotes (by decide) hmonth,
        Cron.Field.exists_denotes (by decide) hdow⟩
    exact ⟨⟨_, rules.cronMatches_of_split hsplit dt⟩, hfields⟩

namespace Cron

def everyValue : Field := ⟨[⟨.star, none, by simp⟩], by simp⟩

def zero : Field := ⟨[⟨.literal ⟨['0'], by simp, by simp⟩, none, by simp⟩], by simp⟩

/-- On the hour. -/
def hourly : Expression := ⟨zero, everyValue, everyValue, everyValue, everyValue⟩

end Cron

theorem cronMatches_error_iff_hourly :
    (∃ fires, TextRules.ascii.cronMatches "0 * * * *" (.newYear 5) = .ok fires) ∧
      ¬TextRules.ascii.ReadableAt "0 * * *" (.newYear 5) := by
  have hdoc : Cron.hourly.Documented := by
    simp [Cron.hourly, Cron.Expression.Documented, Cron.Field.Documented, Cron.Part.Documented,
      Cron.everyValue, Cron.zero, Cron.Decimal.value, Nat.ofDigitChars]
  constructor
  · exact ((cronMatches_error_iff .ascii "0 * * * *" (.newYear 5)).2.2 Cron.hourly hdoc
      (by decide +kernel)).1
  · apply (cronMatches_error_iff .ascii "0 * * *" (.newYear 5)).1.mp
    exact ⟨_, rfl⟩

/-- Five minutes past, the malformed hour of the first expression is not looked at; the minute of the second
is outside the range, and the field denotes nothing, but it is accepted. -/
theorem refusal_not_by_grammar :
    (¬∀ (expr : String) (dt : DateTime), (∃ e, TextRules.ascii.cronMatches expr dt = .error e) ↔
      ¬∃ e : Cron.Expression, e.Documented ∧ TextRules.ascii.split expr.toList = e.fields) ∧
    TextRules.ascii.cronMatches "61 * * * *" (.newYear 0) = .ok false ∧
      (¬∃ e : Cron.Expression, e.Documented ∧ TextRules.ascii.split "61 * * * *".toList = e.fields) ∧
      ∀ v, ¬TextRules.ascii.Includes ['6', '1'] 0 59 v := by
  have hempty : TextRules.ascii.parseField ['6', '1'] 0 59 = .ok [] := rfl
  refine ⟨?_, rfl, ?_, ?_⟩
  · intro h
    have hraises : (TextRules.ascii.cronMatches "0 x * * *" (.newYear 0)).isOk = false := by decide +kernel
    have haccepts : (TextRules.ascii.cronMatches "0 x * * *" (.newYear 5)).isOk = true := by decide +kernel
    have hundocumented : ¬∃ e : Cron.Expression, e.Documented ∧
        TextRules.ascii.split "0 x * * *".toList = e.fields := by
      apply (h "0 x * * *" (.newYear 0)).mp
      cases hresult : TextRules.ascii.cronMatches "0 x * * *" (.newYear 0) with
      | ok fires =>
          rw [hresult] at hraises
          cases hraises
      | error e => exact ⟨e, rfl⟩
    obtain ⟨e, he⟩ := (h "0 x * * *" (.newYear 5)).mpr hundocumented
    rw [he] at haccepts
    cases haccepts
  · rintro ⟨e, hdoc, hsplit⟩
    have hminute : ['6', '1'] = e.minute.text := by
      have hfields : TextRules.ascii.split "61 * * * *".toList = [['6', '1'], ['*'], ['*'], ['*'], ['*']] := by
        decide +kernel
      exact (List.cons.inj (hfields.symm.trans hsplit)).1
    obtain ⟨values, hvalues, hmem⟩ := TextRules.ascii.parseField_text e.minute 0 59
    obtain ⟨v, hv⟩ := Cron.Field.exists_denotes (by decide) hdoc.1
    rw [← hminute] at hvalues
    obtain rfl := Except.ok.inj (hempty.symm.trans hvalues)
    exact absurd ((hmem v).mpr hv) List.not_mem_nil
  · intro v hv
    rcases TextRules.ascii.parseField_spec ['6', '1'] 0 59 with ⟨-, values, hvalues, hmem⟩ | ⟨-, _, herror⟩
    · obtain rfl := Except.ok.inj (hempty.symm.trans hvalues)
      exact absurd ((hmem v).mpr hv) List.not_mem_nil
    · rw [hempty] at herror
      cases herror

end Bass
