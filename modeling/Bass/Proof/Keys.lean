import Bass.Canonical
import Bass.Data.Text

/-!
# Keys of events

The canonical text of an event determines it up to the order of the keys of its objects: a string can be
read off because every escape can, everything else because it ends where a comma or a bracket is. What two
events with ids of their own share is the text of the id, whatever its type and whichever field has it.
-/

namespace Bass.Json

open Text

/-! ### Strings -/

theorem hex4_inj {m n : Nat} (hm : m < 65536) (hn : n < 65536) {x y : List Char}
    (h : hex4 m ++ x = hex4 n ++ y) : m = n ∧ x = y := by
  obtain ⟨hdigits, hrest⟩ := List.append_inj h rfl
  simp only [hex4, List.cons.injEq, and_true] at hdigits
  obtain ⟨h₃, h₂, h₁, h₀⟩ := hdigits
  have h₃ := digitChar_inj (by omega) (by omega) h₃
  have h₂ := digitChar_inj (by omega) (by omega) h₂
  have h₁ := digitChar_inj (by omega) (by omega) h₁
  have h₀ := digitChar_inj (by omega) (by omega) h₀
  exact ⟨by omega, hrest⟩

/-- The forms an escape can have. -/
inductive Escaped (c : Char) : List Char → Prop where
  | short {letter : Char} (h : (c, letter) ∈ shortEscapes) : Escaped c ['\\', letter]
  | plain (hslash : c ≠ '\\') (hquote : c ≠ '"') : Escaped c [c]
  | unit (h : c.toNat < 65536) : Escaped c ('\\' :: 'u' :: hex4 c.toNat)
  | pair (h : 65536 ≤ c.toNat) :
      Escaped c ('\\' :: 'u' :: (hex4 (55296 + (c.toNat - 65536) / 1024) ++
        '\\' :: 'u' :: hex4 (56320 + (c.toNat - 65536) % 1024)))

theorem escaped_escape (c : Char) : Escaped c (escape c) := by
  unfold escape
  split
  · rename_i letter hlookup
    obtain ⟨before, after, htable, -⟩ := List.lookup_eq_some_iff.mp hlookup
    apply Escaped.short
    rw [htable]
    exact List.mem_append_right _ List.mem_cons_self
  · rename_i hlookup
    have hnone := List.lookup_eq_none_iff.mp hlookup
    split
    · apply Escaped.plain
      · rintro rfl
        simpa using hnone ('\\', '\\') (by decide)
      · rintro rfl
        simpa using hnone ('"', '"') (by decide)
    · split
      · exact Escaped.unit ‹_›
      · exact Escaped.pair (by omega)

/-- No character is one half of a surrogate pair. -/
theorem toNat_not_surrogate (c : Char) : c.toNat < 55296 ∨ 57343 < c.toNat ∧ c.toNat < 1114112 := c.valid

theorem decodes_escape : Decodes escape := by
  have hletters : ∀ p ∈ shortEscapes, ∀ q ∈ shortEscapes, p.2 = q.2 → p.1 = q.1 := by decide
  have hu : ∀ p ∈ shortEscapes, p.2 ≠ 'u' := by decide
  intro a b x y h
  have ha := escaped_escape a
  have hb := escaped_escape b
  have hvalid := toNat_not_surrogate a
  have hvalid' := toNat_not_surrogate b
  generalize escape a = s at ha h
  generalize escape b = t at hb h
  cases ha with
  | short hmem =>
      cases hb with
      | short hmem' =>
          simp only [List.cons_append, List.nil_append, List.cons.injEq, true_and] at h
          exact ⟨hletters _ hmem _ hmem' h.1, h.2⟩
      | plain hslash => exact absurd (List.cons.inj h).1.symm hslash
      | unit | pair => exact absurd (List.cons.inj (List.cons.inj h).2).1 (hu _ hmem)
  | plain hslash =>
      cases hb with
      | plain => exact List.cons.inj h
      | short | unit | pair => exact absurd (List.cons.inj h).1 hslash
  | unit hunit =>
      cases hb with
      | short hmem' => exact absurd (List.cons.inj (List.cons.inj h).2).1.symm (hu _ hmem')
      | plain hslash => exact absurd (List.cons.inj h).1.symm hslash
      | unit hunit' =>
          simp only [List.cons_append, List.cons.injEq, true_and] at h
          obtain ⟨hcode, hrest⟩ := hex4_inj hunit hunit' h
          exact ⟨Char.toNat_inj.mp hcode, hrest⟩
      | pair hpair' =>
          simp only [List.cons_append, List.append_assoc, List.cons.injEq, true_and] at h
          obtain ⟨hcode, -⟩ := hex4_inj hunit (by omega) h
          omega
  | pair hpair =>
      cases hb with
      | short hmem' => exact absurd (List.cons.inj (List.cons.inj h).2).1.symm (hu _ hmem')
      | plain hslash => exact absurd (List.cons.inj h).1.symm hslash
      | unit hunit' =>
          simp only [List.cons_append, List.append_assoc, List.cons.injEq, true_and] at h
          obtain ⟨hcode, -⟩ := hex4_inj (by omega) hunit' h
          omega
      | pair hpair' =>
          simp only [List.cons_append, List.append_assoc, List.cons.injEq, true_and] at h
          obtain ⟨hhigh, htail⟩ := hex4_inj (by omega) (by omega) h
          simp only [List.cons.injEq, true_and] at htail
          obtain ⟨hlow, hrest⟩ := hex4_inj (by omega) (by omega) htail
          exact ⟨Char.toNat_inj.mp (by omega), hrest⟩

theorem escape_ne_quote (c : Char) (x y : List Char) : escape c ++ x ≠ '"' :: y := by
  have hc := escaped_escape c
  intro h
  generalize escape c = s at hc h
  cases hc with
  | plain hslash hquote => exact hquote (List.cons.inj h).1
  | short | unit | pair => exact absurd (List.cons.inj h).1 (by decide)

theorem quote_inj {s t : String} {x y : List Char} (h : quote s ++ x = quote t ++ y) : s = t ∧ x = y := by
  simp only [quote, List.cons_append, List.append_assoc, List.cons.injEq, true_and] at h
  obtain ⟨htext, hrest⟩ := decodes_escape.flatMap escape_ne_quote h
  exact ⟨String.toList_injective htext, hrest⟩

/-! ### Values without parts -/

variable {floats : FloatText}

attribute [local simp] dumps dumpItems dumpFields

def atom : Json → Bool
  | .str _ | .arr _ | .obj _ => false
  | _ => true

/-- The characters that begin, separate or end what has parts. -/
def marks : List Char := [',', ']', '}', '"', '[', '{']

def numeric (c : Char) : Bool := c.isDigit || c ∈ ['.', 'e', '+', '-']

theorem numeric_int (value : Int) : ∀ c ∈ (toString value).toList, numeric c = true := by
  intro c hc
  by_contra hnot
  have hsign : c ≠ '-' ∧ c.isDigit = false := by
    constructor
    · rintro rfl
      exact hnot rfl
    · cases hdigit : c.isDigit with
      | false => rfl
      | true => exact absurd (by rw [numeric, hdigit, Bool.true_or]) hnot
  exact notMem_toString hsign.1 hsign.2 hc

theorem numeric_repr (value : ℚ) : ∀ c ∈ (floats.repr value).toList, numeric c = true := by
  intro c hc
  rw [numeric, Bool.or_eq_true, decide_eq_true_eq]
  exact floats.numeric value c hc

/-- The values without parts that are words, with their texts. -/
def words : List (Json × String) :=
  [(.null, "null"), (.bool true, "true"), (.bool false, "false"), (.float .posInf, "Infinity"),
    (.float .negInf, "-Infinity"), (.float .nan, "NaN")]

theorem words_inj : ∀ p ∈ words, ∀ q ∈ words, p.2 = q.2 → p.1 = q.1 := by
  simp [words]

theorem not_numeric_words : ∀ p ∈ words, ∃ c ∈ p.2.toList, numeric c = false := by
  have hall : ∀ text ∈ words.map Prod.snd, text.toList.any (fun c => !numeric c) = true := by decide
  intro p hp
  simpa using hall p.2 (List.mem_map_of_mem hp)

/-- A number, other than the words for what is not finite. -/
inductive Numeral : Json → Prop where
  | int (value : Int) : Numeral (.int value)
  | float (value : ℚ) : Numeral (.float (.finite value))
  | negZero : Numeral (.float .negZero)

theorem numeric_numeral {v : Json} (h : Numeral v) : ∀ c ∈ dumps floats v, numeric c = true := by
  cases h with
  | int value =>
      rw [dumps]
      exact numeric_int value
  | float value =>
      rw [dumps, FloatText.text]
      exact numeric_repr value
  | negZero =>
      rw [dumps, FloatText.text]
      exact List.forall_iff_forall_mem.mp (by decide)

theorem numeral_ne_nil {v : Json} (h : Numeral v) : dumps floats v ≠ [] := by
  cases h with
  | int value =>
      rw [dumps, toList_toString]
      split
      · exact List.cons_ne_nil _ _
      · exact Nat.toDigits_ne_nil
  | float value =>
      rw [dumps, FloatText.text]
      rcases floats.fractional value with hmem | hmem
      · exact List.ne_nil_of_mem hmem
      · exact List.ne_nil_of_mem hmem
  | negZero =>
      rw [dumps, FloatText.text]
      decide

theorem numeral_inj {v v' : Json} (h : Numeral v) (h' : Numeral v')
    (heq : dumps floats v = dumps floats v') : v = v' := by
  have hint : ∀ (value : Int) (text : List Char), '.' ∈ text ∨ 'e' ∈ text →
      (toString value).toList ≠ text := by
    rintro value text hpoint rfl
    rcases hpoint with hmem | hmem
    · exact notMem_toString (by decide) (by decide) hmem
    · exact notMem_toString (by decide) (by decide) hmem
  cases h with
  | int value =>
      cases h' with
      | int value' =>
          rw [dumps, dumps] at heq
          rw [toString_injective (String.toList_injective heq)]
      | float value' =>
          rw [dumps, dumps] at heq
          exact absurd heq (hint value _ (floats.fractional value'))
      | negZero =>
          rw [dumps, dumps, FloatText.text] at heq
          exact absurd heq (hint value _ (Or.inl (by decide)))
  | float value =>
      cases h' with
      | int value' =>
          rw [dumps, dumps] at heq
          exact absurd heq.symm (hint value' _ (floats.fractional value))
      | float value' =>
          rw [dumps, dumps] at heq
          rw [floats.injective (String.toList_injective heq)]
      | negZero =>
          rw [dumps, dumps] at heq
          exact absurd (String.toList_injective heq) (floats.signed value)
  | negZero =>
      cases h' with
      | int value' =>
          rw [dumps, dumps, FloatText.text] at heq
          exact absurd heq.symm (hint value' _ (Or.inl (by decide)))
      | float value' =>
          rw [dumps, dumps] at heq
          exact absurd (String.toList_injective heq.symm) (floats.signed value')
      | negZero => rfl

/-- A value without parts is a word or a number. -/
theorem atom_cases (floats : FloatText) {v : Json} (h : v.atom = true) :
    (∃ text, (v, text) ∈ words ∧ dumps floats v = text.toList) ∨ Numeral v := by
  cases v with
  | null => exact Or.inl ⟨"null", by simp [words], by simp [dumps]⟩
  | bool value =>
      cases value with
      | true => exact Or.inl ⟨"true", by simp [words], by simp [dumps]⟩
      | false => exact Or.inl ⟨"false", by simp [words], by simp [dumps]⟩
  | int value => exact Or.inr (.int value)
  | float value =>
      cases value with
      | finite value => exact Or.inr (.float value)
      | negZero => exact Or.inr .negZero
      | posInf => exact Or.inl ⟨"Infinity", by simp [words], by simp [dumps, FloatText.text]⟩
      | negInf => exact Or.inl ⟨"-Infinity", by simp [words], by simp [dumps, FloatText.text]⟩
      | nan => exact Or.inl ⟨"NaN", by simp [words], by simp [dumps, FloatText.text]⟩
  | str | arr | obj => cases h

/-- The text of a value without parts is not empty and has no marks. -/
theorem bare_atom (floats : FloatText) {v : Json} (h : v.atom = true) :
    dumps floats v ≠ [] ∧ ∀ c ∈ dumps floats v, c ∉ marks := by
  rcases atom_cases floats h with ⟨text, hword, htext⟩ | hnumeral
  · have hall : ∀ text ∈ words.map Prod.snd,
        text.toList ≠ [] ∧ text.toList.all (fun c => decide (c ∉ marks)) = true := by decide
    rw [htext]
    simpa using hall text (List.mem_map_of_mem hword)
  · have hmarks : ∀ c ∈ marks, numeric c = false := List.forall_iff_forall_mem.mp (by decide)
    refine ⟨numeral_ne_nil hnumeral, fun c hc hmark => ?_⟩
    have hnumeric := numeric_numeral hnumeral c hc
    rw [hmarks c hmark] at hnumeric
    cases hnumeric

theorem atom_inj {v v' : Json} (h : v.atom = true) (h' : v'.atom = true)
    (heq : dumps floats v = dumps floats v') : v = v' := by
  have hword : ∀ {v v' : Json} {text : String}, (v, text) ∈ words → dumps floats v = text.toList →
      Numeral v' → dumps floats v ≠ dumps floats v' := by
    intro v v' text hword htext hnumeral heq
    obtain ⟨c, hc, hnot⟩ := not_numeric_words (v, text) hword
    rw [htext] at heq
    rw [numeric_numeral hnumeral c (heq ▸ hc)] at hnot
    cases hnot
  rcases atom_cases floats h with ⟨text, hmem, htext⟩ | hnumeral
  · rcases atom_cases floats h' with ⟨text', hmem', htext'⟩ | hnumeral'
    · rw [htext, htext'] at heq
      exact words_inj _ hmem _ hmem' (String.toList_injective heq)
    · exact absurd heq (hword hmem htext hnumeral')
  · rcases atom_cases floats h' with ⟨text', hmem', htext'⟩ | hnumeral'
    · exact absurd heq.symm (hword hmem' htext' hnumeral)
    · exact numeral_inj hnumeral hnumeral' heq

/-! ### Values with parts -/

mutual

/-- Induction on values: a property of everything in a list or an object is one of the whole. -/
theorem induction {P : Json → Prop} (hatom : ∀ v, v.atom = true → P v) (hstr : ∀ s, P (.str s))
    (harr : ∀ items, (∀ v ∈ items, P v) → P (.arr items))
    (hobj : ∀ fields : List (String × Json), (∀ field ∈ fields, P field.2) → P (.obj fields)) (v : Json) :
    P v := by
  cases v with
  | str s => exact hstr s
  | arr items => exact harr items (inductionItems hatom hstr harr hobj items)
  | obj fields => exact hobj fields (inductionFields hatom hstr harr hobj fields)
  | null | bool | int | float => exact hatom _ rfl

theorem inductionItems {P : Json → Prop} (hatom : ∀ v, v.atom = true → P v) (hstr : ∀ s, P (.str s))
    (harr : ∀ items, (∀ v ∈ items, P v) → P (.arr items))
    (hobj : ∀ fields : List (String × Json), (∀ field ∈ fields, P field.2) → P (.obj fields))
    (items : List Json) : ∀ v ∈ items, P v := by
  cases items with
  | nil => exact fun _ hmem => absurd hmem List.not_mem_nil
  | cons value rest =>
      rw [List.forall_mem_cons]
      exact ⟨induction hatom hstr harr hobj value, inductionItems hatom hstr harr hobj rest⟩

theorem inductionFields {P : Json → Prop} (hatom : ∀ v, v.atom = true → P v) (hstr : ∀ s, P (.str s))
    (harr : ∀ items, (∀ v ∈ items, P v) → P (.arr items))
    (hobj : ∀ fields : List (String × Json), (∀ field ∈ fields, P field.2) → P (.obj fields))
    (fields : List (String × Json)) : ∀ field ∈ fields, P field.2 := by
  cases fields with
  | nil => exact fun _ hmem => absurd hmem List.not_mem_nil
  | cons field rest =>
      obtain ⟨key, value⟩ := field
      rw [List.forall_mem_cons]
      exact ⟨induction hatom hstr harr hobj value, inductionFields hatom hstr harr hobj rest⟩

end

theorem dumpItems_eq (items : List Json) : dumpItems floats items = items.map (dumps floats) := by
  induction items with
  | nil => rfl
  | cons value rest ih => rw [dumpItems, ih, List.map_cons]

theorem dumpFields_eq (fields : List (String × Json)) :
    dumpFields floats fields = fields.map fun field => (field.1, dumps floats field.2) := by
  induction fields with
  | nil => rfl
  | cons field rest ih => rw [dumpFields, ih, List.map_cons]

/-- Sorting does not look at the values. -/
theorem map_sortKeys {α β : Type} (f : α → β) (fields : List (String × α)) :
    sortKeys (fields.map fun field => (field.1, f field.2)) =
      (sortKeys fields).map fun field => (field.1, f field.2) := by
  apply Eq.symm
  apply List.map_insertionSort
  exact fun _ _ _ _ => Iff.rfl

theorem dumps_obj (fields : List (String × Json)) :
    dumps floats (.obj fields) = '{' :: ([','].intercalate ((sortKeys fields).map fun field =>
      member (field.1, dumps floats field.2)) ++ ['}']) := by
  rw [dumps, dumpFields_eq, map_sortKeys, List.map_map]
  rfl

theorem dumps_arr (items : List Json) :
    dumps floats (.arr items) = '[' :: ([','].intercalate (items.map (dumps floats)) ++ [']']) := by
  rw [dumps, dumpItems_eq]

/-- The mark that the text of a value begins with. -/
def opener : Json → Option Char
  | .str _ => some '"'
  | .arr _ => some '['
  | .obj _ => some '{'
  | _ => none

/-- The first character of a text tells what kind of value follows. -/
theorem exists_head (floats : FloatText) (v : Json) (x : List Char) :
    ∃ c rest, dumps floats v ++ x = c :: rest ∧ c ≠ ']' ∧ v.opener = if c ∈ marks then some c else none := by
  have hatom : v.atom = true → v.opener = none →
      ∃ c rest, dumps floats v ++ x = c :: rest ∧ c ≠ ']' ∧
        v.opener = if c ∈ marks then some c else none := by
    intro hatom hopener
    obtain ⟨hne, hbare⟩ := bare_atom floats hatom
    obtain ⟨c, rest, htext⟩ := List.exists_cons_of_ne_nil hne
    rw [htext] at hbare ⊢
    have hc : c ∉ marks := hbare c List.mem_cons_self
    refine ⟨c, rest ++ x, List.cons_append, ?_, ?_⟩
    · rintro rfl
      exact hc (by decide)
    · rw [hopener, if_neg hc]
  cases v with
  | str s => exact ⟨'"', s.toList.flatMap escape ++ ['"'] ++ x, by rw [dumps]; rfl, by decide, rfl⟩
  | arr items => exact ⟨'[', _, by rw [dumps_arr]; rfl, by decide, rfl⟩
  | obj fields => exact ⟨'{', _, by rw [dumps_obj]; rfl, by decide, rfl⟩
  | null | bool | int | float => exact hatom rfl rfl

/-- Texts that agree are of values of one kind. -/
theorem opener_congr {v v' : Json} {x y : List Char} (h : dumps floats v ++ x = dumps floats v' ++ y) :
    v.opener = v'.opener := by
  obtain ⟨c, rest, htext, -, hopener⟩ := exists_head floats v x
  obtain ⟨c', rest', htext', -, hopener'⟩ := exists_head floats v' y
  obtain ⟨rfl, -⟩ := List.cons.inj (htext.symm.trans (h.trans htext'))
  rw [hopener, hopener']

theorem dumps_ne_close (v : Json) (x y : List Char) : dumps floats v ++ x ≠ ']' :: y := by
  obtain ⟨c, rest, htext, hc, -⟩ := exists_head floats v x
  rw [htext]
  exact fun h => hc (List.cons.inj h).1

theorem sameItems_iff {items items' : List Json} :
    SameItems items items' ↔ List.Forall₂ Same items items' := by
  induction items generalizing items' with
  | nil => cases items' <;> simp [SameItems]
  | cons value rest ih => cases items' <;> simp [SameItems, ih]

theorem sameFields_iff {fields fields' : List (String × Json)} :
    SameFields fields fields' ↔
      List.Forall₂ (fun field field' => field.1 = field'.1 ∧ Same field.2 field'.2) fields fields' := by
  induction fields generalizing fields' with
  | nil => cases fields' <;> simp [SameFields]
  | cons field rest ih => cases fields' <;> simp [SameFields, ih, and_assoc]

theorem same_of_atom {v : Json} (h : v.atom = true) : Same v v := by
  cases v with
  | null => trivial
  | bool | int | float => rfl
  | str | arr | obj => cases h

/-- A value can be read off the front of what it is followed by, if that begins with a separator or a
bracket. -/
theorem reads (v : Json) : ∀ v' x y, Stops [',', ']', '}'] x → Stops [',', ']', '}'] y →
    dumps floats v ++ x = dumps floats v' ++ y → Same v v' ∧ x = y := by
  induction v using induction with
  | hatom v hv =>
      intro v' x y hx hy h
      have hopener := opener_congr h
      have hv' : v'.atom = true := by
        cases v with
        | null | bool | int | float => cases v' with
          | null | bool | int | float => rfl
          | str | arr | obj => cases hopener
        | str | arr | obj => cases hv
      have hstops : ∀ {v : Json}, v.atom = true → ∀ c ∈ dumps floats v, c ∉ [',', ']', '}'] := by
        intro v hv c hc hstop
        have hmarks : ∀ c ∈ [',', ']', '}'], c ∈ marks := by simp [marks]
        exact (bare_atom floats hv).2 c hc (hmarks c hstop)
      obtain ⟨htext, hrest⟩ := append_inj_of_stops (hstops hv) (hstops hv') hx hy h
      obtain rfl := atom_inj hv hv' htext
      exact ⟨same_of_atom hv, hrest⟩
  | hstr s =>
      intro v' x y hx hy h
      have hopener := opener_congr h
      cases v' with
      | str s' =>
          rw [dumps, dumps] at h
          exact quote_inj h
      | null | bool | int | float | arr | obj => cases hopener
  | harr items ih =>
      intro v' x y hx hy h
      have hopener := opener_congr h
      cases v' with
      | arr items' =>
          rw [dumps_arr, dumps_arr] at h
          simp only [List.cons_append, List.append_assoc, List.nil_append, List.cons.injEq, true_and] at h
          have hread := intercalate_inj (R := Same) (by decide) dumps_ne_close (fun value hmem v' x y hx hy => by
            apply ih value hmem v' x y
            · exact hx.mono (by simp)
            · exact hy.mono (by simp)) h
          rw [Same, sameItems_iff]
          exact hread
      | null | bool | int | float | str | obj => cases hopener
  | hobj fields ih =>
      intro v' x y hx hy h
      have hopener := opener_congr h
      cases v' with
      | obj fields' =>
          rw [dumps_obj, dumps_obj] at h
          simp only [List.cons_append, List.append_assoc, List.nil_append, List.cons.injEq, true_and] at h
          have hread := intercalate_inj
            (R := fun field field' : String × Json => field.1 = field'.1 ∧ Same field.2 field'.2)
            (by decide) (fun field x y => by simp [member, quote]) (fun field hmem field' x y hx hy heq => by
              simp only [member, List.append_assoc, List.cons_append] at heq
              obtain ⟨hkey, hvalue⟩ := quote_inj heq
              have hmem' : field ∈ fields := (List.mem_insertionSort _).mp hmem
              obtain ⟨hsame, hrest⟩ := ih field hmem' field'.2 x y (hx.mono (by simp)) (hy.mono (by simp))
                (List.cons.inj hvalue).2
              exact ⟨⟨hkey, hsame⟩, hrest⟩) h
          obtain ⟨hsorted, hrest⟩ := hread
          obtain ⟨matched, hmatched, hperm⟩ :=
            List.perm_comp_forall₂ (List.perm_insertionSort _ fields).symm hsorted
          refine ⟨?_, hrest⟩
          rw [Same]
          refine ⟨matched, hperm.trans (List.perm_insertionSort _ fields'), sameFields_iff.mpr hmatched⟩
      | null | bool | int | float | str | arr => cases hopener

/-! ### Equal values have one text -/

theorem dictsItems_iff {items : List Json} : DictsItems items ↔ ∀ v ∈ items, Dicts v := by
  induction items with
  | nil => simp [DictsItems]
  | cons value rest ih => simp [DictsItems, ih]

theorem dictsFields_iff {fields : List (String × Json)} :
    DictsFields fields ↔ ∀ field ∈ fields, Dicts field.2 := by
  induction fields with
  | nil => simp [DictsFields]
  | cons field rest ih => simp [DictsFields, ih]

/-- The order of the fields of a dictionary is lost when they are sorted. -/
theorem sortKeys_perm {α : Type} {fields fields' : List (String × α)} (hnodup : (fields.map Prod.fst).Nodup)
    (h : fields.Perm fields') : sortKeys fields = sortKeys fields' := by
  have hpairwise : ∀ fields : List (String × α),
      (sortKeys fields).Pairwise fun field field' => field.1 ≤ field'.1 := by
    intro fields
    have : Std.Total fun field field' : String × α => field.1 ≤ field'.1 := ⟨fun _ _ => le_total _ _⟩
    have : IsTrans (String × α) fun field field' => field.1 ≤ field'.1 := ⟨fun _ _ _ => le_trans⟩
    exact List.pairwise_insertionSort _ fields
  have hperm : (sortKeys fields).Perm (sortKeys fields') :=
    (List.perm_insertionSort _ fields).trans (h.trans (List.perm_insertionSort _ fields').symm)
  apply List.Perm.eq_of_pairwise _ (hpairwise fields) (hpairwise fields') hperm
  intro field field' hmem hmem' hle hge
  have hfield : field ∈ fields := (List.mem_insertionSort _).mp hmem
  have hfield' : field' ∈ fields := h.mem_iff.mpr ((List.mem_insertionSort _).mp hmem')
  exact List.inj_on_of_nodup_map hnodup hfield hfield' (le_antisymm hle hge)

theorem eq_of_same_atom {v v' : Json} (hv : v.atom = true) (h : Same v v') : v = v' := by
  cases v with
  | null => cases v' with
    | null => rfl
    | bool | int | float | str | arr | obj => cases h
  | bool value => cases v' with
    | bool value' => exact congrArg Json.bool h
    | null | int | float | str | arr | obj => cases h
  | int value => cases v' with
    | int value' => exact congrArg Json.int h
    | null | bool | float | str | arr | obj => cases h
  | float value => cases v' with
    | float value' => exact congrArg Json.float h
    | null | bool | int | str | arr | obj => cases h
  | str | arr | obj => cases hv

theorem dumps_congr (v : Json) : Dicts v → ∀ v', Same v v' → dumps floats v = dumps floats v' := by
  induction v using induction with
  | hatom v hv =>
      intro _ v' h
      rw [eq_of_same_atom hv h]
  | hstr s =>
      intro _ v' h
      cases v' with
      | str s' => exact congrArg (fun s => dumps floats (.str s)) h
      | null | bool | int | float | arr | obj => cases h
  | harr items ih =>
      intro hdicts v' h
      cases v' with
      | arr items' =>
          rw [Same, sameItems_iff] at h
          rw [Dicts, dictsItems_iff] at hdicts
          have hitems : items.map (dumps floats) = items'.map (dumps floats) := by
            induction h with
            | nil => rfl
            | cons hsame _ ihrest =>
                obtain ⟨hvalue, hrest⟩ := List.forall_mem_cons.mp hdicts
                obtain ⟨ihvalue, ihitems⟩ := List.forall_mem_cons.mp ih
                rw [List.map_cons, List.map_cons, ihvalue hvalue _ hsame, ihrest ihitems hrest]
          rw [dumps_arr, dumps_arr, hitems]
      | null | bool | int | float | str | obj => cases h
  | hobj fields ih =>
      intro hdicts v' h
      cases v' with
      | obj fields' =>
          rw [Same] at h
          obtain ⟨matched, hperm, hmatched⟩ := h
          rw [sameFields_iff] at hmatched
          rw [Dicts, dictsFields_iff] at hdicts
          obtain ⟨hnodup, hdicts⟩ := hdicts
          have hfields : dumpFields floats fields = dumpFields floats matched := by
            clear hnodup hperm
            induction hmatched with
            | nil => rfl
            | @cons field field' _ _ hsame _ ihrest =>
                obtain ⟨hvalue, hrest⟩ := List.forall_mem_cons.mp hdicts
                obtain ⟨ihvalue, ihfields⟩ := List.forall_mem_cons.mp ih
                rw [dumpFields, dumpFields, ihrest ihfields hrest, hsame.1, ihvalue hvalue _ hsame.2]
          have hsorted : sortKeys (dumpFields floats matched) = sortKeys (dumpFields floats fields') := by
            apply sortKeys_perm
            · rw [← hfields, dumpFields_eq, List.map_map]
              exact hnodup
            · rw [dumpFields_eq, dumpFields_eq]
              exact hperm.map _
          rw [dumps, dumps, hfields, hsorted]
      | null | bool | int | float | str | arr => cases h

/-- The canonical text determines a value up to the order of the keys of its objects, and is determined by
it. -/
theorem dumps_eq_iff (floats : FloatText) {v v' : Json} (h : v.Dicts) : dumps floats v = dumps floats v' ↔ Same v v' := by
  constructor
  · intro heq
    have hend : Stops [',', ']', '}'] ([] : List Char) := fun c hc => nomatch hc
    exact (reads v v' [] [] hend hend (by rw [heq])).1
  · exact dumps_congr v h v'

end Bass.Json

namespace Bass

open Json

/-! ### Keys -/

/-- A trigger is keyed by its own id, or else by its hash. -/
theorem deriveIdempotencyKey_eq (builtins : Builtins) (e : Trigger) :
    deriveIdempotencyKey builtins e = match Trigger.source e with
      | some (_, value) => builtins.str value
      | none => Trigger.hashed builtins e := by
  have hvalues : (["idempotency_key", "message_id", "delivery_id", "id"].findSome? fun field =>
      (e.get? field).filter Json.truthy) = (Trigger.source e).map Prod.snd := by
    unfold Trigger.source
    rw [List.map_findSome?]
    congr 1
    funext field
    simp [Function.comp_def]
  unfold deriveIdempotencyKey
  rw [hvalues]
  cases Trigger.source e <;> rfl

/-- What is assumed of the hash on two events: their truncated digests do not collide, and the id of
neither has the form of the digest of the other. -/
structure HashesApart (builtins : Builtins) (e e' : Trigger) : Prop where
  collisionFree : Trigger.hashed builtins e = Trigger.hashed builtins e' →
    builtins.canonical e.rows = builtins.canonical e'.rows
  left : ∀ field value, Trigger.source e = some (field, value) →
    builtins.str value ≠ Trigger.hashed builtins e'
  right : ∀ field value, Trigger.source e' = some (field, value) →
    builtins.str value ≠ Trigger.hashed builtins e

variable {floats : FloatText} {repr : Json → String} {sha256 : String → String}

/-- Two events have one key exactly when their ids have one text, or neither has an id and they are equal
up to the order of the keys of objects. -/
theorem idempotencyKey_eq_iff {e e' : Trigger} (hdicts : (Json.obj e.rows).Dicts)
    (hapart : HashesApart (floats.builtins repr sha256) e e') :
    deriveIdempotencyKey (floats.builtins repr sha256) e = deriveIdempotencyKey (floats.builtins repr sha256) e' ↔
      (∃ field value field' value', Trigger.source e = some (field, value) ∧
        Trigger.source e' = some (field', value') ∧
        (floats.builtins repr sha256).str value = (floats.builtins repr sha256).str value') ∨
      (Trigger.source e = none ∧ Trigger.source e' = none ∧ Same (.obj e.rows) (.obj e'.rows)) := by
  rw [deriveIdempotencyKey_eq, deriveIdempotencyKey_eq, ← dumps_eq_iff floats hdicts]
  cases hsource : Trigger.source e with
  | some id =>
      obtain ⟨field, value⟩ := id
      cases hsource' : Trigger.source e' with
      | some id' =>
          obtain ⟨field', value'⟩ := id'
          simp
      | none =>
          have hne := hapart.left field value hsource
          simp [hne]
  | none =>
      cases hsource' : Trigger.source e' with
      | some id' =>
          obtain ⟨field', value'⟩ := id'
          have hne := hapart.right field' value' hsource'
          simp [hne.symm]
      | none =>
          have hcanonical : ∀ e : Trigger, (floats.builtins repr sha256).canonical e.rows =
              String.ofList (dumps floats (.obj e.rows)) := fun _ => rfl
          constructor
          · intro h
            have htext := hapart.collisionFree h
            rw [hcanonical, hcanonical] at htext
            exact Or.inr ⟨rfl, rfl, String.ofList_injective htext⟩
          · rintro (⟨_, _, _, _, h, -⟩ | ⟨-, -, h⟩)
            · cases h
            · unfold Trigger.hashed
              rw [hcanonical, hcanonical, h]

/-! ### Two orders of one event -/

/-- Floats as fractions, for events that have none. -/
def FloatText.fractions : FloatText where
  repr := fun value => toString value.num ++ "." ++ toString (value.den : Int)
  injective := by
    intro value value' h
    have htext := congrArg String.toList h
    simp only [String.toList_append, List.append_assoc] at htext
    obtain ⟨hnum, hden⟩ := Text.append_cons_inj (a := '.') (Text.notMem_toString (by decide) (by decide))
      (Text.notMem_toString (by decide) (by decide)) htext
    apply Rat.ext
    · exact Text.toString_injective (String.toList_injective hnum)
    · exact Int.ofNat.inj (Text.toString_injective (String.toList_injective hden))
  numeric := by
    intro value c hc
    rw [String.toList_append, String.toList_append, List.mem_append, List.mem_append] at hc
    have hint : ∀ n : Int, c ∈ (toString n).toList → c.isDigit = true ∨ c ∈ ['.', 'e', '+', '-'] := by
      intro n hmem
      simpa [Json.numeric] using numeric_int n c hmem
    rcases hc with (hc | hc) | hc
    · exact hint _ hc
    · rw [List.mem_singleton.mp hc]
      decide
    · exact hint _ hc
  fractional := by
    intro value
    simp
  signed := by
    intro value h
    have htext : (toString value.num).toList ++ '.' :: (toString (value.den : Int)).toList =
        ['-', '0'] ++ '.' :: ['0'] := by
      have htext := congrArg String.toList h
      rw [String.toList_append, String.toList_append, List.append_assoc] at htext
      exact htext
    obtain ⟨-, hden⟩ := Text.append_cons_inj (Text.notMem_toString (by decide) (by decide)) (by decide) htext
    have hzero : (value.den : Int) = 0 := Text.toString_injective (String.toList_injective hden)
    exact value.den_nz (Int.ofNat.inj hzero)

def orderEvent : Trigger :=
  Dict.ofList [("vendor", .str "Globex"), ("order", .obj [("number", .int 7), ("paid", .bool true)])]

def reorderedEvent : Trigger :=
  Dict.ofList [("order", .obj [("paid", .bool true), ("number", .int 7)]), ("vendor", .str "Globex")]

/-- `str` of an integer, and the digests of the texts of the events below, which differ in length. -/
def sampleBuiltins : Builtins :=
  FloatText.fractions.builtins
    (fun value => match value with
      | .int n => toString n
      | _ => "")
    (fun text => match text.length with
      | 52 => "493450091dbbd53d33cf1ca693fe558df115b2cf3d42bd125b981e461a4c8426"
      | 18 => "7af2f43be8490670851dfcdb70e0d9643961cfd4fab75d5f93aa43e5552081a6"
      | 10 => "5e2b92cc57ce618dfbb54844a31775e4b95c6fb552ee6bf5a068133c12d2ad90"
      | 9 => "451973eae50e0e18bc1e8a4bd66bf035306c435164af0b41ceaf3a0ab918bd08"
      | _ => "49d842da3d840223e8a8216881d356227faf8fdb1a4ed9b634f8821a6bd01e99")

theorem source_orderEvent : Trigger.source orderEvent = none ∧ Trigger.source reorderedEvent = none := by
  constructor <;> simp [orderEvent, reorderedEvent, Trigger.source, List.findSome?, Dict.ofList, Dict.get?,
    Dict.set, Table.find?, Table.update, Table.insert, Table.empty]

theorem idempotencyKey_eq_iff_orderEvent :
    deriveIdempotencyKey sampleBuiltins orderEvent = deriveIdempotencyKey sampleBuiltins reorderedEvent := by
  have hrows : orderEvent.rows =
      [("vendor", .str "Globex"), ("order", .obj [("number", .int 7), ("paid", .bool true)])] := rfl
  have hrows' : reorderedEvent.rows =
      [("order", .obj [("paid", .bool true), ("number", .int 7)]), ("vendor", .str "Globex")] := rfl
  obtain ⟨hnone, hnone'⟩ := source_orderEvent
  refine (idempotencyKey_eq_iff ?_ ?_).mpr (Or.inr ⟨hnone, hnone', ?_⟩)
  · rw [hrows]
    simp [Dicts, DictsFields]
  · refine ⟨fun _ => by decide +kernel, fun _ _ h => ?_, fun _ _ h => ?_⟩
    · rw [hnone] at h
      cases h
    · rw [hnone'] at h
      cases h
  · rw [hrows, hrows', Same]
    refine ⟨[("vendor", .str "Globex"), ("order", .obj [("paid", .bool true), ("number", .int 7)])],
      List.Perm.swap _ _ _, rfl, rfl, rfl, ?_, trivial⟩
    rw [Same]
    exact ⟨[("number", .int 7), ("paid", .bool true)], List.Perm.swap _ _ _, rfl, rfl, rfl, rfl, trivial⟩

/-! ### One text of two ids -/

/-- The events have one key exactly when one field of both holds their id, with one value, or neither has an
id and they are equal up to the order of the keys of objects. -/
def KeyedBySource (builtins : Builtins) (e e' : Trigger) : Prop :=
  deriveIdempotencyKey builtins e = deriveIdempotencyKey builtins e' ↔
    (∃ field value, Trigger.source e = some (field, value) ∧ Trigger.source e' = some (field, value)) ∨
      (Trigger.source e = none ∧ Trigger.source e' = none ∧ Same (.obj e.rows) (.obj e'.rows))

/-- An event with nothing but an id. -/
def idEvent (field : String) (value : Json) : Trigger := Dict.ofList [(field, value)]

theorem source_idEvent : Trigger.source (idEvent "message_id" (.str "x")) = some ("message_id", .str "x") ∧
    (∀ text, text ≠ "" → Trigger.source (idEvent "id" (.str text)) = some ("id", .str text)) ∧
    Trigger.source (idEvent "id" (.int 10)) = some ("id", .int 10) := by
  refine ⟨?_, fun text htext => ?_, ?_⟩ <;> simp [idEvent, Trigger.source, List.findSome?, Dict.ofList,
    Dict.get?, Dict.set, Table.find?, Table.update, Table.insert, Table.empty, Option.filter, Json.truthy, *]

/-- The key keeps neither the field of an id nor its type. -/
theorem id_conflated :
    (HashesApart sampleBuiltins (idEvent "message_id" (.str "x")) (idEvent "id" (.str "x")) ∧
      ¬KeyedBySource sampleBuiltins (idEvent "message_id" (.str "x")) (idEvent "id" (.str "x"))) ∧
    HashesApart sampleBuiltins (idEvent "id" (.int 10)) (idEvent "id" (.str "10")) ∧
      ¬KeyedBySource sampleBuiltins (idEvent "id" (.int 10)) (idEvent "id" (.str "10")) := by
  obtain ⟨hmessage, htext, hint⟩ := source_idEvent
  have hx := htext "x" (by decide)
  have hone := htext "10" (by decide)
  refine ⟨⟨⟨fun h => ?_, ?_, ?_⟩, fun h => ?_⟩, ⟨fun h => ?_, ?_, ?_⟩, fun h => ?_⟩
  · exact absurd h (by decide +kernel)
  · intro field value hsource
    cases hmessage.symm.trans hsource
    decide +kernel
  · intro field value hsource
    cases hx.symm.trans hsource
    decide +kernel
  · rcases h.mp (by decide +kernel) with ⟨field, value, h₁, h₂⟩ | ⟨h₁, -⟩
    · cases hmessage.symm.trans h₁
      exact absurd (hx.symm.trans h₂) (by simp)
    · cases hmessage.symm.trans h₁
  · exact absurd h (by decide +kernel)
  · intro field value hsource
    cases hint.symm.trans hsource
    decide +kernel
  · intro field value hsource
    cases hone.symm.trans hsource
    decide +kernel
  · rcases h.mp (by decide +kernel) with ⟨field, value, h₁, h₂⟩ | ⟨h₁, -⟩
    · cases hint.symm.trans h₁
      cases hone.symm.trans h₂
    · cases hint.symm.trans h₁

end Bass
