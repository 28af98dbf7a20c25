import Bass.Schedule

/-!
# The cron language

The expressions that the matcher's documentation describes, as data: how they are written, and which
minutes they denote. Nothing here is taken from the matcher.
-/

namespace Bass

namespace Cron

/-- A decimal number as it is written, leading zeros included. -/
structure Decimal where
  digits : List Char
  nonempty : digits ≠ []
  decimal : ∀ c ∈ digits, c.isDigit = true

def Decimal.value (n : Decimal) : Nat := Nat.ofDigitChars 10 n.digits 0

inductive Base where
  | star
  | literal (a : Decimal)
  | span (a b : Decimal)

namespace Base

def text : Base → List Char
  | star => ['*']
  | literal a => a.digits
  | span a b => a.digits ++ '-' :: b.digits

def first (lo : Nat) : Base → Nat
  | star => lo
  | literal a => a.value
  | span a _ => a.value

def last (hi : Nat) : Base → Nat
  | star => hi
  | literal a => a.value
  | span _ b => b.value

end Base

/-- A base, and every how manyth of its values is meant. -/
structure Part where
  base : Base
  step : Option Decimal
  positive : ∀ n ∈ step, 0 < n.value

namespace Part

def text (part : Part) : List Char :=
  match part.step with
  | none => part.base.text
  | some n => part.base.text ++ '/' :: n.digits

def stride (part : Part) : Nat :=
  match part.step with
  | none => 1
  | some n => n.value

theorem stride_pos (part : Part) : 0 < part.stride := by
  unfold stride
  split
  · exact one_pos
  · exact part.positive _ (by assumption)

def Denotes (lo hi : Nat) (part : Part) (v : Nat) : Prop :=
  part.base.first lo ≤ v ∧ v ≤ part.base.last hi ∧ part.stride ∣ v - part.base.first lo

instance (lo hi : Nat) (part : Part) (v : Nat) : Decidable (part.Denotes lo hi v) :=
  inferInstanceAs (Decidable (_ ≤ _ ∧ _ ≤ _ ∧ _ ∣ _))

/-- One of the documented forms, its numbers in order and inside the range. -/
def Documented (lo hi : Nat) (part : Part) : Prop :=
  match part.base with
  | .star => True
  | .literal a => part.step = none ∧ lo ≤ a.value ∧ a.value ≤ hi
  | .span a b => lo ≤ a.value ∧ a.value ≤ b.value ∧ b.value ≤ hi

end Part

structure Field where
  parts : List Part
  nonempty : parts ≠ []

namespace Field

def text (field : Field) : List Char := [','].intercalate (field.parts.map Part.text)

/-- The values of the range that some part of the field denotes. -/
def Denotes (lo hi : Nat) (field : Field) (v : Nat) : Prop :=
  lo ≤ v ∧ v ≤ hi ∧ ∃ part ∈ field.parts, part.Denotes lo hi v

instance (lo hi : Nat) (field : Field) (v : Nat) : Decidable (field.Denotes lo hi v) :=
  inferInstanceAs (Decidable (_ ≤ _ ∧ _ ≤ _ ∧ ∃ part ∈ field.parts, part.Denotes lo hi v))

def Restricted (field : Field) : Prop := field.text ≠ ['*']

instance (field : Field) : Decidable field.Restricted := inferInstanceAs (Decidable (_ ≠ _))

def Documented (lo hi : Nat) (field : Field) : Prop := ∀ part ∈ field.parts, part.Documented lo hi

end Field

structure Expression where
  minute : Field
  hour : Field
  dom : Field
  month : Field
  dow : Field

namespace Expression

def fields (e : Expression) : List (List Char) :=
  [e.minute.text, e.hour.text, e.dom.text, e.month.text, e.dow.text]

/-- The fields, joined by spaces. -/
def text (e : Expression) : String := String.ofList ([' '].intercalate e.fields)

/-- Sunday is 0. -/
def weekday (dt : DateTime) : Nat := (dt.weekday + 1) % 7

/-- Two restricted day fields are alternatives. -/
def MatchesDay (e : Expression) (dt : DateTime) : Prop :=
  if e.dom.Restricted ∧ e.dow.Restricted then
    e.dom.Denotes 1 31 dt.day ∨ e.dow.Denotes 0 6 (weekday dt)
  else
    (e.dom.Restricted → e.dom.Denotes 1 31 dt.day) ∧ (e.dow.Restricted → e.dow.Denotes 0 6 (weekday dt))

instance (e : Expression) (dt : DateTime) : Decidable (e.MatchesDay dt) :=
  inferInstanceAs (Decidable (if _ ∧ _ then _ ∨ _ else (_ → _) ∧ (_ → _)))

def Matches (e : Expression) (dt : DateTime) : Prop :=
  e.minute.Denotes 0 59 dt.minute ∧ e.hour.Denotes 0 23 dt.hour ∧ e.month.Denotes 1 12 dt.month ∧
    e.MatchesDay dt

instance (e : Expression) (dt : DateTime) : Decidable (e.Matches dt) :=
  inferInstanceAs (Decidable (_ ∧ _ ∧ _ ∧ _))

def Documented (e : Expression) : Prop :=
  e.minute.Documented 0 59 ∧ e.hour.Documented 0 23 ∧ e.dom.Documented 1 31 ∧ e.month.Documented 1 12 ∧
    e.dow.Documented 0 6

end Expression

end Cron

end Bass
