import Bass.Auth
import Bass.Schedule
import Mathlib.Data.Int.Log

/-!
# The reference ruleset

`default_policies` of `policy.py`. Its threshold rule applies the constructor `float` to whatever was sent
as the amount, so the constructor is modelled on every JSON value, with the texts it reads.
-/

namespace Bass

/-! ### Floats -/

namespace PyFloat

/-- The distance between the doubles around `x`. -/
def ulp (x : ℚ) : ℚ := 2 ^ max (Int.log 2 |x| - 52) (-1074)

/-- The double of a decimal text with this magnitude: the nearest one, the even one of two. -/
def ofMagnitude (negative : Bool) (x : ℚ) : PyFloat :=
  let value := roundHalfEven (x / ulp x) * ulp x
  if 2 ^ 1024 ≤ value then if negative then .negInf else .posInf
  else if negative then if value = 0 then .negZero else .finite (-value)
  else .finite value

/-- `x > t`. -/
def exceeds (t : ℚ) : PyFloat → Bool
  | .finite value => t < value
  | .negZero => t < 0
  | .posInf => true
  | .negInf | .nan => false

/-- `x <= t`. -/
def atMost (t : ℚ) : PyFloat → Bool
  | .finite value => value ≤ t
  | .negZero => 0 ≤ t
  | .negInf => true
  | .posInf | .nan => false

end PyFloat

namespace TextRules

variable (rules : TextRules)

/-- One character of `_PyUnicode_TransformDecimalAndSpaceToASCII`. -/
def toAscii (c : Char) : Char :=
  if c.toNat < 127 then c
  else if rules.space c then ' '
  else match rules.decimal c with
    | some digit => Nat.digitChar digit
    | none => '?'

/-- `Py_ISSPACE`. -/
def asciiSpace (c : Char) : Bool := decide (9 ≤ c.toNat ∧ c.toNat ≤ 13 ∨ c.toNat = 32)

/-- The text without its underscores, each of which has to stand between two digits. `prev` is the
character in front of the text. -/
def dropUnderscores (prev : Char) : List Char → Option (List Char)
  | [] => if prev = '_' then none else some []
  | c :: rest =>
      if c = '_' then if prev.isDigit then dropUnderscores c rest else none
      else if prev = '_' ∧ !c.isDigit then none
      else (c :: ·) <$> dropUnderscores c rest

/-- The value of a text of ASCII digits. -/
def digitsValue (digits : List Char) : Nat := Nat.ofDigitChars 10 digits 0

/-- What may follow the digits of a number: nothing, or an exponent. -/
def exponent : List Char → Option Int
  | [] => some 0
  | c :: rest =>
      let (sign, digits) : Int × List Char := match rest with
        | '+' :: digits => (1, digits)
        | '-' :: digits => (-1, digits)
        | digits => (1, digits)
      if c.toLower = 'e' ∧ digits ≠ [] ∧ digits.all Char.isDigit then some (sign * digitsValue digits)
      else none

/-- An unsigned decimal number. -/
def magnitude (text : List Char) : Option ℚ :=
  let whole := text.takeWhile Char.isDigit
  let (fraction, rest) := match text.dropWhile Char.isDigit with
    | '.' :: rest => (rest.takeWhile Char.isDigit, rest.dropWhile Char.isDigit)
    | rest => ([], rest)
  if whole = [] ∧ fraction = [] then none
  else (exponent rest).map fun e => (digitsValue (whole ++ fraction) : ℚ) * 10 ^ (e - (fraction.length : Int))

/-- The sign in front of a number. -/
def signed : List Char → Bool × List Char
  | '+' :: word => (false, word)
  | '-' :: word => (true, word)
  | word => (false, word)

/-- The number that a trimmed text stands for. -/
def readFloat (text : List Char) : Option PyFloat :=
  let (negative, word) := signed text
  match magnitude word with
  | some x => some (.ofMagnitude negative x)
  | none =>
      let name := String.ofList (word.map Char.toLower)
      if name = "inf" ∨ name = "infinity" then some (if negative then .negInf else .posInf)
      else if name = "nan" then some .nan
      else none

/-- The text of a number without the space around it. -/
def trimmed (text : String) : List Char :=
  ((text.toList.map rules.toAscii).dropWhile asciiSpace).rdropWhile asciiSpace

/-- `float(v)`. -/
def toFloat : Json → Except Exc PyFloat
  | .bool value => .ok (.finite (if value then 1 else 0))
  | .int value => .finite <$> Auth.floatOfInt value
  | .float value => .ok value
  | .str text =>
      match (dropUnderscores ' ' (rules.trimmed text)).bind readFloat with
      | some value => .ok value
      | none => .error (valueError ("could not convert string to float: " ++ rules.repr text))
  | .null => .error (.python "TypeError" "float() argument must be a string or a real number, not 'NoneType'")
  | .arr _ => .error (.python "TypeError" "float() argument must be a string or a real number, not 'list'")
  | .obj _ => .error (.python "TypeError" "float() argument must be a string or a real number, not 'dict'")

end TextRules

/-! ### The rules -/

def readOnlyOk : Policy where
  name := "read-only-ok"
  version := 1
  applies := fun _ tool _ _ => .ok !tool.sideEffect
  effect := .allow
  reason := "read-only tools are always permitted"
  priority := 10

def largeEntryNeedsApproval (rules : TextRules) : Policy where
  name := "large-ap-entry-needs-approval"
  version := 1
  applies := fun _ tool args _ =>
    if tool.name == "create_ap_entry" then
      (PyFloat.exceeds 5000 ·) <$> rules.toFloat ((args.get? "amount").getD (.int 0))
    else .ok false
  effect := .requireApproval
  reason := "AP entries over $5,000 require finance approval"
  approvers := ["finance-team"]
  priority := 20

def smallEntryOk : Policy where
  name := "small-ap-entry-ok"
  version := 1
  applies := fun _ tool _ _ => .ok (tool.name == "create_ap_entry")
  effect := .allow
  reason := "AP entries at or under $5,000 are auto-approved"
  priority := 30

def defaultPolicies (rules : TextRules) : List Policy :=
  [readOnlyOk, largeEntryNeedsApproval rules, smallEntryOk]

end Bass
