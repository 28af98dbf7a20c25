import Bass.Services
import Mathlib.Data.List.Sort
import Mathlib.Data.String.Basic

/-!
# Canonical texts of events

`json.dumps(event, sort_keys=True, separators=(",", ":"))`, the text that is hashed for an event without
an id of its own. Only the text of a float is left to the interpreter.
-/

namespace Bass

/-- `float.__repr__` on finite values: the text reads back as the value, and it is a number with a point or
an exponent. -/
structure FloatText where
  repr : ℚ → String
  injective : Function.Injective repr
  numeric : ∀ value, ∀ c ∈ (repr value).toList, c.isDigit = true ∨ c ∈ ['.', 'e', '+', '-']
  fractional : ∀ value, '.' ∈ (repr value).toList ∨ 'e' ∈ (repr value).toList
  signed : ∀ value, repr value ≠ "-0.0"

def FloatText.text (floats : FloatText) : PyFloat → String
  | .finite value => floats.repr value
  | .negZero => "-0.0"
  | .posInf => "Infinity"
  | .negInf => "-Infinity"
  | .nan => "NaN"

namespace Json

/-! ### Strings -/

/-- Four hexadecimal digits. -/
def hex4 (n : Nat) : List Char :=
  [Nat.digitChar (n / 4096), Nat.digitChar (n / 256 % 16), Nat.digitChar (n / 16 % 16), Nat.digitChar (n % 16)]

/-- The characters with an escape of two characters. -/
def shortEscapes : List (Char × Char) :=
  [('"', '"'), ('\\', '\\'), ('\n', 'n'), ('\r', 'r'), ('\t', 't'), ('\x08', 'b'), ('\x0c', 'f')]

/-- One character of a string with `ensure_ascii`. -/
def escape (c : Char) : List Char :=
  match shortEscapes.lookup c with
  | some letter => ['\\', letter]
  | none =>
      if 32 ≤ c.toNat ∧ c.toNat ≤ 126 then [c]
      else if c.toNat < 65536 then '\\' :: 'u' :: hex4 c.toNat
      else
        -- A surrogate pair.
        let n := c.toNat - 65536
        '\\' :: 'u' :: (hex4 (55296 + n / 1024) ++ '\\' :: 'u' :: hex4 (56320 + n % 1024))

def quote (text : String) : List Char := '"' :: (text.toList.flatMap escape ++ ['"'])

/-! ### Values -/

/-- `sort_keys=True`: strings are compared by code points. -/
def sortKeys {α : Type} (fields : List (String × α)) : List (String × α) :=
  fields.insertionSort fun field field' => field.1 ≤ field'.1

def member (field : String × List Char) : List Char := quote field.1 ++ ':' :: field.2

variable (floats : FloatText)

mutual

def dumps : Json → List Char
  | .null => "null".toList
  | .bool true => "true".toList
  | .bool false => "false".toList
  | .int value => (toString value).toList
  | .float value => (floats.text value).toList
  | .str value => quote value
  | .arr items => '[' :: ([','].intercalate (dumpItems items) ++ [']'])
  | .obj fields => '{' :: ([','].intercalate ((sortKeys (dumpFields fields)).map member) ++ ['}'])

def dumpItems : List Json → List (List Char)
  | [] => []
  | value :: rest => dumps value :: dumpItems rest

def dumpFields : List (String × Json) → List (String × List Char)
  | [] => []
  | (key, value) :: rest => (key, dumps value) :: dumpFields rest

end

/-! ### Equal events -/

mutual

/-- Every object in the value is a dictionary: no key occurs twice. -/
def Dicts : Json → Prop
  | .arr items => DictsItems items
  | .obj fields => (fields.map Prod.fst).Nodup ∧ DictsFields fields
  | _ => True

def DictsItems : List Json → Prop
  | [] => True
  | value :: rest => Dicts value ∧ DictsItems rest

def DictsFields : List (String × Json) → Prop
  | [] => True
  | (_, value) :: rest => Dicts value ∧ DictsFields rest

end

mutual

/-- Equality up to the order of the keys of objects. -/
def Same : Json → Json → Prop
  | .null, .null => True
  | .bool value, .bool value' => value = value'
  | .int value, .int value' => value = value'
  | .float value, .float value' => value = value'
  | .str value, .str value' => value = value'
  | .arr items, .arr items' => SameItems items items'
  | .obj fields, .obj fields' => ∃ matched, matched.Perm fields' ∧ SameFields fields matched
  | _, _ => False

def SameItems : List Json → List Json → Prop
  | [], [] => True
  | value :: rest, value' :: rest' => Same value value' ∧ SameItems rest rest'
  | _, _ => False

/-- The same keys in the same order, with equal values. -/
def SameFields : List (String × Json) → List (String × Json) → Prop
  | [], [] => True
  | (key, value) :: rest, (key', value') :: rest' =>
      key = key' ∧ Same value value' ∧ SameFields rest rest'
  | _, _ => False

end

end Json

/-- The built-in functions, with `json.dumps` as it is. -/
def FloatText.builtins (floats : FloatText) (repr : Json → String) (sha256 : String → String) : Builtins :=
  { repr := repr
    canonical := fun fields => String.ofList (Json.dumps floats (.obj fields))
    sha256 := sha256 }

/-! ### Where the key of an event comes from -/

/-- The first of the four fields that has a truthy value, and the value. -/
def Trigger.source (trigger : Trigger) : Option (String × Json) :=
  ["idempotency_key", "message_id", "delivery_id", "id"].findSome? fun field =>
    ((trigger.get? field).filter Json.truthy).map fun value => (field, value)

/-- The key of an event that has no id of its own. -/
def Trigger.hashed (builtins : Builtins) (trigger : Trigger) : String :=
  "sha256:" ++ String.ofList ((builtins.sha256 (builtins.canonical trigger.rows)).toList.take 24)

end Bass
