import Bass.Data.Regex
import Bass.Models

/-!
# Redaction

`redaction.py`: what the store applies to an event payload before it writes it. The character
classes of Python's `re` come from the interpreter's Unicode database; only their ASCII part is
fixed here.
-/

namespace Bass.Redaction

/-- The classes `\d`, `\w` and `\s`. -/
structure CharClasses where
  digit : Char → Bool
  word : Char → Bool
  space : Char → Bool
  digit_ascii : ∀ c : Char, c.toNat < 128 → digit c = c.isDigit
  word_ascii : ∀ c : Char, c.toNat < 128 → word c = (c.isAlphanum || c == '_')
  space_ascii : ∀ c : Char, c.toNat < 128 →
    space c = decide (9 ≤ c.toNat ∧ c.toNat ≤ 13 ∨ 28 ≤ c.toNat ∧ c.toNat ≤ 32)

/-- The classes without their part beyond ASCII. -/
def CharClasses.ascii : CharClasses where
  digit := Char.isDigit
  word := fun c => c.isAlphanum || c == '_'
  space := fun c => decide (9 ≤ c.toNat ∧ c.toNat ≤ 13 ∨ 28 ≤ c.toNat ∧ c.toNat ≤ 32)
  digit_ascii := fun _ _ => rfl
  word_ascii := fun _ _ => rfl
  space_ascii := fun _ _ => rfl

/-- The lower-case letter that `re.IGNORECASE` compares; four letters beyond ASCII fold into it. -/
def foldCase (c : Char) : Char :=
  if c.toNat = 0x130 ∨ c.toNat = 0x131 then 'i'
  else if c.toNat = 0x17f then 's'
  else if c.toNat = 0x212a then 'k'
  else c.toLower

def redacted : String := "***REDACTED***"

/-- A literal in lower case, compared without regard to case. -/
def ignoringCase (text : String) : Regex := Regex.literal (fun x c => foldCase c == x) text.toList

def exactly (text : String) : Regex := Regex.literal (fun x c => c == x) text.toList

/-- One or more characters of a class, as many as possible. -/
def some1 (p : Char → Bool) : Regex := .rep (.char p) 1 none true

/-- `_SECRET_KEYS`. -/
def secretKeys : Regex :=
  let separator := Regex.optionally (.char fun c => c == '_' || c == '-')
  Regex.anyOf
    [.seq (ignoringCase "pass") (Regex.optionally (ignoringCase "word")), ignoringCase "secret",
      ignoringCase "token", .seq (ignoringCase "api") (.seq separator (ignoringCase "key")),
      ignoringCase "authorization", ignoringCase "credential",
      .seq (ignoringCase "private") (.seq separator (ignoringCase "key"))]

def isSecretKey (key : String) : Bool := secretKeys.search key.toList

variable (classes : CharClasses)

def anthropicKey : Regex :=
  .seq (exactly "sk-ant-")
    (.rep (.char fun c => c.isAlphanum || c == '_' || c == '-') 8 none true)

def email : Regex :=
  .seq (.boundary classes.word) (.seq
    (some1 fun c => c.isAlphanum || ['.', '_', '%', '+', '-'].contains c) (.seq
    (exactly "@") (.seq
    (some1 fun c => c.isAlphanum || ['.', '-'].contains c) (.seq
    (exactly ".") (.seq
    (.rep (.char Char.isAlpha) 2 none true)
    (.boundary classes.word))))))

def cardNumber : Regex :=
  .seq (.boundary classes.word) (.seq
    (.rep (.seq (.char classes.digit) (.rep (.char fun c => c == ' ' || c == '-') 0 none false))
      13 (some 19) true)
    (.boundary classes.word))

def bearerToken : Regex :=
  .seq (.boundary classes.word) (.seq
    (ignoringCase "bearer") (.seq
    (some1 classes.space)
    (some1 fun c => (foldCase c).isAlphanum || ['.', '_', '-'].contains c)))

/-- `_VALUE_PATTERNS`. -/
def valuePatterns : List Regex :=
  [anthropicKey, email classes, cardNumber classes, bearerToken classes]

def scrubStr (value : String) : String :=
  String.ofList ((valuePatterns classes).foldl (fun out pat => pat.sub redacted.toList out)
    value.toList)

mutual

def redact : Json → Json
  | .obj fields => .obj (redactFields fields)
  | .arr items => .arr (redactItems items)
  | .str value => .str (scrubStr classes value)
  | value => value

def redactItems : List Json → List Json
  | [] => []
  | value :: rest => redact value :: redactItems rest

def redactFields : List (String × Json) → List (String × Json)
  | [] => []
  | (key, value) :: rest =>
      (key, if isSecretKey key then .str redacted else redact value) :: redactFields rest

end

/-! ### What redaction leaves alone -/

theorem consumes_exactly {text : String} {x : Char} {rest : List Char} (h : text.toList = x :: rest) :
    (exactly text).Consumes (· == x) 1 := by
  rw [exactly, h]
  exact .seq (m := 1) (n := 0) (.char fun c hc => hc) (.nothing _)

theorem anthropicKey_consumes : anthropicKey.Consumes (· == 's') 1 :=
  .seq (m := 1) (n := 0) (consumes_exactly rfl) (.nothing _)

theorem email_consumes : (email classes).Consumes (· == '@') 1 := by
  refine .seq (m := 0) (n := 1) (.nothing _) (.seq (m := 0) (n := 1) (.nothing _) ?_)
  exact .seq (m := 1) (n := 0) (consumes_exactly rfl) (.nothing _)

theorem cardNumber_consumes : (cardNumber classes).Consumes classes.digit 13 := by
  refine .seq (m := 0) (n := 13) (.nothing _) (.seq (m := 13) (n := 0) ?_ (.nothing _))
  exact .rep (n := 1) (.seq (m := 1) (n := 0) (.char fun c hc => hc) (.nothing _)) 13 _ _

theorem bearerToken_consumes : (bearerToken classes).Consumes classes.space 1 := by
  refine .seq (m := 0) (n := 1) (.nothing _) (.seq (m := 0) (n := 1) (.nothing _) ?_)
  refine .seq (m := 1) (n := 0) ?_ (.nothing _)
  exact .rep (n := 1) (.char fun c hc => hc) 1 _ _

/-- A text with no `s`, no `@` and no space and with fewer digits than a card number is kept. -/
theorem scrubStr_eq {value : String} (hs : value.toList.countP (· == 's') = 0)
    (hat : value.toList.countP (· == '@') = 0) (hdigits : value.toList.countP classes.digit < 13)
    (hspace : value.toList.countP classes.space = 0) : scrubStr classes value = value := by
  have hkey := anthropicKey_consumes.sub_eq (by omega : value.toList.countP (· == 's') < 1) redacted.toList
  have hemail := (email_consumes classes).sub_eq (by omega : value.toList.countP (· == '@') < 1)
    redacted.toList
  have hcard := (cardNumber_consumes classes).sub_eq hdigits redacted.toList
  have hbearer := (bearerToken_consumes classes).sub_eq
    (by omega : value.toList.countP classes.space < 1) redacted.toList
  rw [scrubStr, valuePatterns, List.foldl_cons, hkey, List.foldl_cons, hemail, List.foldl_cons, hcard,
    List.foldl_cons, hbearer, List.foldl_nil, String.ofList_toList]

/-- The id of an approval survives redaction. -/
theorem scrubStr_newId {id : String} (h : NewId "appr" id) : scrubStr classes id = id := by
  obtain ⟨hex, hlength, hhex, hid⟩ := h
  have hascii : ∀ c ∈ hexDigits, c.toNat < 128 ∧ c ≠ 's' ∧ c ≠ '@' ∧ 33 ≤ c.toNat :=
    List.forall_iff_forall_mem.mp (by decide)
  have hkind : ∀ c ∈ "appr_".toList, c.toNat < 128 ∧ c ≠ 's' ∧ c ≠ '@' ∧ 33 ≤ c.toNat ∧
      c.isDigit = false := List.forall_iff_forall_mem.mp (by decide)
  have hsplit : id.toList = "appr_".toList ++ hex := hid
  have hchars : ∀ c ∈ id.toList, c.toNat < 128 ∧ c ≠ 's' ∧ c ≠ '@' ∧ 33 ≤ c.toNat := by
    intro c hc
    rw [hsplit] at hc
    rcases List.mem_append.mp hc with hletter | hdigit
    · obtain ⟨hlt, hs, hat, hle, -⟩ := hkind c hletter
      exact ⟨hlt, hs, hat, hle⟩
    · exact hascii c (hhex c hdigit)
  have hspace : ∀ c ∈ id.toList, classes.space c = false := by
    intro c hc
    obtain ⟨hlt, -, -, hle⟩ := hchars c hc
    rw [classes.space_ascii c hlt]
    simp only [decide_eq_false_iff_not]
    omega
  have hletters : "appr_".toList.countP classes.digit = 0 := by
    rw [List.countP_eq_zero]
    intro c hc
    obtain ⟨hlt, -, -, -, hdigit⟩ := hkind c hc
    simp [classes.digit_ascii c hlt, hdigit]
  refine scrubStr_eq classes ?_ ?_ ?_ ?_
  · exact List.countP_eq_zero.mpr fun c hc => by simpa using (hchars c hc).2.1
  · exact List.countP_eq_zero.mpr fun c hc => by simpa using (hchars c hc).2.2.1
  · rw [hsplit, List.countP_append, hletters]
    have hle : hex.countP classes.digit ≤ hex.length := List.countP_le_length
    omega
  · exact List.countP_eq_zero.mpr fun c hc => by simp [hspace c hc]

end Bass.Redaction
