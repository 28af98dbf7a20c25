import Bass.Api
import Bass.Data.Unicode

/-!
# Tokens

`auth.py`, and the dependency of `api.py` that turns the header of a request into a principal. The strings
are those of Python, halves of surrogate pairs included. What the standard library contributes is a
`Library`: the digest, the JSON texts and the numbers in strings.
-/

namespace Bass

namespace Auth

open Unicode

/-- What `json.loads` returns. -/
inductive Value where
  | null
  | bool (value : Bool)
  | int (value : Int)
  | float (value : PyFloat)
  | str (value : Str)
  | arr (items : List Value)
  | obj (fields : List (Str × Value))

/-- `digest` is `hmac.new(key, message, sha256).digest()`, `dumps` is `json.dumps` with compact separators,
whose text is ASCII, `loads` is `json.loads` of bytes, and `parse` is `float` of a string. -/
structure Library where
  digest : List Byte → List Byte → List Byte
  dumps : Value → Str
  ascii : ∀ v, isAscii (dumps v) = true
  loads : List Byte → Except Exc Value
  parse : Str → Except Exc PyFloat

/-! ### Floats -/

/-- The double that is nearest to a number, the even one of two. -/
def nearest (n : Nat) : Nat :=
  let dropped := n.log2 - 52
  let kept := n / 2 ^ dropped
  let rest := n % 2 ^ dropped
  if 2 * rest < 2 ^ dropped ∨ 2 * rest = 2 ^ dropped ∧ kept % 2 = 0 then kept * 2 ^ dropped
  else (kept + 1) * 2 ^ dropped

/-- `float(n)`. -/
def floatOfInt (n : Int) : Except Exc ℚ :=
  if 2 ^ 1024 ≤ nearest n.natAbs then .error (.python "OverflowError" "int too large to convert to float")
  else .ok (if n < 0 then -(nearest n.natAbs : ℚ) else nearest n.natAbs)

/-- `int(t)`: towards zero. -/
def truncate (t : ℚ) : Int := t.num.tdiv t.den

/-- `x < t`. -/
def before (t : ℚ) : PyFloat → Bool
  | .finite value => value < t
  | .negZero => 0 < t
  | .negInf => true
  | .posInf | .nan => false

namespace Value

/-- `type(v).__name__`. -/
def typeName : Value → String
  | null => "NoneType"
  | bool _ => "bool"
  | int _ => "int"
  | float _ => "float"
  | str _ => "str"
  | arr _ => "list"
  | obj _ => "dict"

/-- `v.get(key, default)`. -/
def get (v : Value) (key : String) (default : Value) : Except Exc Value :=
  match v with
  | obj fields => .ok ((fields.lookup (ofString key)).getD default)
  | v => .error (.python "AttributeError" s!"'{v.typeName}' object has no attribute 'get'")

/-- `float(v)`. -/
def toFloat (lib : Library) : Value → Except Exc PyFloat
  | bool value => .ok (.finite (if value then 1 else 0))
  | int value => .finite <$> floatOfInt value
  | float value => .ok value
  | str value => lib.parse value
  | v => .error (.python "TypeError"
      s!"float() argument must be a string or a real number, not '{v.typeName}'")

def truthy : Value → Bool
  | null => false
  | bool value => value
  | int value => value ≠ 0
  | float (.finite value) => value ≠ 0
  | float .negZero => false
  | float _ => true
  | str value => !value.isEmpty
  | arr items => !items.isEmpty
  | obj fields => !fields.isEmpty

/-- `list(v)`. -/
def toList : Value → Except Exc (List Value)
  | arr items => .ok items
  | str value => .ok (value.map fun c => str [c])
  | obj fields => .ok (fields.map fun field => str field.1)
  | v => .error (.python "TypeError" s!"'{v.typeName}' object is not iterable")

end Value

/-! ### Segments -/

def dot : CodePoint := 46

/-- `s.encode()`. -/
def encoded (s : Str) : Except Exc (List Byte) :=
  match encode s with
  | some raw => .ok raw
  | none => .error (.python "UnicodeEncodeError" "surrogates not allowed")

def b64url (raw : List Byte) : Str := ofBytes (Base64.unpad (Base64.urlsafeEncode raw))

def b64urlDecode (seg : Str) : Except Exc (List Byte) :=
  let text := seg ++ List.replicate (-(seg.length : Int) % 4).toNat (61 : CodePoint)
  if isAscii text then
    match Base64.urlsafeDecode (toBytes text) with
    | .ok raw => .ok raw
    | .error message => .error (.python "binascii.Error" message)
  else .error (.python "ValueError" "string argument should contain only ASCII characters")

/-- `f"{header}.{payload}"`. -/
def signingInput (header payload : Str) : Str := header ++ dot :: payload

def sign (lib : Library) (secret input : Str) : Except Exc Str := do
  let key ← encoded secret
  let message ← encoded input
  return b64url (lib.digest key message)

/-- `hmac.compare_digest` on strings. -/
def compareDigest (a b : Str) : Except Exc Bool :=
  if isAscii a && isAscii b then .ok (a = b)
  else .error (.python "TypeError" "comparing strings with non-ASCII characters is not supported")

/-! ### Tokens -/

def header : Value :=
  .obj [(ofString "alg", .str (ofString "HS256")), (ofString "typ", .str (ofString "JWT"))]

/-- The claims of a token issued at the second `now`. -/
def payload (tenantId subject : Str) (roles : List Str) (now ttlS : Int) : Value :=
  .obj [(ofString "sub", .str subject), (ofString "tenant_id", .str tenantId),
    (ofString "roles", .arr (roles.map .str)), (ofString "iat", .int now), (ofString "exp", .int (now + ttlS))]

def mintToken (lib : Library) (secret tenantId subject : Str) (roles : List Str) (ttlS : Int) (time : ℚ) :
    Except Exc Str := do
  let head ← encoded (lib.dumps header)
  let body ← encoded (lib.dumps (payload tenantId subject roles (truncate time) ttlS))
  let input := signingInput (b64url head) (b64url body)
  let mac ← sign lib secret input
  return input ++ dot :: mac

/-- The fields hold what the claims hold, whatever its type. -/
structure Principal where
  tenantId : Value
  subject : Value
  roles : List Value

def authError (message : String) : Exc := .bass .authError message

/-- The classes among the errors of the segments and of `json.loads` that are `ValueError`s. -/
def isValueError : Exc → Bool
  | .python cls _ =>
      cls ∈ ["ValueError", "JSONDecodeError", "UnicodeDecodeError", "UnicodeEncodeError", "binascii.Error"]
  | _ => false

/-- The claims of a payload. -/
def readClaims (lib : Library) (segment : Str) : Except Exc Value :=
  match b64urlDecode segment >>= lib.loads with
  | .ok claims => .ok claims
  | .error e => if isValueError e then .error (authError "unreadable token payload") else .error e

/-- The principal of claims that are signed. -/
def ofClaims (lib : Library) (claims : Value) (time : ℚ) : Except Exc Principal := do
  let expires ← (← claims.get "exp" (.int 0)).toFloat lib
  if before time expires then throw (authError "token expired")
  let tenantId ← claims.get "tenant_id" .null
  let subject ← claims.get "sub" .null
  if !tenantId.truthy || !subject.truthy then throw (authError "token missing tenant_id/sub")
  let roles ← (← claims.get "roles" (.arr [])).toList
  return ⟨tenantId, subject, roles⟩

def decodeToken (lib : Library) (secret token : Str) (time : ℚ) : Except Exc Principal :=
  match token.splitOn dot with
  | [head, body, mac] => do
      let expected ← sign lib secret (signingInput head body)
      if !(← compareDigest expected mac) then throw (authError "bad signature")
      ofClaims lib (← readClaims lib body) time
  | _ => .error (authError "malformed token")

end Auth

/-- An `AuthError` is answered with 401; nothing else is caught. -/
def Auth.answered : Except Exc Auth.Principal → Except HttpResponse Auth.Principal
  | .ok principal => .ok principal
  | .error (.bass .authError message) => .error (HttpResponse.error 401 message)
  | .error _ => .error HttpResponse.internalServerError

/-- `principal` of `create_app`: the header of a request, or the response that refuses it. -/
def principal (lib : Auth.Library) (jwtSecret authorization : Unicode.Str) (time : ℚ) :
    Except HttpResponse Auth.Principal :=
  if (Unicode.ofString "Bearer ").isPrefixOf authorization then
    Auth.answered (Auth.decodeToken lib jwtSecret (authorization.drop (Unicode.ofString "Bearer ").length) time)
  else .error (HttpResponse.error 401 "missing bearer token")

end Bass
