import Bass.Auth
import Bass.Data.Text
import Mathlib.Algebra.Order.Floor.Ring
import Mathlib.Data.Rat.Floor

/-!
# Minting and decoding

What `mint_token` writes has three segments without dots, so it is read back segment by segment. The
expiry is compared as a double, so for instants before 1970 and for lifetimes of more than 2^53 seconds it
is not the sum of the claims.
-/

namespace Bass

namespace Auth

open Unicode

/-! ### Segments -/

theorem isAscii_ofBytes {raw : List Byte} (h : ∀ c ∈ raw, c.val < 128) : isAscii (ofBytes raw) = true := by
  simpa [isAscii, ofBytes] using h

theorem urlChar_lt {c : Byte} (h : Base64.UrlChar c) : c.val < 128 := by
  simp only [Base64.UrlChar, Fin.le_def, Fin.ext_iff] at h
  change 65 ≤ c.val ∧ c.val ≤ 90 ∨ 97 ≤ c.val ∧ c.val ≤ 122 ∨ 48 ≤ c.val ∧ c.val ≤ 57 ∨ c.val = 45 ∨ c.val = 95 at h
  omega

theorem isAscii_b64url (raw : List Byte) : isAscii (b64url raw) = true := by
  apply isAscii_ofBytes
  intro c hc
  exact urlChar_lt ((Base64.urlsafeEncode_eq raw).1 c hc)

theorem dot_notMem_b64url (raw : List Byte) : dot ∉ b64url raw := by
  intro hmem
  obtain ⟨c, hc, heq⟩ := List.mem_map.mp hmem
  have hurl := (Base64.urlsafeEncode_eq raw).1 c hc
  have hval := congrArg Fin.val heq
  change c.val = 46 at hval
  obtain rfl : c = 46 := Fin.ext hval
  revert hurl
  decide

theorem ofBytes_replicate_pad (k : Nat) : ofBytes (List.replicate k Base64.pad) = List.replicate k 61 :=
  List.map_replicate

/-- The padding that was removed is put back. -/
theorem b64urlDecode_b64url (raw : List Byte) : b64urlDecode (b64url raw) = .ok raw := by
  obtain ⟨hchars, k, hwhole, hk, hlength⟩ := Base64.urlsafeEncode_eq raw
  have hpads : (-((b64url raw).length : Int) % 4).toNat = k := by
    rw [b64url, ofBytes, List.length_map]
    omega
  have htext : b64url raw ++ List.replicate (-((b64url raw).length : Int) % 4).toNat (61 : CodePoint) =
      ofBytes (Base64.urlsafeEncode raw) := by
    rw [hpads, hwhole, ← ofBytes_replicate_pad, b64url, ofBytes, ofBytes, ← List.map_append, ← hwhole]
    rfl
  have hascii : isAscii (ofBytes (Base64.urlsafeEncode raw)) = true := by
    apply isAscii_ofBytes
    intro c hc
    rw [hwhole] at hc
    rcases List.mem_append.mp hc with hc | hc
    · exact urlChar_lt (hchars c hc)
    · rw [List.eq_of_mem_replicate hc]
      decide
  rw [b64urlDecode, htext, if_pos hascii, toBytes_ofBytes, Base64.urlsafeDecode_urlsafeEncode]

theorem isAscii_signingInput {head body : Str} (hhead : isAscii head = true) (hbody : isAscii body = true) :
    isAscii (signingInput head body) = true := by
  have hdot : isAscii [dot] = true := by decide
  have hrest : isAscii (dot :: body) = true := by
    rw [← List.singleton_append, isAscii_append, hdot, hbody]
    rfl
  rw [signingInput, isAscii_append, hhead, hrest]
  rfl

theorem splitOn_token {head body mac : Str} (hhead : dot ∉ head) (hbody : dot ∉ body) (hmac : dot ∉ mac) :
    (signingInput head body ++ dot :: mac).splitOn dot = [head, body, mac] := by
  have hjoined : signingInput head body ++ dot :: mac = [dot].intercalate [head, body, mac] := by
    simp [signingInput, List.intercalate]
  rw [hjoined]
  apply List.splitOn_intercalate
  · simp only [List.forall_mem_cons, List.not_mem_nil, false_imp_iff, implies_true, and_true]
    exact ⟨hhead, hbody, hmac⟩
  · simp

theorem encoded_of_encode {s : Str} {raw : List Byte} (h : encode s = some raw) : encoded s = .ok raw := by
  rw [encoded, h]

theorem sign_eq (lib : Library) {secret input : Str} {key message : List Byte} (hkey : encode secret = some key)
    (hmessage : encode input = some message) :
    sign lib secret input = .ok (b64url (lib.digest key message)) := by
  rw [sign, encoded_of_encode hkey, encoded_of_encode hmessage]
  rfl

theorem exists_of_sign (lib : Library) {secret input mac : Str} (h : sign lib secret input = .ok mac) :
    ∃ key message, encode secret = some key ∧ encode input = some message ∧
      mac = b64url (lib.digest key message) := by
  unfold sign encoded at h
  cases hkey : encode secret with
  | none =>
      rw [hkey] at h
      cases h
  | some key =>
      cases hmessage : encode input with
      | none =>
          rw [hkey, hmessage] at h
          cases h
      | some message =>
          rw [hkey, hmessage] at h
          exact ⟨key, message, rfl, rfl, (Except.ok.inj h).symm⟩

/-! ### Instants -/

theorem truncate_of_nonneg {t : ℚ} (h : 0 ≤ t) : truncate t = ⌊t⌋ := by
  rw [truncate, Rat.floor_def', Int.tdiv_eq_ediv_of_nonneg (Rat.num_nonneg.mpr h)]

/-- Up to 2^53 every number is a double. -/
theorem nearest_eq {n : Nat} (h : n ≤ 2 ^ 53) : nearest n = n := by
  rcases h.lt_or_eq with hlt | rfl
  · have hlog : n.log2 - 52 = 0 := by
      rcases Nat.eq_zero_or_pos n with rfl | hpos
      · rfl
      · have hbound := (Nat.log2_lt (by omega)).mpr hlt
        omega
    unfold nearest
    rw [hlog]
    simp [Nat.mod_one]
  · decide

theorem floatOfInt_eq {n : Int} (h : n.natAbs ≤ 2 ^ 53) : floatOfInt n = .ok n := by
  rw [floatOfInt, nearest_eq h, if_neg]
  · congr 1
    split
    · rename_i hneg
      have habs : (n.natAbs : Int) = -n := by omega
      rw [← Int.cast_natCast, habs, Int.cast_neg, neg_neg]
    · rename_i hnonneg
      have habs : (n.natAbs : Int) = n := by omega
      rw [← Int.cast_natCast, habs]
  · intro hlarge
    have hpow : ∀ k, 53 < k → 2 ^ 53 < 2 ^ k := fun k hk => Nat.pow_lt_pow_right (by decide) hk
    exact absurd (hlarge.trans h) (not_le.mpr (hpow 1024 (by decide)))

/-! ### The round trip -/

variable {lib : Library} {secret tenantId subject : Str} {roles : List Str} {now ttlS : Int}

/-- What becomes of the claims of a minted token. -/
theorem ofClaims_payload (htenant : tenantId ≠ []) (hsubject : subject ≠ []) {expires : ℚ}
    (hfloat : floatOfInt (now + ttlS) = .ok expires) (time : ℚ) :
    ofClaims lib (payload tenantId subject roles now ttlS) time =
      if expires < time then .error (authError "token expired")
      else .ok ⟨.str tenantId, .str subject, roles.map .str⟩ := by
  have hexp : (payload tenantId subject roles now ttlS).get "exp" (.int 0) = .ok (.int (now + ttlS)) := rfl
  have htenantId : (payload tenantId subject roles now ttlS).get "tenant_id" .null = .ok (.str tenantId) := rfl
  have hsub : (payload tenantId subject roles now ttlS).get "sub" .null = .ok (.str subject) := rfl
  have hroles : (payload tenantId subject roles now ttlS).get "roles" (.arr []) =
      .ok (.arr (roles.map .str)) := rfl
  have hexpires : (Value.int (now + ttlS)).toFloat lib = .ok (.finite expires) := by
    rw [Value.toFloat, hfloat]
    rfl
  have htruthy : (!(Value.str tenantId).truthy || !(Value.str subject).truthy) = false := by
    cases tenantId with
    | nil => exact absurd rfl htenant
    | cons c tenantId =>
        cases subject with
        | nil => exact absurd rfl hsubject
        | cons c subject => rfl
  unfold ofClaims
  simp only [hexp, htenantId, hsub, hroles, bind, Except.bind, hexpires, before, decide_eq_true_eq]
  by_cases hexpired : expires < time
  · simp only [if_pos hexpired]
    rfl
  · simp only [if_neg hexpired, htruthy]
    rfl

/-- An expiry that is no double raises what `float` raises. -/
theorem ofClaims_overflow {e : Exc} (hfloat : floatOfInt (now + ttlS) = .error e) (time : ℚ) :
    ofClaims lib (payload tenantId subject roles now ttlS) time = .error e := by
  have hexp : (payload tenantId subject roles now ttlS).get "exp" (.int 0) = .ok (.int (now + ttlS)) := rfl
  have hexpires : (Value.int (now + ttlS)).toFloat lib = .error e := by
    rw [Value.toFloat, hfloat]
    rfl
  unfold ofClaims
  simp only [hexp, bind, Except.bind, hexpires]

/-- The JSON text of the claims is read as the claims. -/
def Reads (lib : Library) (claims : Value) : Prop := lib.loads (toBytes (lib.dumps claims)) = .ok claims

/-- The first two segments of a token with these claims. -/
def mintedInput (lib : Library) (claims : Value) : Str :=
  signingInput (b64url (toBytes (lib.dumps header))) (b64url (toBytes (lib.dumps claims)))

theorem encode_mintedInput (lib : Library) (claims : Value) :
    encode (mintedInput lib claims) = some (toBytes (mintedInput lib claims)) :=
  encode_of_isAscii (isAscii_signingInput (isAscii_b64url _) (isAscii_b64url _))

theorem splitOn_minted (lib : Library) (claims : Value) (raw : List Byte) :
    (mintedInput lib claims ++ dot :: b64url raw).splitOn dot =
      [b64url (toBytes (lib.dumps header)), b64url (toBytes (lib.dumps claims)), b64url raw] :=
  splitOn_token (dot_notMem_b64url _) (dot_notMem_b64url _) (dot_notMem_b64url _)

theorem mintToken_eq {key : List Byte} {time : ℚ} (hkey : encode secret = some key) :
    mintToken lib secret tenantId subject roles ttlS time =
      .ok (mintedInput lib (payload tenantId subject roles (truncate time) ttlS) ++ dot ::
        b64url (lib.digest key (toBytes (mintedInput lib (payload tenantId subject roles (truncate time) ttlS))))) := by
  have hhead := encoded_of_encode (encode_of_isAscii (lib.ascii header))
  have hbody := encoded_of_encode (encode_of_isAscii
    (lib.ascii (payload tenantId subject roles (truncate time) ttlS)))
  have hsign := sign_eq lib hkey (encode_mintedInput lib (payload tenantId subject roles (truncate time) ttlS))
  unfold mintedInput at hsign ⊢
  unfold mintToken
  simp only [hhead, hbody, bind, Except.bind, hsign]
  rfl

theorem mintToken_of_encode_eq_none {time : ℚ} (hnone : encode secret = none) :
    mintToken lib secret tenantId subject roles ttlS time =
      .error (.python "UnicodeEncodeError" "surrogates not allowed") := by
  have hhead := encoded_of_encode (encode_of_isAscii (lib.ascii header))
  have hbody := encoded_of_encode (encode_of_isAscii
    (lib.ascii (payload tenantId subject roles (truncate time) ttlS)))
  unfold mintToken sign encoded
  unfold encoded at hhead hbody
  simp only [hhead, hbody, bind, Except.bind, hnone]

theorem compareDigest_self {mac : Str} (h : isAscii mac = true) : compareDigest mac mac = .ok true := by
  rw [compareDigest, h]
  simp

/-- A token that is signed is read to the end. -/
theorem decodeToken_signed {head body mac token : Str} {time : ℚ} (hsplit : token.splitOn dot = [head, body, mac])
    (hsign : sign lib secret (signingInput head body) = .ok mac) :
    decodeToken lib secret token time = (readClaims lib body >>= fun claims => ofClaims lib claims time) := by
  obtain ⟨key, message, -, -, hmac⟩ := exists_of_sign lib hsign
  have hcompare : compareDigest mac mac = .ok true := by
    apply compareDigest_self
    rw [hmac]
    exact isAscii_b64url _
  unfold decodeToken
  simp only [hsplit, hsign, bind, Except.bind, hcompare]
  rfl

theorem readClaims_b64url {claims : Value} (h : Reads lib claims) :
    readClaims lib (b64url (toBytes (lib.dumps claims))) = .ok claims := by
  rw [readClaims, b64urlDecode_b64url]
  simp only [bind, Except.bind]
  rw [h]

/-- A token is accepted only if its third segment is the digest of the first two. -/
theorem signed_of_decodeToken {token : Str} {time : ℚ} {p : Principal}
    (h : decodeToken lib secret token time = .ok p) : ∃ head body key message,
      token.splitOn dot = [head, body, b64url (lib.digest key message)] ∧
      encode secret = some key ∧ encode (signingInput head body) = some message := by
  unfold decodeToken at h
  split at h
  · rename_i head body mac hsplit
    cases hsign : sign lib secret (signingInput head body) with
    | error e =>
        rw [hsign] at h
        cases h
    | ok expected =>
        obtain ⟨key, message, hkey, hmessage, hexpected⟩ := exists_of_sign lib hsign
        have hequal : mac = expected := by
          by_contra hne
          simp only [hsign, bind, Except.bind, compareDigest] at h
          split at h
          · cases h
          · rename_i hcompare
            split at hcompare
            · obtain rfl := Except.ok.inj hcompare
              rw [decide_eq_false (Ne.symm hne)] at h
              cases h
            · cases hcompare
        refine ⟨head, body, key, message, ?_, hkey, hmessage⟩
        rw [hsplit, hequal, hexpected]
  · cases h

/-- A minted token is read as the claims it was minted with. -/
theorem exists_minted {time : ℚ} (hsecret : secret.any isSurrogate = false)
    (hreads : Reads lib (payload tenantId subject roles (truncate time) ttlS)) :
    ∃ token, mintToken lib secret tenantId subject roles ttlS time = .ok token ∧
      ∀ later, decodeToken lib secret token later =
        ofClaims lib (payload tenantId subject roles (truncate time) ttlS) later := by
  obtain ⟨key, hkey⟩ := exists_encode hsecret
  refine ⟨_, mintToken_eq hkey, ?_⟩
  intro later
  rw [decodeToken_signed (splitOn_minted lib _ _) (sign_eq lib hkey (encode_mintedInput lib _)),
    readClaims_b64url hreads]
  simp only [bind, Except.bind]

/-- **Minting and decoding.** A token that is minted under a secret that can be encoded is accepted, with the
tenant, the subject and the roles it was minted for, until its expiry as a double, and refused from then
on. Every accepted token is signed. -/
theorem decodeToken_mintToken (lib : Library) :
    (∀ (secret tenantId subject : Str) (roles : List Str) (ttlS : Int) (t₀ t₁ expires : ℚ),
      secret.any isSurrogate = false → tenantId ≠ [] → subject ≠ [] →
      Reads lib (payload tenantId subject roles (truncate t₀) ttlS) →
      floatOfInt (truncate t₀ + ttlS) = .ok expires →
      (∃ token, mintToken lib secret tenantId subject roles ttlS t₀ = .ok token ∧
        decodeToken lib secret token t₁ =
          if t₁ ≤ expires then .ok ⟨.str tenantId, .str subject, roles.map .str⟩
          else .error (authError "token expired")) ∧
      (0 ≤ t₀ → (⌊t₀⌋ + ttlS).natAbs ≤ 2 ^ 53 → expires = ((⌊t₀⌋ + ttlS : Int) : ℚ))) ∧
    ∀ (secret token : Str) (time : ℚ) (p : Principal), decodeToken lib secret token time = .ok p →
      ∃ head body key message, token.splitOn dot = [head, body, b64url (lib.digest key message)] ∧
        encode secret = some key ∧ encode (signingInput head body) = some message := by
  constructor
  · intro secret tenantId subject roles ttlS t₀ t₁ expires hsecret htenant hsubject hreads hfloat
    constructor
    · obtain ⟨token, hmint, hdecode⟩ := exists_minted hsecret hreads
      refine ⟨token, hmint, ?_⟩
      rw [hdecode t₁, ofClaims_payload htenant hsubject hfloat]
      by_cases hexpired : expires < t₁
      · rw [if_pos hexpired, if_neg (not_le.mpr hexpired)]
      · rw [if_neg hexpired, if_pos (not_lt.mp hexpired)]
    · intro hnonneg hsmall
      rw [truncate_of_nonneg hnonneg, floatOfInt_eq hsmall] at hfloat
      exact (Except.ok.inj hfloat).symm
  · intro secret token time p h
    exact signed_of_decodeToken h

/-! ### Tokens of an owner -/

def ownerRoles : List Str := [ofString "clerk", ofString "viewer"]

/-- Issued at the start of 1970. -/
def ownerPayload (ttlS : Int) : Value := payload (ofString "acme") (ofString "u1") ownerRoles 0 ttlS

def ownerFront : String :=
  "\x7b\"sub\":\"u1\",\"tenant_id\":\"acme\",\"roles\":[\"clerk\",\"viewer\"],\"iat\":0,\"exp\":"

def ownerText (ttlS : Int) : String := ownerFront ++ (toString ttlS ++ "\x7d")

theorem isAscii_toString (n : Int) : isAscii (ofString (toString n)) = true := by
  have hall : ∀ c ∈ (toString n).toList, c.toNat < 128 := by
    intro c hc
    by_contra hlarge
    refine Text.notMem_toString ?_ ?_ hc
    · rintro rfl
      exact hlarge (by decide)
    · apply Bool.eq_false_of_not_eq_true
      intro hdigit
      have hbound : c.toNat ≤ 57 := (Char.isDigit_iff_toNat.mp hdigit).2
      omega
  simpa [isAscii, ofString] using hall

theorem ofString_append (text text' : String) : ofString (text ++ text') = ofString text ++ ofString text' := by
  rw [ofString, String.toList_append, List.map_append]
  rfl

theorem isAscii_ownerText (ttlS : Int) : isAscii (ofString (ownerText ttlS)) = true := by
  have hfront : isAscii (ofString ownerFront) = true := by decide
  have hend : isAscii (ofString "\x7d") = true := by decide
  rw [ownerText, ofString_append ownerFront, isAscii_append, hfront, ofString_append (toString ttlS),
    isAscii_append, isAscii_toString, hend]
  rfl

/-- A standard library that reads the claims of this owner, and no others. -/
def ownerLibrary (ttlS : Int) : Library where
  digest := fun key message => (key ++ message).take 32
  dumps := fun v => match v with
    | .obj [_, _] => ofString "\x7b\"alg\":\"HS256\",\"typ\":\"JWT\"\x7d"
    | _ => ofString (ownerText ttlS)
  ascii := by
    intro v
    split
    · decide
    · exact isAscii_ownerText ttlS
  loads := fun raw =>
    if raw = toBytes (ofString (ownerText ttlS)) then .ok (ownerPayload ttlS)
    else .error (.python "JSONDecodeError" "Expecting value: line 1 column 1 (char 0)")
  parse := fun _ => .error (.python "ValueError" "could not convert string to float")

theorem reads_ownerPayload (ttlS : Int) : Reads (ownerLibrary ttlS) (ownerPayload ttlS) := if_pos rfl

theorem decodeToken_mintToken_owner :
    ∃ token, mintToken (ownerLibrary 3600) (ofString "secret") (ofString "acme") (ofString "u1") ownerRoles 3600
        (1 / 2) = .ok token ∧
      decodeToken (ownerLibrary 3600) (ofString "secret") token 3600 =
        .ok ⟨.str (ofString "acme"), .str (ofString "u1"), ownerRoles.map .str⟩ := by
  have htruncate : truncate (1 / 2) = 0 := by decide +kernel
  obtain ⟨token, hmint, hdecode⟩ := ((decodeToken_mintToken (ownerLibrary 3600)).1 (ofString "secret")
    (ofString "acme") (ofString "u1") ownerRoles 3600 (1 / 2) 3600 3600 (by decide) (by decide) (by decide)
    (by rw [htruncate]; exact reads_ownerPayload 3600)
    (by rw [htruncate]; exact floatOfInt_eq (by decide))).1
  rw [if_pos le_rfl] at hdecode
  exact ⟨token, hmint, hdecode⟩

theorem owner_minted (ttlS : Int) {time : ℚ} (htruncate : truncate time = 0) :
    ∃ token, mintToken (ownerLibrary ttlS) (ofString "secret") (ofString "acme") (ofString "u1") ownerRoles ttlS
        time = .ok token ∧
      ∀ later, decodeToken (ownerLibrary ttlS) (ofString "secret") token later =
        ofClaims (ownerLibrary ttlS) (ownerPayload ttlS) later := by
  have hreads : Reads (ownerLibrary ttlS)
      (payload (ofString "acme") (ofString "u1") ownerRoles (truncate time) ttlS) := by
    rw [htruncate]
    exact reads_ownerPayload ttlS
  have hsecret : (ofString "secret").any isSurrogate = false := by decide
  obtain ⟨token, hmint, hdecode⟩ := exists_minted hsecret hreads
  rw [htruncate] at hdecode
  exact ⟨token, hmint, hdecode⟩

theorem floatOfInt_above : floatOfInt (0 + 9007199254740995) = .ok 9007199254740996 := by
  have hnearest : nearest (Int.natAbs (0 + 9007199254740995)) = 9007199254740996 := by decide +kernel
  rw [floatOfInt, hnearest, if_neg (by decide +kernel), if_neg (by decide)]
  rfl

theorem floatOfInt_huge :
    floatOfInt (0 + 2 ^ 1024) = .error (.python "OverflowError" "int too large to convert to float") := by
  rw [floatOfInt, if_pos (by decide +kernel)]

/-- Half a second before 1970 a token without a lifetime is issued at 0 and not at -1; the expiry in
2^53 + 3 seconds is a second later as a double; the one in 2^1024 seconds is no double; and half of a
surrogate pair is no secret. -/
theorem decode_not_by_floor :
    (∃ token, mintToken (ownerLibrary 0) (ofString "secret") (ofString "acme") (ofString "u1") ownerRoles 0
        (-1 / 2) = .ok token ∧
      ¬(-1 / 4 : ℚ) ≤ ((⌊(-1 / 2 : ℚ)⌋ + 0 : Int) : ℚ) ∧
      decodeToken (ownerLibrary 0) (ofString "secret") token (-1 / 4) =
        .ok ⟨.str (ofString "acme"), .str (ofString "u1"), ownerRoles.map .str⟩) ∧
    (∃ token, mintToken (ownerLibrary 9007199254740995) (ofString "secret") (ofString "acme") (ofString "u1")
        ownerRoles 9007199254740995 0 = .ok token ∧
      ¬(9007199254740996 : ℚ) ≤ ((⌊(0 : ℚ)⌋ + 9007199254740995 : Int) : ℚ) ∧
      decodeToken (ownerLibrary 9007199254740995) (ofString "secret") token 9007199254740996 =
        .ok ⟨.str (ofString "acme"), .str (ofString "u1"), ownerRoles.map .str⟩) ∧
    (∃ token, mintToken (ownerLibrary (2 ^ 1024)) (ofString "secret") (ofString "acme") (ofString "u1") ownerRoles
        (2 ^ 1024) 0 = .ok token ∧
      decodeToken (ownerLibrary (2 ^ 1024)) (ofString "secret") token 0 =
        .error (.python "OverflowError" "int too large to convert to float")) ∧
    mintToken (ownerLibrary 0) [55296] (ofString "acme") (ofString "u1") ownerRoles 0 0 =
      .error (.python "UnicodeEncodeError" "surrogates not allowed") := by
  have hzero : truncate 0 = 0 := by decide +kernel
  refine ⟨?_, ?_, ?_, ?_⟩
  · have htruncate : truncate (-1 / 2) = 0 := by decide +kernel
    obtain ⟨token, hmint, hdecode⟩ := owner_minted 0 htruncate
    refine ⟨token, hmint, by decide +kernel, ?_⟩
    rw [hdecode, ownerPayload, ofClaims_payload (by decide) (by decide) (floatOfInt_eq (by decide)),
      if_neg (by decide +kernel)]
  · obtain ⟨token, hmint, hdecode⟩ := owner_minted 9007199254740995 hzero
    refine ⟨token, hmint, by decide +kernel, ?_⟩
    rw [hdecode, ownerPayload, ofClaims_payload (by decide) (by decide) floatOfInt_above, if_neg (lt_irrefl _)]
  · obtain ⟨token, hmint, hdecode⟩ := owner_minted (2 ^ 1024) hzero
    refine ⟨token, hmint, ?_⟩
    rw [hdecode]
    exact ofClaims_overflow floatOfInt_huge 0
  · exact mintToken_of_encode_eq_none (by decide)

end Auth

end Bass
