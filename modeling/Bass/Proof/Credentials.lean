import Bass.Proof.Tokens

/-!
# Credentials that are not signed

A token that was not signed with the secret is compared with the digest and refused, unless the comparison
is not reached or does not take it: the first two segments are encoded before it, and it does not take
strings with characters outside ASCII.
-/

namespace Bass

namespace Auth

open Unicode

/-- Three segments of which the last is what signing the first two gives. -/
def Signed (lib : Library) (secret token : Str) : Prop :=
  ∃ head body mac, token.splitOn dot = [head, body, mac] ∧ sign lib secret (signingInput head body) = .ok mac

/-- The token has not three segments, or its first two have no half of a surrogate pair and its third is
ASCII. -/
def Comparable (token : Str) : Prop :=
  ∀ head body mac, token.splitOn dot = [head, body, mac] →
    (signingInput head body).any isSurrogate = false ∧ isAscii mac = true

variable {lib : Library} {secret token : Str} {time : ℚ}

/-- The token is refused, and with it the request. -/
structure Refused (lib : Library) (secret token : Str) (time : ℚ) : Prop where
  decode : ∃ message, decodeToken lib secret token time = .error (authError message)
  request : ∃ message, principal lib secret (ofString "Bearer " ++ token) time =
    .error (HttpResponse.error 401 message)

theorem principal_bearer : principal lib secret (ofString "Bearer " ++ token) time =
    answered (decodeToken lib secret token time) := by
  have hprefix : (ofString "Bearer ").isPrefixOf (ofString "Bearer " ++ token) = true :=
    List.isPrefixOf_iff_prefix.mpr (List.prefix_append _ _)
  rw [principal, if_pos hprefix, List.drop_left]

/-- What is refused as a token is refused as a credential. -/
theorem refused_of_decodeToken (message : String)
    (h : decodeToken lib secret token time = .error (authError message)) : Refused lib secret token time := by
  constructor
  · exact ⟨message, h⟩
  · refine ⟨message, ?_⟩
    rw [principal_bearer, h]
    rfl

/-- Any other exception is an internal server error. -/
theorem not_refused_of_decodeToken (cls message : String)
    (h : decodeToken lib secret token time = .error (.python cls message)) :
    ¬Refused lib secret token time := by
  rintro ⟨⟨message', hdecode⟩, -⟩
  rw [h] at hdecode
  cases hdecode

section Three

variable {head body mac : Str} (hsplit : token.splitOn dot = [head, body, mac])
  (hsecret : isAscii secret = true)

include hsplit hsecret

theorem decodeToken_of_surrogate (h : (signingInput head body).any isSurrogate = true) :
    decodeToken lib secret token time = .error (.python "UnicodeEncodeError" "surrogates not allowed") := by
  have hkey := encoded_of_encode (encode_of_isAscii hsecret)
  have hinput : encoded (signingInput head body) =
      .error (.python "UnicodeEncodeError" "surrogates not allowed") := by
    rw [encoded, encode_eq_none_iff.mpr h]
  unfold decodeToken sign
  simp only [hsplit, hkey, hinput, bind, Except.bind]

theorem decodeToken_of_not_isAscii (h : (signingInput head body).any isSurrogate = false)
    (hmac : isAscii mac = false) : decodeToken lib secret token time =
      .error (.python "TypeError" "comparing strings with non-ASCII characters is not supported") := by
  obtain ⟨message, hmessage⟩ := exists_encode h
  have hsign := sign_eq lib (encode_of_isAscii hsecret) hmessage
  have hcompare : compareDigest (b64url (lib.digest (toBytes secret) message)) mac =
      .error (.python "TypeError" "comparing strings with non-ASCII characters is not supported") := by
    rw [compareDigest, hmac, Bool.and_false]
    rfl
  unfold decodeToken
  simp only [hsplit, hsign, bind, Except.bind, hcompare]

theorem decodeToken_of_unsigned (h : (signingInput head body).any isSurrogate = false)
    (hmac : isAscii mac = true) (hunsigned : ¬Signed lib secret token) :
    decodeToken lib secret token time = .error (authError "bad signature") := by
  obtain ⟨message, hmessage⟩ := exists_encode h
  have hsign := sign_eq lib (encode_of_isAscii hsecret) hmessage
  have hne : b64url (lib.digest (toBytes secret) message) ≠ mac := by
    rintro rfl
    exact hunsigned ⟨head, body, _, hsplit, hsign⟩
  have hcompare : compareDigest (b64url (lib.digest (toBytes secret) message)) mac = .ok false := by
    rw [compareDigest, isAscii_b64url, hmac, Bool.and_self, if_pos rfl, decide_eq_false hne]
  unfold decodeToken
  simp only [hsplit, hsign, bind, Except.bind, hcompare]
  rfl

end Three

theorem comparable_iff {head body mac : Str} (hsplit : token.splitOn dot = [head, body, mac]) :
    Comparable token ↔ (signingInput head body).any isSurrogate = false ∧ isAscii mac = true := by
  constructor
  · intro h
    exact h head body mac hsplit
  · intro h head' body' mac' hsplit'
    rw [hsplit] at hsplit'
    obtain ⟨rfl, rfl, rfl⟩ : head = head' ∧ body = body' ∧ mac = mac' := by simpa using hsplit'
    exact h

/-- **Bad credentials.** A token that was not signed with the secret is answered with an `AuthError`, and so
with 401, iff it is comparable. -/
theorem refused_iff (lib : Library) (secret token : Str) (time : ℚ) (hsecret : isAscii secret = true)
    (hunsigned : ¬Signed lib secret token) : Refused lib secret token time ↔ Comparable token := by
  by_cases hthree : ∃ head body mac, token.splitOn dot = [head, body, mac]
  · obtain ⟨head, body, mac, hsplit⟩ := hthree
    rw [comparable_iff hsplit]
    cases hsurrogate : (signingInput head body).any isSurrogate with
    | true =>
        apply iff_of_false
        · exact not_refused_of_decodeToken _ _ (decodeToken_of_surrogate hsplit hsecret hsurrogate)
        · simp
    | false =>
        cases hmac : isAscii mac with
        | false =>
            apply iff_of_false
            · exact not_refused_of_decodeToken _ _
                (decodeToken_of_not_isAscii hsplit hsecret hsurrogate hmac)
            · simp
        | true =>
            apply iff_of_true
            · exact refused_of_decodeToken _
                (decodeToken_of_unsigned hsplit hsecret hsurrogate hmac hunsigned)
            · exact ⟨rfl, rfl⟩
  · apply iff_of_true
    · apply refused_of_decodeToken "malformed token"
      unfold decodeToken
      split
      · rename_i head body mac hsplit
        exact absurd ⟨head, body, mac, hsplit⟩ hthree
      · rfl
    · intro head body mac hsplit
      exact absurd ⟨head, body, mac, hsplit⟩ hthree

/-- A signature is ASCII. -/
theorem isAscii_of_signed {head body mac : Str} (hsplit : token.splitOn dot = [head, body, mac])
    (h : Signed lib secret token) : isAscii mac = true := by
  obtain ⟨head', body', mac', hsplit', hsign⟩ := h
  rw [hsplit] at hsplit'
  obtain ⟨rfl, rfl, rfl⟩ : head = head' ∧ body = body' ∧ mac = mac' := by simpa using hsplit'
  obtain ⟨key, message, -, -, rfl⟩ := exists_of_sign lib hsign
  exact isAscii_b64url _

theorem splitOn_letters :
    (ofString "a.b.c").splitOn dot = [ofString "a", ofString "b", ofString "c"] := by decide

theorem unsigned_letters : ¬Signed (ownerLibrary 3600) (ofString "secret") (ofString "a.b.c") := by
  rintro ⟨head, body, mac, heq, hsign⟩
  rw [splitOn_letters] at heq
  obtain ⟨rfl, rfl, rfl⟩ : ofString "a" = head ∧ ofString "b" = body ∧ ofString "c" = mac := by
    simpa using heq
  have hexpected := sign_eq (ownerLibrary 3600) (encode_of_isAscii (s := ofString "secret") (by decide))
    (encode_of_isAscii (s := signingInput (ofString "a") (ofString "b")) (by decide))
  rw [hexpected] at hsign
  have hlength := congrArg List.length (Except.ok.inj hsign)
  revert hlength
  decide

/-- A token of three letters is refused. -/
theorem refused_iff_letters : Refused (ownerLibrary 3600) (ofString "secret") (ofString "a.b.c") 0 := by
  apply (refused_iff (ownerLibrary 3600) (ofString "secret") (ofString "a.b.c") 0 (by decide) unsigned_letters).mpr
  exact (comparable_iff splitOn_letters).mpr (by decide)

/-- With an accent in the third segment there is an internal server error. -/
theorem accent_not_refused :
    ¬Signed (ownerLibrary 3600) (ofString "secret") (ofString "a.b.é") ∧
      decodeToken (ownerLibrary 3600) (ofString "secret") (ofString "a.b.é") 0 =
        .error (.python "TypeError" "comparing strings with non-ASCII characters is not supported") ∧
      principal (ownerLibrary 3600) (ofString "secret") (ofString "Bearer " ++ ofString "a.b.é") 0 =
        .error HttpResponse.internalServerError := by
  have hsplit : (ofString "a.b.é").splitOn dot = [ofString "a", ofString "b", ofString "é"] := by decide
  have hdecode : decodeToken (ownerLibrary 3600) (ofString "secret") (ofString "a.b.é") 0 =
      .error (.python "TypeError" "comparing strings with non-ASCII characters is not supported") :=
    decodeToken_of_not_isAscii hsplit (by decide) (by decide) (by decide)
  refine ⟨?_, hdecode, ?_⟩
  · intro h
    have hascii := isAscii_of_signed hsplit h
    revert hascii
    decide
  · rw [principal_bearer, hdecode]
    rfl

end Auth

end Bass
