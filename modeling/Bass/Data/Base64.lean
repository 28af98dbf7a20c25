import Mathlib.Data.List.DropRight

/-!
# Base64

Bytes as text over an alphabet of 64 characters with padding, and the decoder that skips what is not in the
alphabet. What the encoder writes is read back, also when the padding has been removed and put back.
-/

abbrev Byte : Type := Fin 256

instance neZeroByte : @NeZero Nat Zero.ofOfNat0 256 := ⟨by decide⟩

namespace Base64

/-! ### Characters -/

def pad : Byte := 61

/-- The character of a value below 64. -/
def symbol (v : Nat) : Byte :=
  if v < 26 then Fin.ofNat 256 (65 + v)
  else if v < 52 then Fin.ofNat 256 (97 + (v - 26))
  else if v < 62 then Fin.ofNat 256 (48 + (v - 52))
  else if v = 62 then 43
  else 47

def value? (c : Byte) : Option Nat :=
  if 65 ≤ c ∧ c ≤ 90 then some (c.val - 65)
  else if 97 ≤ c ∧ c ≤ 122 then some (c.val - 97 + 26)
  else if 48 ≤ c ∧ c ≤ 57 then some (c.val - 48 + 52)
  else if c = 43 then some 62
  else if c = 47 then some 63
  else none

theorem value?_symbol {v : Nat} (h : v < 64) : value? (symbol v) = some v := by
  have hall : ∀ v < 64, value? (symbol v) = some v := by decide
  exact hall v h

theorem symbol_ne_pad (v : Nat) : symbol v ≠ pad := by
  have hall : ∀ v < 62, symbol v ≠ pad := by decide
  by_cases h : v < 62
  · exact hall v h
  · by_cases heq : v = 62
    · subst heq
      decide
    · have hlast : symbol v = 47 := by
        unfold symbol
        rw [if_neg (by omega), if_neg (by omega), if_neg h, if_neg heq]
      rw [hlast]
      decide

/-! ### The encoder -/

/-- Three bytes are four characters; the last group is padded. -/
def encode : List Byte → List Byte
  | a :: b :: c :: rest =>
      symbol (a.val / 4) :: symbol (a.val % 4 * 16 + b.val / 16) ::
        symbol (b.val % 16 * 4 + c.val / 64) :: symbol (c.val % 64) :: encode rest
  | [a, b] =>
      [symbol (a.val / 4), symbol (a.val % 4 * 16 + b.val / 16), symbol (b.val % 16 * 4), pad]
  | [a] => [symbol (a.val / 4), symbol (a.val % 4 * 16), pad, pad]
  | [] => []

/-- What is written is characters, of which there are a multiple of four with the padding. -/
theorem exists_symbols (raw : List Byte) : ∃ (values : List Nat) (k : Nat),
    encode raw = values.map symbol ++ List.replicate k pad ∧ (∀ v ∈ values, v < 64) ∧
      k < 4 ∧ (values.length + k) % 4 = 0 := by
  induction raw using encode.induct with
  | case1 a b c rest ih =>
      obtain ⟨values, k, hencode, hvalues, hk, hlength⟩ := ih
      refine ⟨a.val / 4 :: (a.val % 4 * 16 + b.val / 16) :: (b.val % 16 * 4 + c.val / 64) :: c.val % 64 :: values,
        k, ?_, ?_, hk, ?_⟩
      · rw [encode, hencode]
        rfl
      · have ha := a.isLt
        have hb := b.isLt
        have hc := c.isLt
        simp only [List.forall_mem_cons]
        exact ⟨by omega, by omega, by omega, by omega, hvalues⟩
      · simp only [List.length_cons]
        omega
  | case2 a b =>
      have ha := a.isLt
      have hb := b.isLt
      refine ⟨[a.val / 4, a.val % 4 * 16 + b.val / 16, b.val % 16 * 4], 1, rfl, ?_, by omega, by simp⟩
      simp only [List.forall_mem_cons, List.not_mem_nil, false_imp_iff, implies_true, and_true]
      exact ⟨by omega, by omega, by omega⟩
  | case3 a =>
      have ha := a.isLt
      refine ⟨[a.val / 4, a.val % 4 * 16], 2, rfl, ?_, by omega, by simp⟩
      simp only [List.forall_mem_cons, List.not_mem_nil, false_imp_iff, implies_true, and_true]
      exact ⟨by omega, by omega⟩
  | case4 => exact ⟨[], 0, rfl, by simp, by omega, rfl⟩

/-! ### The decoder -/

/-- How far the decoder is in a group of four characters. -/
structure Reader where
  quad : Nat
  left : Nat
  pads : Nat
  out : List Byte

def Reader.digit (r : Reader) (v : Nat) : Reader :=
  match r.quad with
  | 0 => ⟨1, v, 0, r.out⟩
  | 1 => ⟨2, v % 16, 0, r.out ++ [Fin.ofNat 256 (r.left * 4 + v / 16)]⟩
  | 2 => ⟨3, v % 4, 0, r.out ++ [Fin.ofNat 256 (r.left * 16 + v / 4)]⟩
  | _ => ⟨0, 0, 0, r.out ++ [Fin.ofNat 256 (r.left * 64 + v)]⟩

/-- Characters outside the alphabet are skipped; enough padding ends the text. -/
def decodeFrom (r : Reader) : List Byte → Except String (List Byte)
  | [] =>
      if r.quad = 0 then .ok r.out
      else if r.quad = 1 then
        .error ("Invalid base64-encoded string: number of data characters (" ++
          toString (r.out.length / 3 * 4 + 1) ++ ") cannot be 1 more than a multiple of 4")
      else .error "Incorrect padding"
  | c :: rest =>
      if c = pad then
        if 2 ≤ r.quad then
          if 4 ≤ r.quad + (r.pads + 1) then .ok r.out
          else decodeFrom { r with pads := r.pads + 1 } rest
        else decodeFrom r rest
      else
        match value? c with
        | none => decodeFrom r rest
        | some v => decodeFrom (r.digit v) rest

def decode (text : List Byte) : Except String (List Byte) := decodeFrom ⟨0, 0, 0, []⟩ text

theorem decodeFrom_symbol (r : Reader) {v : Nat} (h : v < 64) (rest : List Byte) :
    decodeFrom r (symbol v :: rest) = decodeFrom (r.digit v) rest := by
  rw [decodeFrom, if_neg (symbol_ne_pad v), value?_symbol h]

theorem ofNat_eq {n : Nat} {b : Byte} (h : n = b.val) : Fin.ofNat 256 n = b := by
  apply Fin.ext
  rw [h]
  exact Nat.mod_eq_of_lt b.isLt

/-- The first two characters of a group hold its first byte. -/
theorem decodeFrom_first (out : List Byte) (a : Byte) {v : Nat} (h : v < 16) (rest : List Byte) :
    decodeFrom ⟨0, 0, 0, out⟩ (symbol (a.val / 4) :: symbol (a.val % 4 * 16 + v) :: rest) =
      decodeFrom ⟨2, v, 0, out ++ [a]⟩ rest := by
  have ha := a.isLt
  have hbyte : a.val / 4 * 4 + (a.val % 4 * 16 + v) / 16 = a.val := by omega
  have hleft : (a.val % 4 * 16 + v) % 16 = v := by omega
  rw [decodeFrom_symbol _ (by omega), decodeFrom_symbol _ (by omega)]
  simp only [Reader.digit]
  rw [ofNat_eq hbyte, hleft]

theorem decodeFrom_second (out : List Byte) (b : Byte) {v : Nat} (h : v < 4) (rest : List Byte) :
    decodeFrom ⟨2, b.val / 16, 0, out⟩ (symbol (b.val % 16 * 4 + v) :: rest) =
      decodeFrom ⟨3, v, 0, out ++ [b]⟩ rest := by
  have hb := b.isLt
  have hbyte : b.val / 16 * 16 + (b.val % 16 * 4 + v) / 4 = b.val := by omega
  have hleft : (b.val % 16 * 4 + v) % 4 = v := by omega
  rw [decodeFrom_symbol _ (by omega)]
  simp only [Reader.digit]
  rw [ofNat_eq hbyte, hleft]

theorem decodeFrom_third (out : List Byte) (c : Byte) (rest : List Byte) :
    decodeFrom ⟨3, c.val / 64, 0, out⟩ (symbol (c.val % 64) :: rest) =
      decodeFrom ⟨0, 0, 0, out ++ [c]⟩ rest := by
  have hbyte : c.val / 64 * 64 + c.val % 64 = c.val := by omega
  rw [decodeFrom_symbol _ (by omega)]
  simp only [Reader.digit]
  rw [ofNat_eq hbyte]

theorem decodeFrom_pad (left : Nat) (out rest : List Byte) :
    decodeFrom ⟨3, left, 0, out⟩ (pad :: rest) = .ok out := rfl

theorem decodeFrom_pad_pad (left : Nat) (out rest : List Byte) :
    decodeFrom ⟨2, left, 0, out⟩ (pad :: pad :: rest) = .ok out := rfl

theorem decodeFrom_encode (out raw : List Byte) :
    decodeFrom ⟨0, 0, 0, out⟩ (encode raw) = .ok (out ++ raw) := by
  induction raw using encode.induct generalizing out with
  | case1 a b c rest ih =>
      have hb := b.isLt
      have hc := c.isLt
      rw [encode, decodeFrom_first out a (by omega), decodeFrom_second _ b (by omega), decodeFrom_third, ih]
      simp
  | case2 a b =>
      have hb := b.isLt
      rw [encode, decodeFrom_first out a (by omega)]
      have hsecond := decodeFrom_second (out ++ [a]) b (v := 0) (by omega) [pad]
      rw [Nat.add_zero] at hsecond
      rw [hsecond, decodeFrom_pad, List.append_assoc]
      rfl
  | case3 a =>
      have hfirst := decodeFrom_first out a (v := 0) (by omega) [pad, pad]
      rw [Nat.add_zero] at hfirst
      rw [encode, hfirst, decodeFrom_pad_pad]
  | case4 =>
      rw [encode, decodeFrom, if_pos rfl, List.append_nil]

/-- **Round trip.** -/
theorem decode_encode (raw : List Byte) : decode (encode raw) = .ok raw :=
  decodeFrom_encode [] raw

/-! ### The alphabet for URLs -/

def toUrl (c : Byte) : Byte := if c = 43 then 45 else if c = 47 then 95 else c

def ofUrl (c : Byte) : Byte := if c = 45 then 43 else if c = 95 then 47 else c

def urlsafeEncode (raw : List Byte) : List Byte := (encode raw).map toUrl

def urlsafeDecode (text : List Byte) : Except String (List Byte) := decode (text.map ofUrl)

/-- Letters, digits, and the two marks of the alphabet for URLs. -/
def UrlChar (c : Byte) : Prop :=
  65 ≤ c ∧ c ≤ 90 ∨ 97 ≤ c ∧ c ≤ 122 ∨ 48 ≤ c ∧ c ≤ 57 ∨ c = 45 ∨ c = 95

instance (c : Byte) : Decidable (UrlChar c) := by
  unfold UrlChar
  infer_instance

theorem urlChar_symbol {v : Nat} (h : v < 64) : UrlChar (toUrl (symbol v)) := by
  have hall : ∀ v < 64, UrlChar (toUrl (symbol v)) := by decide
  exact hall v h

theorem ofUrl_toUrl_symbol {v : Nat} (h : v < 64) : ofUrl (toUrl (symbol v)) = symbol v := by
  have hall : ∀ v < 64, ofUrl (toUrl (symbol v)) = symbol v := by decide
  exact hall v h

theorem UrlChar.ne_pad {c : Byte} (h : UrlChar c) : c ≠ pad := by
  rintro rfl
  revert h
  decide

theorem map_ofUrl_urlsafeEncode (raw : List Byte) : (urlsafeEncode raw).map ofUrl = encode raw := by
  obtain ⟨values, k, hencode, hvalues, -⟩ := exists_symbols raw
  rw [urlsafeEncode, hencode, List.map_append, List.map_append, List.map_map, List.map_map,
    List.map_replicate, List.map_replicate]
  congr 1
  apply List.map_congr_left
  intro v hv
  exact ofUrl_toUrl_symbol (hvalues v hv)

theorem urlsafeDecode_urlsafeEncode (raw : List Byte) : urlsafeDecode (urlsafeEncode raw) = .ok raw := by
  rw [urlsafeDecode, map_ofUrl_urlsafeEncode, decode_encode]

/-! ### Without the padding -/

def unpad (text : List Byte) : List Byte := text.rdropWhile (· = pad)

theorem rdropWhile_replicate {α : Type} {p : α → Bool} {text : List α} {a : α} (ha : p a = true)
    (h : ∀ c ∈ text, p c = false) (k : Nat) : (text ++ List.replicate k a).rdropWhile p = text := by
  induction k with
  | zero =>
      rw [List.replicate_zero, List.append_nil]
      apply List.rdropWhile_eq_self_iff.mpr
      intro hne hlast
      rw [h _ (List.getLast_mem hne)] at hlast
      cases hlast
  | succ k ih => rw [List.replicate_succ', ← List.append_assoc, List.rdropWhile_concat_pos _ _ _ ha, ih]

/-- What is left without the padding, and how much padding there was. -/
theorem urlsafeEncode_eq (raw : List Byte) : (∀ c ∈ unpad (urlsafeEncode raw), UrlChar c) ∧
    ∃ k, urlsafeEncode raw = unpad (urlsafeEncode raw) ++ List.replicate k pad ∧ k < 4 ∧
      ((unpad (urlsafeEncode raw)).length + k) % 4 = 0 := by
  obtain ⟨values, k, hencode, hvalues, hk, hlength⟩ := exists_symbols raw
  have hchars : ∀ c ∈ (values.map symbol).map toUrl, UrlChar c := by
    simp only [List.mem_map, forall_exists_index, and_imp, forall_apply_eq_imp_iff₂]
    intro v hv
    exact urlChar_symbol (hvalues v hv)
  have hwhole : urlsafeEncode raw = (values.map symbol).map toUrl ++ List.replicate k pad := by
    rw [urlsafeEncode, hencode, List.map_append, List.map_replicate]
    rfl
  have hunpad : unpad (urlsafeEncode raw) = (values.map symbol).map toUrl := by
    rw [hwhole, unpad]
    apply rdropWhile_replicate (by decide)
    intro c hc
    exact decide_eq_false (hchars c hc).ne_pad
  rw [hunpad]
  refine ⟨hchars, k, hwhole, hk, ?_⟩
  rw [List.length_map, List.length_map]
  exact hlength

end Base64
