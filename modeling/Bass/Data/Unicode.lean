import Bass.Data.Base64

/-!
# Strings of code points

Strings may have halves of surrogate pairs in them, which have no encoding. Everything else has.
-/

namespace Unicode

abbrev CodePoint : Type := Fin 1114112

abbrev Str : Type := List CodePoint

def ofString (text : String) : Str :=
  text.toList.map fun c => ⟨c.toNat, by have hvalid := c.valid; simp only [Char.toNat]; grind⟩

/-- Each byte as the code point of its number, as for bytes of ASCII. -/
def ofBytes (raw : List Byte) : Str := raw.map fun b => ⟨b.val, b.isLt.trans (by decide)⟩

def isAscii (s : Str) : Bool := s.all fun c => c.val < 128

/-- The bytes of a string of ASCII. -/
def toBytes (s : Str) : List Byte := s.map fun c => Fin.ofNat 256 c.val

def isSurrogate (c : CodePoint) : Bool := 55296 ≤ c.val && c.val ≤ 57343

def utf8 (c : CodePoint) : Option (List Byte) :=
  if c.val < 128 then some [Fin.ofNat 256 c.val]
  else if c.val < 2048 then some [Fin.ofNat 256 (192 + c.val / 64), Fin.ofNat 256 (128 + c.val % 64)]
  else if isSurrogate c then none
  else if c.val < 65536 then
    some [Fin.ofNat 256 (224 + c.val / 4096), Fin.ofNat 256 (128 + c.val / 64 % 64),
      Fin.ofNat 256 (128 + c.val % 64)]
  else
    some [Fin.ofNat 256 (240 + c.val / 262144), Fin.ofNat 256 (128 + c.val / 4096 % 64),
      Fin.ofNat 256 (128 + c.val / 64 % 64), Fin.ofNat 256 (128 + c.val % 64)]

/-- The encoding in UTF-8, if there is one. -/
def encode : Str → Option (List Byte)
  | [] => some []
  | c :: s => do return (← utf8 c) ++ (← encode s)

theorem utf8_eq_none_iff {c : CodePoint} : utf8 c = none ↔ isSurrogate c = true := by
  unfold utf8
  by_cases hascii : c.val < 128
  · rw [if_pos hascii]
    simp only [isSurrogate, Bool.and_eq_true, decide_eq_true_eq, reduceCtorEq, false_iff]
    omega
  · rw [if_neg hascii]
    by_cases htwo : c.val < 2048
    · rw [if_pos htwo]
      simp only [isSurrogate, Bool.and_eq_true, decide_eq_true_eq, reduceCtorEq, false_iff]
      omega
    · rw [if_neg htwo]
      by_cases hsurrogate : isSurrogate c = true
      · rw [if_pos hsurrogate]
        exact iff_of_true rfl hsurrogate
      · rw [if_neg hsurrogate]
        apply iff_of_false _ hsurrogate
        split <;> simp

theorem encode_eq_none_iff {s : Str} : encode s = none ↔ s.any isSurrogate = true := by
  induction s with
  | nil => simp [encode]
  | cons c s ih =>
      rw [encode, List.any_cons, Bool.or_eq_true, ← utf8_eq_none_iff, ← ih]
      cases utf8 c <;> cases encode s <;> simp

theorem exists_encode {s : Str} (h : s.any isSurrogate = false) : ∃ raw, encode s = some raw := by
  apply Option.ne_none_iff_exists'.mp
  intro hnone
  rw [encode_eq_none_iff.mp hnone] at h
  cases h

theorem encode_of_isAscii {s : Str} (h : isAscii s = true) : encode s = some (toBytes s) := by
  induction s with
  | nil => rfl
  | cons c s ih =>
      obtain ⟨hc, hs⟩ : c.val < 128 ∧ isAscii s = true := by simpa [isAscii] using h
      rw [encode, utf8, if_pos hc, ih hs]
      rfl

theorem toBytes_ofBytes (raw : List Byte) : toBytes (ofBytes raw) = raw := by
  rw [toBytes, ofBytes, List.map_map]
  apply List.map_id''
  intro b
  apply Fin.ext
  exact Nat.mod_eq_of_lt b.isLt

theorem isAscii_append {s t : Str} : isAscii (s ++ t) = (isAscii s && isAscii t) := List.all_append

end Unicode
