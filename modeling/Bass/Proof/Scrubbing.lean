import Bass.Data.Splitting
import Bass.Proof.Secrets

/-!
# What redaction does to a value

Redaction does not look under secret keys, and it keeps the shape of a value: its keys in their order,
the lengths of its lists, and every scalar that is not a text and not under a secret key.

A text that was scrubbed has no match of a pattern any more, and scrubbing it again changes nothing, but
for one case: a bearer token is replaced although it is directly followed by what is a card number when
it does not follow a letter. Keys are never scrubbed.
-/

namespace Bass.Redaction

open Regex

/-! ### The shape of a value -/

mutual

/-- The value with its texts blanked out, and what it holds under secret keys left out. -/
def shape : Json → Json
  | .obj fields => .obj (shapeFields fields)
  | .arr items => .arr (shapeItems items)
  | .str _ => .str ""
  | value => value

def shapeItems : List Json → List Json
  | [] => []
  | value :: rest => shape value :: shapeItems rest

def shapeFields : List (String × Json) → List (String × Json)
  | [] => []
  | (key, value) :: rest =>
      (key, if isSecretKey key then .null else shape value) :: shapeFields rest

end

variable (classes : CharClasses)

mutual

theorem shape_redact (v : Json) : shape (redact classes v) = shape v := by
  cases v with
  | obj fields => rw [redact, shape, shape, shapeFields_redactFields fields]
  | arr items => rw [redact, shape, shape, shapeItems_redactItems items]
  | str value => rw [redact, shape, shape]
  | _ => rfl

theorem shapeItems_redactItems (items : List Json) :
    shapeItems (redactItems classes items) = shapeItems items := by
  cases items with
  | nil => rfl
  | cons value rest =>
      rw [redactItems, shapeItems, shapeItems, shape_redact value, shapeItems_redactItems rest]

theorem shapeFields_redactFields (fields : List (String × Json)) :
    shapeFields (redactFields classes fields) = shapeFields fields := by
  cases fields with
  | nil => rfl
  | cons field rest =>
      obtain ⟨key, value⟩ := field
      rw [redactFields, shapeFields, shapeFields, shapeFields_redactFields rest]
      by_cases hkey : isSecretKey key = true
      · simp only [if_pos hkey]
      · simp only [if_neg hkey, shape_redact value]

end

/-- What is stored under a secret key has no influence on the redacted value, and nothing else of the
value is lost but texts. -/
theorem redact_hides_and_keeps :
    (∀ v v' : Json, Alike v v' → redact classes v = redact classes v') ∧
      ∀ v : Json, shape (redact classes v) = shape v := by
  constructor
  · intro v v' halike
    exact redact_eq_of_alike halike
  · exact shape_redact classes

theorem redact_hides_and_keeps_login :
    redact .ascii (.obj [("user", .str "ann"), ("password", .str "hunter2"), ("tries", .int 3)]) =
      redact .ascii (.obj [("user", .str "ann"), ("password", .arr [.int 1, .null]), ("tries", .int 3)]) :=
  (redact_hides_and_keeps .ascii).1 _ _ (by
    have hsecret : isSecretKey "password" = true := by decide +kernel
    simp [Alike, mask, maskFields, hsecret])

/-! ### The patterns -/

/-- The classes of the interpreter: every decimal digit may be part of a word. -/
structure UnicodeClasses extends CharClasses where
  digit_word : ∀ c, digit c = true → word c = true

variable {classes}

theorem word_star : classes.word '*' = false := by
  rw [classes.word_ascii '*' (by decide)]
  decide

theorem redacted_ascii : ∀ c ∈ redacted.toList, c.toNat < 128 :=
  List.forall_iff_forall_mem.mp (by decide)

theorem countP_redacted_digit : redacted.toList.countP classes.digit = 0 := by
  have hdigits : ∀ c ∈ redacted.toList, c.isDigit = false :=
    List.forall_iff_forall_mem.mp (by decide)
  rw [List.countP_eq_zero]
  intro c hc
  rw [classes.digit_ascii c (redacted_ascii c hc), hdigits c hc]
  exact Bool.false_ne_true

theorem countP_redacted_space : redacted.toList.countP classes.space = 0 := by
  have hspaces : ∀ c ∈ redacted.toList, 33 ≤ c.toNat :=
    List.forall_iff_forall_mem.mp (by decide)
  rw [List.countP_eq_zero]
  intro c hc
  have hlarge := hspaces c hc
  rw [classes.space_ascii c (redacted_ascii c hc)]
  simp only [decide_eq_true_eq]
  omega

/-- A class without the character of the replacement. -/
theorem ne_star {p : Char → Bool} (hp : p '*' = false) (c : Char) (hc : p c = true) : (c != '*') = true := by
  rw [bne_iff_ne]
  rintro rfl
  rw [hp] at hc
  contradiction

theorem within_exactly {text : String} (h : '*' ∉ text.toList) : (exactly text).Within (· != '*') := by
  apply within_literal
  intro x hx c hc
  rw [bne_iff_ne]
  rintro rfl
  rw [beq_iff_eq] at hc
  exact h (hc ▸ hx)

theorem within_ignoringCase {text : String} (h : '*' ∉ text.toList) :
    (ignoringCase text).Within (· != '*') := by
  apply within_literal
  intro x hx c hc
  rw [bne_iff_ne]
  rintro rfl
  rw [show foldCase '*' = '*' by decide, beq_iff_eq] at hc
  exact h (hc ▸ hx)

theorem within_some1 {p : Char → Bool} (hp : p '*' = false) : (some1 p).Within (· != '*') := ne_star hp

theorem proper_some1 (p : Char → Bool) : (some1 p).Proper := ⟨trivial, .char fun _ _ => rfl⟩

theorem seals_anthropicKey : Seals (fun _ => false) '*' redacted.toList anthropicKey where
  proper := ⟨proper_literal _ _, trivial, .char fun _ _ => rfl⟩
  boundaries := ⟨boundariesOn_literal _ _ _, trivial⟩
  within := ⟨within_exactly (by decide), ne_star (by decide)⟩
  lacks := ⟨_, anthropicKey_consumes.needs, by decide⟩
  nonword := rfl
  head := rfl
  last := rfl

variable (classes)

theorem seals_email : Seals classes.word '*' redacted.toList (email classes) where
  proper := ⟨trivial, proper_some1 _, proper_literal _ _, proper_some1 _, proper_literal _ _,
    ⟨trivial, .char fun _ _ => rfl⟩, trivial⟩
  boundaries := ⟨rfl, trivial, boundariesOn_literal _ _ _, trivial, boundariesOn_literal _ _ _, trivial, rfl⟩
  within := ⟨trivial, within_some1 (by decide), within_exactly (by decide), within_some1 (by decide),
    within_exactly (by decide), ne_star (by decide), trivial⟩
  lacks := ⟨_, (email_consumes classes).needs, by decide⟩
  nonword := word_star
  head := rfl
  last := rfl

theorem proper_cardNumber : (cardNumber classes).Proper := by
  have hseparators : ∀ p, (Regex.rep (.char p) 0 none false).Proper := fun _ => ⟨trivial, .char fun _ _ => rfl⟩
  refine ⟨trivial, ⟨⟨trivial, hseparators _⟩, ?_⟩, trivial⟩
  exact .seq (m := 1) (n := 0) (.char fun _ _ => rfl) (.nothing _)

theorem seals_cardNumber : Seals classes.word '*' redacted.toList (cardNumber classes) where
  proper := proper_cardNumber classes
  boundaries := ⟨rfl, ⟨trivial, trivial⟩, rfl⟩
  within := by
    have hdigit : classes.digit '*' = false := by
      rw [classes.digit_ascii '*' (by decide)]
      decide
    exact ⟨trivial, ⟨ne_star hdigit, ne_star (by decide)⟩, trivial⟩
  lacks := ⟨_, (cardNumber_consumes classes).needs, countP_redacted_digit⟩
  nonword := word_star
  head := rfl
  last := rfl

theorem seals_bearerToken : Seals classes.word '*' redacted.toList (bearerToken classes) where
  proper := ⟨trivial, proper_literal _ _, proper_some1 _, proper_some1 _⟩
  boundaries := ⟨rfl, boundariesOn_literal _ _ _, trivial, trivial⟩
  within := by
    have hspace : classes.space '*' = false := by
      rw [classes.space_ascii '*' (by decide)]
      decide
    exact ⟨trivial, within_ignoringCase (by decide), within_some1 hspace, within_some1 (by decide)⟩
  lacks := ⟨_, (bearerToken_consumes classes).needs, countP_redacted_space⟩
  nonword := word_star
  head := rfl
  last := rfl

/-! ### The edges of the patterns -/

theorem fencedRight_email : (email classes).FencedRight classes.word :=
  ((((((fencedRight_boundary _).seq _).seq _).seq _).seq _).seq _).seq _

theorem fencedRight_cardNumber : (cardNumber classes).FencedRight classes.word :=
  ((fencedRight_boundary _).seq _).seq _

def isTokenChar (c : Char) : Bool := (foldCase c).isAlphanum || ['.', '_', '-'].contains c

theorem stopsBefore_bearerToken : (bearerToken classes).StopsBefore isTokenChar :=
  (((stopsBefore_rep isTokenChar 1).seq _).seq _).seq _

theorem startsIn_email :
    (email classes).StartsIn fun c => c.isAlphanum || ['.', '_', '%', '+', '-'].contains c :=
  (((startsIn_char _).rep 0 none true).seq _).after_boundary _

theorem startsIn_bearerToken : (bearerToken classes).StartsIn fun c => foldCase c == 'b' :=
  (((startsIn_char _).seq _).seq _).after_boundary _

theorem toNat_lt_of_isAlphanum {c : Char} (h : c.isAlphanum = true) : c.toNat < 128 := by
  delta Char.isAlphanum Char.isAlpha Char.isUpper Char.isLower Char.isDigit at h
  simp only [Bool.or_eq_true, Bool.and_eq_true, decide_eq_true_eq, ge_iff_le, UInt32.le_iff_toNat_le] at h
  have hlarge : 'Z'.val.toNat < 128 ∧ 'z'.val.toNat < 128 ∧ '9'.val.toNat < 128 := by decide
  change c.val.toNat < 128
  omega

theorem foldCase_isAlphanum {c : Char} (h : c.isAlphanum = true) : (foldCase c).isAlphanum = true := by
  have hascii : ∀ n < 128, (Char.ofNat n).isAlphanum = true →
      (foldCase (Char.ofNat n)).isAlphanum = true := by decide +kernel
  have hfold := hascii c.toNat (toNat_lt_of_isAlphanum h)
  rw [Char.ofNat_toNat] at hfold
  exact hfold h

/-- No email begins where a bearer token stops. -/
theorem covers_bearerToken_email : Covers '*' (bearerToken classes) (email classes) := by
  apply (seals_email classes).covers_of_stopsBefore (stopsBefore_bearerToken classes)
    (startsIn_email classes) (fenced_seq _ _)
  intro x hx hword
  by_cases hletter : x.isAlphanum = true
  · rw [isTokenChar, foldCase_isAlphanum hletter, Bool.true_or]
  · have hpercent : classes.word '%' = false := by
      rw [classes.word_ascii '%' (by decide)]
      decide
    have hplus : classes.word '+' = false := by
      rw [classes.word_ascii '+' (by decide)]
      decide
    simp only [hletter, Bool.false_or, List.contains_eq_mem, decide_eq_true_eq, List.mem_cons,
      List.not_mem_nil, or_false] at hx
    rcases hx with rfl | rfl | rfl | rfl | rfl
    · decide
    · decide
    · rw [hpercent] at hword
      contradiction
    · rw [hplus] at hword
      contradiction
    · decide

theorem covers_bearerToken_self : Covers '*' (bearerToken classes) (bearerToken classes) := by
  apply (seals_bearerToken classes).covers_of_stopsBefore (stopsBefore_bearerToken classes)
    (startsIn_bearerToken classes) (fenced_seq _ _)
  intro x hx _
  have hletter : foldCase x = 'b' := beq_iff_eq.mp hx
  have hb : 'b'.isAlphanum = true := by decide
  rw [isTokenChar, hletter, hb, Bool.true_or]

/-! ### A scrubbed text -/

/-- What the first three patterns leave. -/
def withoutKeysEmailsCards (value : String) : List Char :=
  (cardNumber classes).sub redacted.toList
    ((email classes).sub redacted.toList (anthropicKey.sub redacted.toList value.toList))

theorem toList_scrubStr (value : String) : (scrubStr classes value).toList =
    (bearerToken classes).sub redacted.toList (withoutKeysEmailsCards classes value) := by
  rw [scrubStr, String.toList_ofList]
  rfl

/-- A bearer token of the text is directly followed by what is a card number when it does not follow a
letter. -/
def UncoversCard (text : List Char) : Prop :=
  ∃ next ∈ (bearerToken classes).replaced text, (cardNumber classes).ends ⟨some '*', next.rest⟩ ≠ []

/-- The pieces of a text between its Anthropic keys, its emails and its card numbers. -/
def remnants (text : String) : List (List Char) :=
  pieces [anthropicKey, email classes, cardNumber classes] text.toList

theorem withoutKeysEmailsCards_eq (value : String) :
    withoutKeysEmailsCards classes value = redacted.toList.intercalate (remnants classes value) := by
  have hsealed : ∀ r ∈ [anthropicKey, email classes, cardNumber classes],
      ∃ word, Seals word '*' redacted.toList r := by
    simp only [List.forall_mem_cons, List.not_mem_nil, false_implies, implies_true, and_true]
    exact ⟨⟨_, seals_anthropicKey⟩, ⟨_, seals_email classes⟩, ⟨_, seals_cardNumber classes⟩⟩
  exact foldl_sub_eq hsealed value.toList

/-- What the first three patterns leave uncovers a card number just if a piece of the text does. -/
theorem uncoversCard_iff (value : String) : UncoversCard classes (withoutKeysEmailsCards classes value) ↔
    ∃ piece ∈ remnants classes value, UncoversCard classes piece := by
  have hcards := seals_cardNumber classes
  let Uncovered (rest : List Char) : Prop := (cardNumber classes).ends ⟨some '*', rest⟩ ≠ []
  have huncovered : ∀ rest tail : List Char, (∀ x ∈ tail.head?, x = '*') →
      (Uncovered (rest ++ tail) ↔ Uncovered rest) := by
    intro rest tail htail
    have hahead : Ahead classes.word tail ⟨some '*', rest ++ tail⟩ ⟨some '*', rest⟩ := ⟨rfl, rfl⟩
    have hends := hcards.forall₂_ends htail hahead
    change (cardNumber classes).ends _ ≠ [] ↔ (cardNumber classes).ends _ ≠ []
    rw [← List.length_pos_iff, ← List.length_pos_iff, hends.length_eq]
  rw [withoutKeysEmailsCards_eq]
  exact ((seals_bearerToken classes).scan_intercalate Uncovered huncovered _ _ none rfl (Nat.le_refl _)).2

theorem search_withoutKeysEmailsCards (value : String) :
    anthropicKey.search (withoutKeysEmailsCards classes value) = false ∧
      (email classes).search (withoutKeysEmailsCards classes value) = false ∧
        (cardNumber classes).search (withoutKeysEmailsCards classes value) = false := by
  have hkeys := seals_anthropicKey
  have hemails := seals_email classes
  have hcards := seals_cardNumber classes
  have hneeds : ∀ {r : Regex} {word : Char → Bool}, Seals word '*' redacted.toList r → ∃ p, r.Needs p := by
    intro r word hr
    obtain ⟨p, hp, -⟩ := hr.lacks
    exact ⟨p, hp⟩
  have hnever : ∀ x : Char, (fun _ => false) x = false := fun _ => rfl
  constructor
  · apply hkeys.search_sub_of_search hcards.proper (hneeds hcards) (Or.inr hnever) hkeys.covers_of_free
    apply hkeys.search_sub_of_search hemails.proper (hneeds hemails) (Or.inr hnever) hkeys.covers_of_free
    exact hkeys.search_sub_self (Or.inr hnever) hkeys.covers_of_free _
  · constructor
    · apply hemails.search_sub_of_search hcards.proper (hneeds hcards) (Or.inl (fenced_seq _ _))
        (hemails.covers_of_fencedRight (fencedRight_cardNumber classes))
      exact hemails.search_sub_self (Or.inl (fenced_seq _ _))
        (hemails.covers_of_fencedRight (fencedRight_email classes)) _
    · exact hcards.search_sub_self (Or.inl (fenced_seq _ _))
        (hcards.covers_of_fencedRight (fencedRight_cardNumber classes)) _

theorem search_scrubStr (value : String) :
    anthropicKey.search (scrubStr classes value).toList = false ∧
      (email classes).search (scrubStr classes value).toList = false ∧
        (bearerToken classes).search (scrubStr classes value).toList = false := by
  obtain ⟨hkey, hemail, -⟩ := search_withoutKeysEmailsCards classes value
  have hbearer := seals_bearerToken classes
  have hneeds : ∃ p, (bearerToken classes).Needs p := ⟨_, (bearerToken_consumes classes).needs⟩
  have hnever : ∀ x : Char, (fun _ => false) x = false := fun _ => rfl
  rw [toList_scrubStr]
  refine ⟨?_, ?_, ?_⟩
  · exact seals_anthropicKey.search_sub_of_search hbearer.proper hneeds (Or.inr hnever)
      seals_anthropicKey.covers_of_free hkey
  · exact (seals_email classes).search_sub_of_search hbearer.proper hneeds (Or.inl (fenced_seq _ _))
      (covers_bearerToken_email classes) hemail
  · exact hbearer.search_sub_self (Or.inl (fenced_seq _ _)) (covers_bearerToken_self classes) _

/-! ### Card numbers -/

def isSeparator (c : Char) : Bool := c == ' ' || c == '-'

/-- A digit with what may follow it. -/
def IsGroup (v : List Char) : Prop :=
  ∃ d separators, v = d :: separators ∧ classes.digit d = true ∧ ∀ x ∈ separators, isSeparator x = true

theorem matches_cardNumber_iff {prev : Option Char} {w rest : List Char} :
    (cardNumber classes).Matches prev w rest ↔
      (Edge classes.word prev (w ++ rest) ∧ Edge classes.word (past prev w) rest) ∧
        ∃ groups : List (List Char), 13 ≤ groups.length ∧ groups.length ≤ 19 ∧ groups.flatten = w ∧
          ∀ v ∈ groups, IsGroup classes v := by
  have hgroup : ∀ prev v rest,
      (Regex.seq (.char classes.digit) (.rep (.char isSeparator) 0 none false)).Matches prev v rest ↔
        IsGroup classes v := by
    intro prev v rest
    constructor
    · rintro ⟨_, separators, rfl, ⟨d, rfl, hd⟩, hseparators⟩
      exact ⟨d, separators, rfl, hd, matches_rep_char_iff.mp hseparators⟩
    · rintro ⟨d, separators, rfl, hd, hseparators⟩
      exact ⟨[d], separators, rfl, ⟨d, rfl, hd⟩, matches_rep_char_iff.mpr hseparators⟩
  constructor
  · rintro ⟨_, _, rfl, ⟨rfl, hleft⟩, _, _, rfl, ⟨k, hk, hpasses⟩, rfl, hright⟩
    obtain ⟨groups, hlength, hflatten, hgroups⟩ := (passes_iff hgroup _ _ _ _).mp hpasses
    have hmax := hk 19 rfl
    refine ⟨⟨?_, ?_⟩, groups, by omega, by omega, ?_, hgroups⟩
    · simpa using hleft
    · simpa using hright
    · simpa using hflatten
  · rintro ⟨⟨hleft, hright⟩, groups, hmin, hmax, rfl, hgroups⟩
    refine ⟨[], groups.flatten, rfl, ⟨rfl, hleft⟩, groups.flatten, [], (List.append_nil _).symm, ?_, rfl, hright⟩
    refine ⟨groups.length - 13, fun m hm => ?_, (passes_iff hgroup _ _ _ _).mpr ?_⟩
    · obtain rfl := Option.some.inj hm
      omega
    · exact ⟨groups, by omega, rfl, hgroups⟩

/-- A card number can be taken to end with a digit. -/
theorem exists_cardNumber (classes : UnicodeClasses) {prev : Option Char} {w rest : List Char}
    (h : (cardNumber classes.toCharClasses).Matches prev w rest) :
    ∃ w' rest', w ++ rest = w' ++ rest' ∧ (cardNumber classes.toCharClasses).Matches prev w' rest' ∧
      (past none w').any classes.word = true := by
  obtain ⟨⟨hleft, hright⟩, groups, hmin, hmax, rfl, hgroups⟩ := (matches_cardNumber_iff _).mp h
  rcases List.eq_nil_or_concat groups with rfl | ⟨before, last, rfl⟩
  · simp at hmin
  · obtain ⟨d, separators, rfl, hd, hseparators⟩ := hgroups last (by simp)
    have hword := classes.digit_word d hd
    have hpast : ∀ prev, past prev (before.flatten ++ [d]) = some d := by
      intro prev
      rw [past_append, past_singleton]
    refine ⟨before.flatten ++ [d], separators ++ rest, ?_, ?_, ?_⟩
    · simp
    · apply (matches_cardNumber_iff _).mpr
      refine ⟨⟨?_, ?_⟩, before ++ [[d]], ?_, ?_, ?_, ?_⟩
      · simpa using hleft
      · rw [hpast, Edge, Option.any_some, hword]
        cases separators with
        | nil => simpa [Edge, hword, past_append] using hright
        | cons x separators =>
            have hx : classes.word x = false := by
              have hseparator := hseparators x List.mem_cons_self
              simp only [isSeparator, Bool.or_eq_true, beq_iff_eq] at hseparator
              rcases hseparator with rfl | rfl
              · rw [classes.word_ascii ' ' (by decide)]
                decide
              · rw [classes.word_ascii '-' (by decide)]
                decide
            simp [hx]
      · simpa using hmin
      · simpa using hmax
      · simp
      · intro v hv
        rcases List.mem_append.mp hv with hv | hv
        · exact hgroups v (by simp [hv])
        · obtain rfl := List.mem_singleton.mp hv
          exact ⟨d, [], rfl, hd, by simp⟩
    · rw [hpast, Option.any_some, hword]

theorem foldCase_eq_b {c : Char} (h : foldCase c = 'b') : c = 'b' ∨ c = 'B' := by
  by_cases hascii : c.toNat < 128
  · have hall : ∀ n < 128, foldCase (Char.ofNat n) = 'b' → Char.ofNat n = 'b' ∨ Char.ofNat n = 'B' := by
      decide +kernel
    have hc := hall c.toNat hascii
    rw [Char.ofNat_toNat] at hc
    exact hc h
  · have hlower : c.toLower = c := by
      delta Char.toLower
      rw [dif_neg]
      rintro ⟨-, hle⟩
      rw [UInt32.le_iff_toNat_le] at hle
      have hlarge : 'Z'.val.toNat < 128 := by decide
      change ¬ c.val.toNat < 128 at hascii
      omega
    rw [foldCase, hlower] at h
    split at h
    · exact absurd h (by decide)
    · split at h
      · exact absurd h (by decide)
      · split at h
        · exact absurd h (by decide)
        · exact Or.inl h

/-- No bearer token begins in a card number. -/
theorem bearerToken_ends_eq_nil {prev : Option Char} {w rest v v' : List Char}
    (h : (cardNumber classes).Matches prev w rest) (heq : w = v ++ v') (hv' : v' ≠ [])
    (prev' : Option Char) : (bearerToken classes).ends ⟨prev', v' ++ rest⟩ = [] := by
  by_contra hends
  have hstarts := startsIn_bearerToken classes _ hends
  obtain ⟨x, v', rfl⟩ := List.exists_cons_of_ne_nil hv'
  have hfold : foldCase x = 'b' := beq_iff_eq.mp hstarts
  have hwithin : (cardNumber classes).Within fun c => classes.digit c || isSeparator c := by
    refine ⟨trivial, ⟨fun c hc => ?_, fun c hc => ?_⟩, trivial⟩
    · change (classes.digit c || isSeparator c) = true
      rw [hc, Bool.true_or]
    · change (classes.digit c || isSeparator c) = true
      rw [show isSeparator c = true from hc, Bool.or_true]
  have hx := h.forall hwithin x (heq ▸ List.mem_append_right v List.mem_cons_self)
  rcases foldCase_eq_b hfold with rfl | rfl
  · rw [classes.digit_ascii 'b' (by decide)] at hx
    exact absurd hx (by decide)
  · rw [classes.digit_ascii 'B' (by decide)] at hx
    exact absurd hx (by decide)

/-- The pattern of card numbers matches a scrubbed text just if a bearer token covered the match. -/
theorem search_cardNumber_iff (classes : UnicodeClasses) (value : String) :
    (cardNumber classes.toCharClasses).search (scrubStr classes.toCharClasses value).toList = true ↔
      ∃ piece ∈ remnants classes.toCharClasses value, UncoversCard classes.toCharClasses piece := by
  have hcards := seals_cardNumber classes.toCharClasses
  have hbearer := seals_bearerToken classes.toCharClasses
  have hneeds : ∃ p, (bearerToken classes.toCharClasses).Needs p :=
    ⟨_, (bearerToken_consumes classes.toCharClasses).needs⟩
  obtain ⟨-, -, hfree⟩ := search_withoutKeysEmailsCards classes.toCharClasses value
  rw [toList_scrubStr, ← uncoversCard_iff]
  generalize withoutKeysEmailsCards classes.toCharClasses value = text at hfree ⊢
  constructor
  · intro hsearch
    by_contra hcovered
    have hnone : (cardNumber classes.toCharClasses).search
        ((bearerToken classes.toCharClasses).sub redacted.toList text) = false := by
      apply hcards.searchFrom_subFrom hbearer.proper hneeds (Or.inl (fenced_seq _ _)) text.length
        ⟨none, text⟩ (Nat.le_refl _) none
      · intro _
        exact searchFrom_eq_false_iff.mp hfree [] text rfl
      · intro v rest heq _
        exact searchFrom_eq_false_iff.mp hfree v rest heq
      · intro next hmem _
        by_contra hends
        exact hcovered ⟨next, hmem, hends⟩
    rw [hsearch] at hnone
    contradiction
  · rintro ⟨next, hmem, hends⟩
    obtain ⟨w, rest, hrest, hmatch⟩ := (ends_ne_nil_iff hcards.proper _ _).mp hends
    obtain ⟨w', rest', heq, hmatch', hword⟩ := exists_cardNumber classes hmatch
    apply hcards.searchFrom_of_matches hneeds text.length ⟨none, text⟩ (Nat.le_refl _) none hmem
      (hrest.trans heq) hmatch' hword
    intro v v' hv hv'
    exact bearerToken_ends_eq_nil _ hmatch' hv hv' _

theorem search_cardNumber_eq_false_iff (classes : UnicodeClasses) (value : String) :
    (cardNumber classes.toCharClasses).search (scrubStr classes.toCharClasses value).toList = false ↔
      ∀ piece ∈ remnants classes.toCharClasses value, ¬ UncoversCard classes.toCharClasses piece := by
  rw [← Bool.not_eq_true, search_cardNumber_iff]
  simp only [not_exists, not_and]

theorem startsIn_cardNumber : (cardNumber classes).StartsIn classes.digit :=
  ((((startsIn_char _).seq _).rep 12 (some 19) true).seq _).after_boundary _

/-- A digit of ASCII after a token belongs to the token, so that only another digit begins a card number
there. -/
theorem exists_digit_of_uncoversCard {piece : List Char} (h : UncoversCard classes piece) :
    ∃ d ∈ piece, classes.digit d = true ∧ 128 ≤ d.toNat := by
  obtain ⟨next, hmem, hcard⟩ := h
  have hproper := (seals_bearerToken classes).proper
  obtain ⟨⟨c, more, hends⟩, v, hrest, -⟩ := exists_of_mem_replacedFrom hproper _ _ hmem
  have hstop := stopsBefore_bearerToken classes c next more hends
  have hstart := startsIn_cardNumber classes _ hcard
  cases hhead : next.rest.head? with
  | none => simp [hhead] at hstart
  | some d =>
      rw [hhead, Option.any_some] at hstop
      have hdigit : classes.digit d = true := by simpa [hhead] using hstart
      refine ⟨d, ?_, hdigit, ?_⟩
      · change piece = v ++ next.rest at hrest
        rw [hrest]
        exact List.mem_append_right v (List.mem_of_head? hhead)
      · by_contra hsmall
        rw [classes.digit_ascii d (by omega)] at hdigit
        have hletter : d.isAlphanum = true := by rw [Char.isAlphanum, hdigit, Bool.or_true]
        rw [isTokenChar, foldCase_isAlphanum hletter, Bool.true_or] at hstop
        contradiction

/-- Without decimal digits beyond ASCII nothing is uncovered. -/
theorem not_uncoversCard_of_ascii {text : String}
    (htext : ∀ d ∈ text.toList, classes.digit d = true → d.toNat < 128) :
    ∀ piece ∈ remnants classes text, ¬ UncoversCard classes piece := by
  intro piece hmem huncovers
  obtain ⟨d, hd, hdigit, hlarge⟩ := exists_digit_of_uncoversCard classes huncovers
  have hsmall := htext d ((infix_of_mem_pieces hmem).subset hd) hdigit
  omega

/-! ### Scrubbing twice -/

/-- Scrubbing a scrubbed text changes it just if it uncovered a card number. -/
theorem scrubStr_scrubStr_iff (classes : UnicodeClasses) (value : String) :
    scrubStr classes.toCharClasses (scrubStr classes.toCharClasses value) =
        scrubStr classes.toCharClasses value ↔
      ∀ piece ∈ remnants classes.toCharClasses value, ¬ UncoversCard classes.toCharClasses piece := by
  obtain ⟨hkey, hemail, hbearer⟩ := search_scrubStr classes.toCharClasses value
  rw [← search_cardNumber_eq_false_iff]
  generalize scrubStr classes.toCharClasses value = out at hkey hemail hbearer ⊢
  have hagain : (scrubStr classes.toCharClasses out).toList =
      (bearerToken classes.toCharClasses).sub redacted.toList
        ((cardNumber classes.toCharClasses).sub redacted.toList out.toList) := by
    rw [toList_scrubStr, withoutKeysEmailsCards, sub_eq_of_search hkey, sub_eq_of_search hemail]
  constructor
  · intro hsame
    by_contra hsearch
    rw [Bool.not_eq_false] at hsearch
    have hless := countP_subFrom_lt (cardNumber_consumes classes.toCharClasses).needs
      countP_redacted_digit out.toList.length ⟨none, out.toList⟩ (Nat.le_refl _) hsearch
    have hle : ((bearerToken classes.toCharClasses).sub redacted.toList
        ((cardNumber classes.toCharClasses).sub redacted.toList out.toList)).countP classes.digit ≤
          ((cardNumber classes.toCharClasses).sub redacted.toList out.toList).countP classes.digit :=
      countP_subFrom_le countP_redacted_digit _ _
    rw [← hagain, hsame] at hle
    exact Nat.lt_irrefl _ (Nat.lt_of_le_of_lt hle hless)
  · intro hnone
    apply String.ext
    rw [hagain, sub_eq_of_search hnone, sub_eq_of_search hbearer]

/-! ### Values -/

mutual

/-- The keys of a value, at any depth. -/
def keys : Json → List String
  | .obj fields => keysOfFields fields
  | .arr items => keysOfItems items
  | _ => []

def keysOfItems : List Json → List String
  | [] => []
  | value :: rest => keys value ++ keysOfItems rest

def keysOfFields : List (String × Json) → List String
  | [] => []
  | (key, value) :: rest => key :: (keys value ++ keysOfFields rest)

end

mutual

/-- The texts of a value that are no keys, at any depth. -/
def leaves : Json → List String
  | .obj fields => leavesOfFields fields
  | .arr items => leavesOfItems items
  | .str value => [value]
  | _ => []

def leavesOfItems : List Json → List String
  | [] => []
  | value :: rest => leaves value ++ leavesOfItems rest

def leavesOfFields : List (String × Json) → List String
  | [] => []
  | (_, value) :: rest => leaves value ++ leavesOfFields rest

end

mutual

theorem keys_redact (classes : CharClasses) (v : Json) : keys (redact classes v) = keys (mask v) := by
  cases v with
  | obj fields => rw [redact, mask, keys, keys, keys_redactFields classes fields]
  | arr items => rw [redact, mask, keys, keys, keys_redactItems classes items]
  | _ => rfl

theorem keys_redactItems (classes : CharClasses) (items : List Json) :
    keysOfItems (redactItems classes items) = keysOfItems (maskItems items) := by
  cases items with
  | nil => rfl
  | cons value rest =>
      rw [redactItems, maskItems, keysOfItems, keysOfItems, keys_redact classes value, keys_redactItems classes rest]

theorem keys_redactFields (classes : CharClasses) (fields : List (String × Json)) :
    keysOfFields (redactFields classes fields) = keysOfFields (maskFields fields) := by
  cases fields with
  | nil => rfl
  | cons field rest =>
      obtain ⟨key, value⟩ := field
      rw [redactFields, maskFields, keysOfFields, keysOfFields, keys_redactFields classes rest]
      by_cases hkey : isSecretKey key = true
      · simp only [if_pos hkey, keys]
      · simp only [if_neg hkey, keys_redact classes value]

end

variable {P : String → Prop}

mutual

/-- The texts of a redacted value are the scrubbed ones, and what stands for a secret. -/
theorem forall_leaves_redact (hP : P redacted) (v : Json) :
    (∀ text ∈ leaves (redact classes v), P text) ↔ ∀ text ∈ leaves (mask v), P (scrubStr classes text) := by
  cases v with
  | obj fields =>
      rw [redact, mask, leaves, leaves]
      exact forall_leaves_redactFields hP fields
  | arr items =>
      rw [redact, mask, leaves, leaves]
      exact forall_leaves_redactItems hP items
  | str value => simp only [redact, mask, leaves, List.forall_mem_singleton]
  | _ => simp only [redact, mask, leaves, List.not_mem_nil, false_implies, implies_true]

theorem forall_leaves_redactItems (hP : P redacted) (items : List Json) :
    (∀ text ∈ leavesOfItems (redactItems classes items), P text) ↔
      ∀ text ∈ leavesOfItems (maskItems items), P (scrubStr classes text) := by
  cases items with
  | nil => simp only [redactItems, maskItems, leavesOfItems, List.not_mem_nil, false_implies, implies_true]
  | cons value rest =>
      rw [redactItems, maskItems, leavesOfItems, leavesOfItems, List.forall_mem_append,
        List.forall_mem_append, forall_leaves_redact hP value, forall_leaves_redactItems hP rest]

theorem forall_leaves_redactFields (hP : P redacted) (fields : List (String × Json)) :
    (∀ text ∈ leavesOfFields (redactFields classes fields), P text) ↔
      ∀ text ∈ leavesOfFields (maskFields fields), P (scrubStr classes text) := by
  cases fields with
  | nil => simp only [redactFields, maskFields, leavesOfFields, List.not_mem_nil, false_implies, implies_true]
  | cons field rest =>
      obtain ⟨key, value⟩ := field
      rw [redactFields, maskFields, leavesOfFields, leavesOfFields, List.forall_mem_append,
        List.forall_mem_append, forall_leaves_redactFields hP rest]
      apply and_congr_left'
      by_cases hkey : isSecretKey key = true
      · simp only [if_pos hkey, leaves, List.forall_mem_singleton, List.not_mem_nil, false_implies,
          implies_true, iff_true]
        exact hP
      · simp only [if_neg hkey]
        exact forall_leaves_redact hP value

end

mutual

/-- Redaction changes a redacted value just if it changes one of the scrubbed texts. -/
theorem redact_redact_iff (v : Json) : redact classes (redact classes v) = redact classes v ↔
    ∀ text ∈ leaves (mask v), scrubStr classes (scrubStr classes text) = scrubStr classes text := by
  cases v with
  | obj fields =>
      rw [redact, redact, mask, leaves, Json.obj.injEq]
      exact redactFields_redactFields_iff fields
  | arr items =>
      rw [redact, redact, mask, leaves, Json.arr.injEq]
      exact redactItems_redactItems_iff items
  | str value => simp only [redact, mask, leaves, List.forall_mem_singleton, Json.str.injEq]
  | _ => simp only [redact, mask, leaves, List.not_mem_nil, false_implies, implies_true]

theorem redactItems_redactItems_iff (items : List Json) :
    redactItems classes (redactItems classes items) = redactItems classes items ↔
      ∀ text ∈ leavesOfItems (maskItems items),
        scrubStr classes (scrubStr classes text) = scrubStr classes text := by
  cases items with
  | nil => simp only [redactItems, maskItems, leavesOfItems, List.not_mem_nil, false_implies, implies_true]
  | cons value rest =>
      rw [redactItems, redactItems, maskItems, leavesOfItems, List.forall_mem_append, List.cons.injEq,
        redact_redact_iff value, redactItems_redactItems_iff rest]

theorem redactFields_redactFields_iff (fields : List (String × Json)) :
    redactFields classes (redactFields classes fields) = redactFields classes fields ↔
      ∀ text ∈ leavesOfFields (maskFields fields),
        scrubStr classes (scrubStr classes text) = scrubStr classes text := by
  cases fields with
  | nil => simp only [redactFields, maskFields, leavesOfFields, List.not_mem_nil, false_implies, implies_true]
  | cons field rest =>
      obtain ⟨key, value⟩ := field
      rw [redactFields, redactFields, maskFields, leavesOfFields, List.forall_mem_append, List.cons.injEq,
        redactFields_redactFields_iff rest]
      apply and_congr_left'
      by_cases hkey : isSecretKey key = true
      · simp only [if_pos hkey, leaves, List.not_mem_nil, false_implies, implies_true]
      · simp only [if_neg hkey, Prod.mk.injEq, true_and]
        exact redact_redact_iff value

end

/-- No pattern matches in the text. -/
def Clean (classes : CharClasses) (text : String) : Prop :=
  ∀ pattern ∈ valuePatterns classes, pattern.search text.toList = false

theorem clean_iff {classes : CharClasses} {text : String} : Clean classes text ↔
    anthropicKey.search text.toList = false ∧ (email classes).search text.toList = false ∧
      (cardNumber classes).search text.toList = false ∧ (bearerToken classes).search text.toList = false := by
  simp only [Clean, valuePatterns, List.forall_mem_cons, List.not_mem_nil, false_implies, implies_true,
    and_true]

theorem clean_scrubStr_iff (classes : UnicodeClasses) (value : String) :
    Clean classes.toCharClasses (scrubStr classes.toCharClasses value) ↔
      ∀ piece ∈ remnants classes.toCharClasses value, ¬ UncoversCard classes.toCharClasses piece := by
  obtain ⟨hkey, hemail, hbearer⟩ := search_scrubStr classes.toCharClasses value
  rw [clean_iff, ← search_cardNumber_eq_false_iff]
  constructor
  · rintro ⟨-, -, hcard, -⟩
    exact hcard
  · intro hcard
    exact ⟨hkey, hemail, hcard, hbearer⟩

theorem clean_redacted (classes : UnicodeClasses) : Clean classes.toCharClasses redacted := by
  apply clean_iff.mpr
  refine ⟨?_, ?_, ?_, ?_⟩
  · exact anthropicKey_consumes.needs.search_eq_false (by decide)
  · exact (email_consumes _).needs.search_eq_false (by decide)
  · exact (cardNumber_consumes _).needs.search_eq_false countP_redacted_digit
  · exact (bearerToken_consumes _).needs.search_eq_false countP_redacted_space

/-- A redacted value is clean just if its keys were, and no piece of a text uncovers a card number. -/
theorem clean_redact_iff (classes : UnicodeClasses) (v : Json) :
    ((∀ key ∈ keys (redact classes.toCharClasses v), Clean classes.toCharClasses key) ∧
        ∀ text ∈ leaves (redact classes.toCharClasses v), Clean classes.toCharClasses text) ↔
      (∀ key ∈ keys (mask v), Clean classes.toCharClasses key) ∧
        ∀ text ∈ leaves (mask v),
          ∀ piece ∈ remnants classes.toCharClasses text, ¬ UncoversCard classes.toCharClasses piece := by
  rw [keys_redact, forall_leaves_redact _ (clean_redacted classes)]
  simp only [clean_scrubStr_iff]

/-- On texts whose decimal digits are those of ASCII redaction is idempotent. -/
theorem redact_redact_of_ascii (classes : UnicodeClasses) {v : Json}
    (hv : ∀ text ∈ leaves (mask v), ∀ d ∈ text.toList, classes.digit d = true → d.toNat < 128) :
    redact classes.toCharClasses (redact classes.toCharClasses v) = redact classes.toCharClasses v := by
  apply (redact_redact_iff _ v).mpr
  intro text hmem
  exact (scrubStr_scrubStr_iff classes text).mpr (not_uncoversCard_of_ascii _ (hv text hmem))

/-- Redaction is idempotent on a value just if no piece of a text of it uncovers a card number. -/
theorem redact_idempotent_iff (classes : UnicodeClasses) (v : Json) :
    redact classes.toCharClasses (redact classes.toCharClasses v) = redact classes.toCharClasses v ↔
      ∀ text ∈ leaves (mask v),
        ∀ piece ∈ remnants classes.toCharClasses text, ¬ UncoversCard classes.toCharClasses piece := by
  rw [redact_redact_iff]
  simp only [scrubStr_scrubStr_iff]

/-- The digits of ASCII and the Arabic-Indic ones. -/
def isArabicDigit (c : Char) : Bool := c.isDigit || decide (0x660 ≤ c.toNat ∧ c.toNat ≤ 0x669)

def UnicodeClasses.arabic : UnicodeClasses where
  digit := isArabicDigit
  word := fun c => c.isAlphanum || c == '_' || isArabicDigit c
  space := CharClasses.ascii.space
  digit_ascii := by
    intro c hc
    have hsmall : ¬ (0x660 ≤ c.toNat ∧ c.toNat ≤ 0x669) := by omega
    simp [isArabicDigit, hsmall]
  word_ascii := by
    intro c hc
    have hsmall : ¬ (0x660 ≤ c.toNat ∧ c.toNat ≤ 0x669) := by omega
    simp only [isArabicDigit, hsmall, decide_false, Bool.or_false, Char.isAlphanum]
    cases c.isDigit <;> simp
  space_ascii := fun _ _ => rfl
  digit_word := by
    intro c hc
    rw [hc, Bool.or_true]

/-- Thirteen Arabic-Indic digits after a token: a card number as soon as the token has gone. -/
def tokenThenDigits : String := String.ofList ("Bearer x".toList ++ List.replicate 13 '\u0661')

theorem tokenThenDigits_not_clean :
    (¬ ∀ text ∈ leaves (redact UnicodeClasses.arabic.toCharClasses (.str tokenThenDigits)),
        Clean UnicodeClasses.arabic.toCharClasses text) ∧
      ¬ ∀ key ∈ keys (redact UnicodeClasses.arabic.toCharClasses (.obj [("ann@example.com", .null)])),
        Clean UnicodeClasses.arabic.toCharClasses key := by
  constructor
  · intro hclean
    obtain ⟨-, -, hcard, -⟩ := clean_iff.mp (hclean _ (List.mem_singleton_self _))
    revert hcard
    decide +kernel
  · intro hclean
    rw [keys_redact] at hclean
    obtain ⟨-, hemail, -, -⟩ := clean_iff.mp (hclean "ann@example.com" (by simp [mask, maskFields, keys, keysOfFields]))
    revert hemail
    decide +kernel

theorem tokenThenDigits_redact_twice :
    redact UnicodeClasses.arabic.toCharClasses
        (redact UnicodeClasses.arabic.toCharClasses (.str tokenThenDigits)) ≠
      redact UnicodeClasses.arabic.toCharClasses (.str tokenThenDigits) := by
  simp only [redact, ne_eq, Json.str.injEq]
  decide +kernel

end Bass.Redaction
