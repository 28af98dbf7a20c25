import Mathlib.Data.List.Basic

/-!
# Texts that are put together from parts

A part without the separator in front of it can be read off the end of the whole, and a number off its
decimal text.
-/

namespace Text

/-- If what follows a separator does not contain it, the whole determines both sides. -/
theorem append_cons_inj {α : Type} {x x' z z' : List α} {a : α} (hz : a ∉ z) (hz' : a ∉ z')
    (h : x ++ a :: z = x' ++ a :: z') : x = x' ∧ z = z' := by
  have hcut : ∀ y {z z' : List α}, a ∉ z → a :: z = y ++ a :: z' → y = [] := by
    intro y z z' hz heq
    cases y with
    | nil => rfl
    | cons b y =>
        rw [(List.cons.inj heq).2] at hz
        exact absurd (List.mem_append_right y List.mem_cons_self) hz
  rcases List.append_eq_append_iff.mp h with ⟨y, rfl, hy⟩ | ⟨y, rfl, hy⟩
  · obtain rfl := hcut y hz hy
    simpa using hy
  · obtain rfl := hcut y hz' hy
    simpa [eq_comm] using hy

/-- Two ways to cut one text at a separator are the same cut, or the text between the cuts begins or ends at
a separator that the other side takes for part of its own. -/
theorem append_cons_eq_iff {α : Type} {x x' y y' : List α} {a : α} :
    x ++ a :: y = x' ++ a :: y' ↔
      (x = x' ∧ y = y') ∨ (∃ w, x' = x ++ a :: w ∧ y = w ++ a :: y') ∨
        ∃ w, x = x' ++ a :: w ∧ y' = w ++ a :: y := by
  constructor
  · intro h
    rcases List.append_eq_append_iff.mp h with ⟨z, rfl, hz⟩ | ⟨z, rfl, hz⟩
    · cases z with
      | nil => exact Or.inl ⟨(List.append_nil x).symm, (List.cons.inj hz).2⟩
      | cons b w =>
          obtain ⟨rfl, hy⟩ := List.cons.inj hz
          exact Or.inr (Or.inl ⟨w, rfl, hy⟩)
    · cases z with
      | nil => exact Or.inl ⟨List.append_nil x', (List.cons.inj hz).2.symm⟩
      | cons b w =>
          obtain ⟨rfl, hy⟩ := List.cons.inj hz
          exact Or.inr (Or.inr ⟨w, rfl, hy⟩)
  · rintro (⟨rfl, rfl⟩ | ⟨w, rfl, rfl⟩ | ⟨w, rfl, rfl⟩)
    · rfl
    · rw [List.append_assoc, List.cons_append]
    · rw [List.append_assoc, List.cons_append]

/-- Parts without the separator are cut in one way. -/
theorem append_cons_inj_of_parts {α : Type} {x x' y y' : List α} {a : α} (hx : a ∉ x) (hx' : a ∉ x')
    (h : x ++ a :: y = x' ++ a :: y') : x = x' ∧ y = y' := by
  rcases append_cons_eq_iff.mp h with hsame | ⟨w, rfl, -⟩ | ⟨w, rfl, -⟩
  · exact hsame
  · exact absurd (List.mem_append_right x List.mem_cons_self) hx'
  · exact absurd (List.mem_append_right x' List.mem_cons_self) hx

/-! ### Decimal numbers -/

theorem toDigits_injective : Function.Injective (Nat.toDigits 10) := by
  intro m n h
  simpa using congrArg (fun digits => Nat.ofDigitChars 10 digits 0) h

theorem digitChar_inj {m n : Nat} (hm : m < 16) (hn : n < 16) (h : Nat.digitChar m = Nat.digitChar n) :
    m = n := by
  have hall : ∀ m < 16, ∀ n < 16, Nat.digitChar m = Nat.digitChar n → m = n := by decide
  exact hall m hm n hn h

theorem isDigit_of_mem_toDigits {n : Nat} {c : Char} (h : c ∈ Nat.toDigits 10 n) : c.isDigit = true :=
  Nat.isDigit_of_mem_toDigits (by decide) (by decide) h

/-- A number is written with digits, after a sign if it is negative. -/
theorem toList_toString (b : Int) : (toString b).toList =
    if b < 0 then '-' :: Nat.toDigits 10 b.natAbs else Nat.toDigits 10 b.natAbs := by
  cases b with
  | ofNat n =>
      rw [if_neg (by simp)]
      exact Nat.toList_repr
  | negSucc n =>
      rw [if_pos (Int.negSucc_lt_zero n)]
      change ("-" ++ Nat.repr (n + 1)).toList = _
      rw [String.toList_append, Nat.toList_repr]
      rfl

theorem notMem_toString {b : Int} {c : Char} (hsign : c ≠ '-') (hdigit : c.isDigit = false) :
    c ∉ (toString b).toList := by
  have hdigits : c ∉ Nat.toDigits 10 b.natAbs := by
    intro hmem
    rw [isDigit_of_mem_toDigits hmem] at hdigit
    cases hdigit
  rw [toList_toString]
  split
  · simp [hsign, hdigits]
  · exact hdigits

theorem toString_injective : Function.Injective (toString : Int → String) := by
  intro a b h
  have hlist : (toString a).toList = (toString b).toList := by rw [h]
  have hsign : ∀ (n : Nat) (digits : List Char), Nat.toDigits 10 n ≠ '-' :: digits := by
    intro n digits heq
    have hdigit : '-'.isDigit = true := by
      apply isDigit_of_mem_toDigits (n := n)
      rw [heq]
      exact List.mem_cons_self
    cases hdigit
  rw [toList_toString, toList_toString] at hlist
  split at hlist <;> split at hlist
  · have habs := toDigits_injective (List.cons.inj hlist).2
    omega
  · exact absurd hlist.symm (hsign _ _)
  · exact absurd hlist (hsign _ _)
  · have habs := toDigits_injective hlist
    omega

/-! ### Texts that can be read from the front -/

section Front

variable {α β : Type}

/-- What follows begins with one of the stops, if anything follows. -/
def Stops (stops x : List β) : Prop := ∀ c ∈ x.head?, c ∈ stops

theorem Stops.mono {stops stops' x : List β} (h : Stops stops x) (hsub : ∀ c ∈ stops, c ∈ stops') :
    Stops stops' x := fun c hc => hsub c (h c hc)

theorem stops_cons {stops : List β} {c : β} (x : List β) (h : c ∈ stops) : Stops stops (c :: x) := by
  intro b hb
  obtain rfl := Option.some.inj hb
  exact h

/-- A text without stops ends where the first stop is. -/
theorem append_inj_of_stops {stops x x' y y' : List β} (hx : ∀ c ∈ x, c ∉ stops) (hx' : ∀ c ∈ x', c ∉ stops)
    (hy : Stops stops y) (hy' : Stops stops y') (h : x ++ y = x' ++ y') : x = x' ∧ y = y' := by
  induction x generalizing x' with
  | nil =>
      cases x' with
      | nil => exact ⟨rfl, h⟩
      | cons c x' =>
          obtain rfl : y = c :: (x' ++ y') := h
          exact absurd (hy c rfl) (hx' c List.mem_cons_self)
  | cons c x ih =>
      obtain ⟨hc, hrest⟩ := List.forall_mem_cons.mp hx
      cases x' with
      | nil =>
          obtain rfl : c :: (x ++ y) = y' := h
          exact absurd (hy' c rfl) hc
      | cons c' x' =>
          obtain ⟨rfl, htail⟩ := List.cons.inj h
          obtain ⟨rfl, hend⟩ := ih hrest (List.forall_mem_cons.mp hx').2 htail
          exact ⟨rfl, hend⟩

/-- The first code of a text, and so its letter, can be read off. -/
def Decodes (code : α → List β) : Prop := ∀ a b x y, code a ++ x = code b ++ y → a = b ∧ x = y

/-- A word that is closed by what no code begins with can be read off. -/
theorem Decodes.flatMap {code : α → List β} (h : Decodes code) {close : β}
    (hclose : ∀ a x y, code a ++ x ≠ close :: y) {word word' : List α} {rest rest' : List β}
    (heq : word.flatMap code ++ close :: rest = word'.flatMap code ++ close :: rest') :
    word = word' ∧ rest = rest' := by
  induction word generalizing word' with
  | nil =>
      cases word' with
      | nil => exact ⟨rfl, (List.cons.inj heq).2⟩
      | cons b word' =>
          rw [List.flatMap_cons, List.append_assoc] at heq
          exact absurd heq.symm (hclose b _ _)
  | cons a word ih =>
      rw [List.flatMap_cons, List.append_assoc] at heq
      cases word' with
      | nil => exact absurd heq (hclose a _ _)
      | cons b word' =>
          rw [List.flatMap_cons, List.append_assoc] at heq
          obtain ⟨rfl, hrest⟩ := h a b _ _ heq
          obtain ⟨rfl, hend⟩ := ih hrest
          exact ⟨rfl, hend⟩

theorem mem_intercalate {α : Type} {sep x : α} {parts : List (List α)} (h : x ∈ [sep].intercalate parts) :
    x = sep ∨ ∃ part ∈ parts, x ∈ part := by
  induction parts with
  | nil => cases h
  | cons part parts ih =>
      cases parts with
      | nil =>
          rw [List.intercalate_singleton] at h
          exact Or.inr ⟨part, List.mem_singleton_self part, h⟩
      | cons next parts =>
          rw [List.intercalate_cons_cons, List.append_assoc] at h
          rcases List.mem_append.mp h with h | h
          · exact Or.inr ⟨part, List.mem_cons_self, h⟩
          · rcases List.mem_cons.mp h with h | h
            · exact Or.inl h
            · refine (ih h).imp_right ?_
              rintro ⟨part', hpart', hx⟩
              exact ⟨part', List.mem_cons_of_mem _ hpart', hx⟩

/-- Splitting at every element of a kind takes apart what one of them joins. -/
theorem splitOnP_intercalate {α : Type} {p : α → Bool} {sep : α} (hsep : p sep = true)
    {parts : List (List α)} (hne : parts ≠ []) (h : ∀ part ∈ parts, ∀ x ∈ part, p x = false) :
    ([sep].intercalate parts).splitOnP p = parts := by
  induction parts with
  | nil => exact absurd rfl hne
  | cons part parts ih =>
      have hpart := h part List.mem_cons_self
      cases parts with
      | nil =>
          rw [List.intercalate_singleton]
          exact List.splitOnP_eq_singleton hpart
      | cons next parts =>
          have hrest := ih (by simp) fun part' hmem => h part' (List.mem_cons_of_mem _ hmem)
          rw [List.intercalate_cons_cons, List.append_assoc, List.singleton_append,
            List.splitOnP_append_cons_of_forall_mem hpart sep hsep, hrest]

/-- Texts with separators between them and a bracket after the last one can be read off if each can be read
up to a separator or the bracket. -/
theorem intercalate_inj {f : α → List β} {R : α → α → Prop} {sep close : β} (hsep : sep ≠ close)
    (hclose : ∀ a x y, f a ++ x ≠ close :: y) {l l' : List α} {rest rest' : List β}
    (hf : ∀ a ∈ l, ∀ b x y, Stops [sep, close] x → Stops [sep, close] y → f a ++ x = f b ++ y → R a b ∧ x = y)
    (heq : [sep].intercalate (l.map f) ++ close :: rest = [sep].intercalate (l'.map f) ++ close :: rest') :
    List.Forall₂ R l l' ∧ rest = rest' := by
  have hcons : ∀ (a : α) (l : List α) (rest : List β),
      [sep].intercalate ((a :: l).map f) ++ close :: rest = f a ++ match l with
        | [] => close :: rest
        | b :: l => sep :: ([sep].intercalate ((b :: l).map f) ++ close :: rest) := by
    intro a l rest
    cases l <;> simp [List.intercalate]
  induction l generalizing l' with
  | nil =>
      cases l' with
      | nil => exact ⟨.nil, (List.cons.inj heq).2⟩
      | cons b l' =>
          rw [hcons b l'] at heq
          exact absurd heq.symm (hclose b _ _)
  | cons a l ih =>
      obtain ⟨ha, hl⟩ := List.forall_mem_cons.mp hf
      cases l' with
      | nil =>
          rw [hcons a l] at heq
          exact absurd heq (hclose a _ _)
      | cons b l' =>
          rw [hcons a l, hcons b l'] at heq
          have hstops : ∀ (l : List α) (rest : List β), Stops [sep, close] (match l with
              | [] => close :: rest
              | b :: l => sep :: ([sep].intercalate ((b :: l).map f) ++ close :: rest)) := by
            intro l rest
            cases l with
            | nil => exact stops_cons _ (List.mem_cons_of_mem _ List.mem_cons_self)
            | cons b l => exact stops_cons _ List.mem_cons_self
          obtain ⟨hab, htails⟩ := ha b _ _ (hstops l rest) (hstops l' rest') heq
          cases l with
          | nil =>
              cases l' with
              | nil => exact ⟨.cons hab .nil, (List.cons.inj htails).2⟩
              | cons b' l' => exact absurd (List.cons.inj htails).1.symm hsep
          | cons a' l =>
              cases l' with
              | nil => exact absurd (List.cons.inj htails).1 hsep
              | cons b' l' =>
                  obtain ⟨hrel, hend⟩ := ih hl (List.cons.inj htails).2
                  exact ⟨.cons hab hrel, hend⟩

end Front

end Text
