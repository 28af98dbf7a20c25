import Mathlib.Data.List.Basic

/-!
# Backtracking regular expressions

A match is a way from one position of a text to a later one. `Regex.ends` lists the positions that an
expression can reach in the order in which a backtracking engine tries them, so that the first is
the match. A position remembers the character before it, which word boundaries look at.
-/

inductive Regex where
  | empty
  | char (p : Char → Bool)
  | boundary (word : Char → Bool)
  | seq (r s : Regex)
  | alt (r s : Regex)
  | rep (r : Regex) (min : Nat) (max : Option Nat) (greedy : Bool)

namespace Regex

structure Cursor where
  prev : Option Char
  rest : List Char

/-- Exactly `n` passes through the body of a loop. -/
def required (body : Cursor → List Cursor) : Nat → Cursor → List Cursor
  | 0, c => [c]
  | n + 1, c => (body c).flatMap (required body n)

/-- At most `n` passes, a greedy loop trying another pass before it stops. -/
def optional (body : Cursor → List Cursor) (greedy : Bool) : Nat → Cursor → List Cursor
  | 0, c => [c]
  | n + 1, c =>
      let further := (body c).flatMap (optional body greedy n)
      if greedy then further ++ [c] else c :: further

/-- The positions reached from `c`, the preferred one first. A loop without an upper bound makes at
most as many passes as there are characters left; its body must not match the empty text. -/
def ends : Regex → Cursor → List Cursor
  | empty, c => [c]
  | char p, c =>
      match c.rest with
      | [] => []
      | x :: rest => if p x then [⟨some x, rest⟩] else []
  | boundary word, c => if c.prev.any word = c.rest.head?.any word then [] else [c]
  | seq r s, c => (r.ends c).flatMap s.ends
  | alt r s, c => r.ends c ++ s.ends c
  | rep r min max greedy, c =>
      (required r.ends min c).flatMap fun c' =>
        optional r.ends greedy (max.elim c'.rest.length (· - min)) c'

def optionally (r : Regex) : Regex := rep r 0 (some 1) true

/-- One character after the other. -/
def literal (test : Char → Char → Bool) : List Char → Regex
  | [] => empty
  | x :: rest => seq (char (test x)) (literal test rest)

def anyOf : List Regex → Regex
  | [] => char fun _ => false
  | r :: rest => alt r (anyOf rest)

/-- Whether the expression matches at this position or a later one. -/
def searchFrom (r : Regex) : Option Char → List Char → Bool
  | prev, [] => !(r.ends ⟨prev, []⟩).isEmpty
  | prev, x :: rest => !(r.ends ⟨prev, x :: rest⟩).isEmpty || searchFrom r (some x) rest

def search (r : Regex) (text : List Char) : Bool := r.searchFrom none text

/-- Replace the matches from left to right, in at most `n` moves. -/
def subFrom (r : Regex) (repl : List Char) : Nat → Cursor → List Char
  | 0, c => c.rest
  | n + 1, c =>
      match r.ends c, c.rest with
      | next :: _, _ => repl ++ subFrom r repl n next
      | [], [] => []
      | [], x :: rest => x :: subFrom r repl n ⟨some x, rest⟩

/-- Replace every match of an expression that does not match the empty text. -/
def sub (r : Regex) (repl text : List Char) : List Char := r.subFrom repl text.length ⟨none, text⟩

/-! ### What a match must consume -/

/-- Every match of the expression consumes at least `n` characters of the class `p`. -/
inductive Consumes (p : Char → Bool) : Regex → Nat → Prop where
  | nothing (r : Regex) : Consumes p r 0
  | char {q : Char → Bool} (h : ∀ x, q x = true → p x = true) : Consumes p (.char q) 1
  | seq {r s : Regex} {m n : Nat} (hr : Consumes p r m) (hs : Consumes p s n) :
      Consumes p (.seq r s) (m + n)
  | rep {r : Regex} {n : Nat} (h : Consumes p r n) (min : Nat) (max : Option Nat) (greedy : Bool) :
      Consumes p (.rep r min max greedy) (min * n)

section Consumption

variable {p : Char → Bool} {body : Cursor → List Cursor}

/-- From `c` to `c'` at least `n` characters of the class `p` are consumed. -/
def Spans (p : Char → Bool) (n : Nat) (c c' : Cursor) : Prop :=
  ∃ word, c.rest = word ++ c'.rest ∧ n ≤ word.countP p

theorem Spans.refl (c : Cursor) : Spans p 0 c c := ⟨[], rfl, Nat.zero_le _⟩

theorem Spans.mono {m n : Nat} {c c' : Cursor} (h : Spans p n c c') (hle : m ≤ n) :
    Spans p m c c' := by
  obtain ⟨word, hrest, hcount⟩ := h
  exact ⟨word, hrest, Nat.le_trans hle hcount⟩

theorem Spans.trans {m n : Nat} {c c₁ c' : Cursor} (h : Spans p m c c₁) (h' : Spans p n c₁ c') :
    Spans p (m + n) c c' := by
  obtain ⟨word, hrest, hcount⟩ := h
  obtain ⟨word', hrest', hcount'⟩ := h'
  refine ⟨word ++ word', ?_, ?_⟩
  · rw [hrest, hrest', List.append_assoc]
  · rw [List.countP_append]
    omega

theorem spans_required {k : Nat} (hbody : ∀ c, ∀ c' ∈ body c, Spans p k c c') (n : Nat)
    (c c' : Cursor) (h : c' ∈ required body n c) : Spans p (n * k) c c' := by
  induction n generalizing c with
  | zero =>
      obtain rfl := List.mem_singleton.mp h
      rw [Nat.zero_mul]
      exact Spans.refl c'
  | succ n ih =>
      obtain ⟨c₁, hc₁, hc'⟩ := List.mem_flatMap.mp h
      have hspan := (hbody c c₁ hc₁).trans (ih c₁ hc')
      exact hspan.mono (by rw [Nat.succ_mul]; omega)

theorem spans_optional (hbody : ∀ c, ∀ c' ∈ body c, Spans p 0 c c') (greedy : Bool) (n : Nat)
    (c c' : Cursor) (h : c' ∈ optional body greedy n c) : Spans p 0 c c' := by
  induction n generalizing c with
  | zero =>
      obtain rfl := List.mem_singleton.mp h
      exact Spans.refl c'
  | succ n ih =>
      have hcases : c' = c ∨ c' ∈ (body c).flatMap (optional body greedy n) := by
        cases greedy with
        | true => simpa [optional, or_comm] using h
        | false => simpa [optional] using h
      rcases hcases with rfl | hfurther
      · exact Spans.refl c'
      · obtain ⟨c₁, hc₁, hc'⟩ := List.mem_flatMap.mp hfurther
        exact (hbody c c₁ hc₁).trans (ih c₁ hc')

/-- A match only moves forward. -/
theorem spans_ends_zero (r : Regex) (c c' : Cursor) (h : c' ∈ r.ends c) : Spans p 0 c c' := by
  induction r generalizing c c' with
  | empty =>
      obtain rfl := List.mem_singleton.mp h
      exact Spans.refl c'
  | char q =>
      obtain ⟨prev, rest⟩ := c
      cases rest with
      | nil => exact absurd h List.not_mem_nil
      | cons x rest =>
          simp only [ends] at h
          split at h
          · obtain rfl := List.mem_singleton.mp h
            exact ⟨[x], rfl, Nat.zero_le _⟩
          · exact absurd h List.not_mem_nil
  | boundary word =>
      simp only [ends] at h
      split at h
      · exact absurd h List.not_mem_nil
      · obtain rfl := List.mem_singleton.mp h
        exact Spans.refl c'
  | seq r s ihr ihs =>
      obtain ⟨c₁, hc₁, hc'⟩ := List.mem_flatMap.mp h
      exact (ihr c c₁ hc₁).trans (ihs c₁ c' hc')
  | alt r s ihr ihs =>
      rcases List.mem_append.mp h with hr | hs
      · exact ihr c c' hr
      · exact ihs c c' hs
  | rep r min max greedy ih =>
      obtain ⟨c₁, hc₁, hc'⟩ := List.mem_flatMap.mp h
      have hrequired : Spans p 0 c c₁ := (spans_required ih min c c₁ hc₁).mono (Nat.zero_le _)
      exact hrequired.trans (spans_optional ih greedy _ c₁ c' hc')

theorem Consumes.spans {r : Regex} {n : Nat} (hr : Consumes p r n) (c c' : Cursor)
    (h : c' ∈ r.ends c) : Spans p n c c' := by
  induction hr generalizing c c' with
  | nothing r => exact spans_ends_zero r c c' h
  | @char q hq =>
      obtain ⟨prev, rest⟩ := c
      cases rest with
      | nil => exact absurd h List.not_mem_nil
      | cons x rest =>
          simp only [ends] at h
          split at h
          · rename_i hx
            obtain rfl := List.mem_singleton.mp h
            exact ⟨[x], rfl, by simp [hq x hx]⟩
          · exact absurd h List.not_mem_nil
  | seq _ _ ihr ihs =>
      obtain ⟨c₁, hc₁, hc'⟩ := List.mem_flatMap.mp h
      exact (ihr c c₁ hc₁).trans (ihs c₁ c' hc')
  | @rep r n _ min max greedy ih =>
      obtain ⟨c₁, hc₁, hc'⟩ := List.mem_flatMap.mp h
      exact (spans_required ih min c c₁ hc₁).trans
        (spans_optional (fun c c' h => spans_ends_zero r c c' h) greedy _ c₁ c' hc')

/-- An expression that must consume more characters of a class than there are matches nowhere. -/
theorem Consumes.ends_eq_nil {r : Regex} {n : Nat} (hr : Consumes p r n) {c : Cursor}
    (hc : c.rest.countP p < n) : r.ends c = [] := by
  rw [List.eq_nil_iff_forall_not_mem]
  intro c' hc'
  obtain ⟨word, hrest, hcount⟩ := hr.spans c c' hc'
  rw [hrest, List.countP_append] at hc
  omega

theorem Consumes.subFrom_eq {r : Regex} {n : Nat} (hr : Consumes p r n) (repl : List Char) (k : Nat)
    (c : Cursor) (hc : c.rest.countP p < n) : r.subFrom repl k c = c.rest := by
  induction k generalizing c with
  | zero => rfl
  | succ k ih =>
      obtain ⟨prev, rest⟩ := c
      have hnone : r.ends ⟨prev, rest⟩ = [] := hr.ends_eq_nil hc
      cases rest with
      | nil => simp only [subFrom, hnone]
      | cons x rest =>
          have hle : rest.countP p ≤ (x :: rest).countP p := (List.sublist_cons_self x rest).countP_le
          simp only [subFrom, hnone, ih ⟨some x, rest⟩ (Nat.lt_of_le_of_lt hle hc)]

/-- Such an expression replaces nothing. -/
theorem Consumes.sub_eq {r : Regex} {n : Nat} (hr : Consumes p r n) {text : List Char}
    (htext : text.countP p < n) (repl : List Char) : r.sub repl text = text :=
  hr.subFrom_eq repl text.length ⟨none, text⟩ htext

end Consumption

end Regex
