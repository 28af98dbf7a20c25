import Bass.Data.Substitution
import Mathlib.Data.List.Forall2

/-!
# Substitution as cutting

Replacing the matches of an expression cuts a text at them and joins the pieces by the replacement. An
expression that cannot read into the replacement finds in the joined text what it finds in each piece
standing alone. So substitutions one after the other cut the pieces of the original text further, and
what they do is said of these pieces.
-/

namespace Regex

/-- The pieces between the matches, in at most `n` moves. -/
def splitFrom (r : Regex) : Nat → Cursor → List (List Char)
  | 0, c => [c.rest]
  | n + 1, c =>
      match r.ends c, c.rest with
      | next :: _, _ => [] :: splitFrom r n next
      | [], [] => [[]]
      | [], x :: rest => (splitFrom r n ⟨some x, rest⟩).modifyHead (x :: ·)

/-- The pieces of a text between the matches of an expression that does not match the empty text. -/
def split (r : Regex) (text : List Char) : List (List Char) := r.splitFrom text.length ⟨none, text⟩

/-- What remains of a text that is cut at the matches of one expression, the pieces at the matches of the
next one, and so on. -/
def pieces : List Regex → List Char → List (List Char)
  | [], text => [text]
  | r :: rs, text => (r.split text).flatMap (pieces rs)

/-! ### Cutting and joining -/

section Joining

variable {r : Regex} {repl : List Char}

theorem exists_splitFrom_eq_cons (r : Regex) (n : Nat) (c : Cursor) :
    ∃ first others, r.splitFrom n c = first :: others ∧ first <+: c.rest ∧
      ∀ piece ∈ others, piece <:+: c.rest := by
  induction n generalizing c with
  | zero => exact ⟨c.rest, [], rfl, List.prefix_refl _, by simp⟩
  | succ n ih =>
      obtain ⟨prev, rest⟩ := c
      cases hends : r.ends ⟨prev, rest⟩ with
      | cons next more =>
          obtain ⟨w, hrest, -⟩ :=
            spans_ends_zero (p := fun _ => true) r ⟨prev, rest⟩ next (hends ▸ List.mem_cons_self)
          have hsuffix : next.rest <:+ rest := ⟨w, hrest.symm⟩
          obtain ⟨first, others, hsplit, hfirst, hothers⟩ := ih next
          refine ⟨[], first :: others, by simp only [splitFrom, hends, hsplit], List.nil_prefix, ?_⟩
          intro piece hmem
          rcases List.mem_cons.mp hmem with rfl | hmem
          · exact hfirst.isInfix.trans hsuffix.isInfix
          · exact (hothers piece hmem).trans hsuffix.isInfix
      | nil =>
          cases rest with
          | nil => exact ⟨[], [], by simp only [splitFrom, hends], List.nil_prefix, by simp⟩
          | cons x rest =>
              obtain ⟨first, others, hsplit, hfirst, hothers⟩ := ih ⟨some x, rest⟩
              refine ⟨x :: first, others, ?_, List.cons_prefix_cons.mpr ⟨rfl, hfirst⟩, ?_⟩
              · simp only [splitFrom, hends, hsplit, List.modifyHead_cons]
              · intro piece hmem
                exact (hothers piece hmem).trans (List.suffix_cons x rest).isInfix

theorem split_ne_nil (r : Regex) (text : List Char) : r.split text ≠ [] := by
  obtain ⟨first, others, hsplit, -⟩ := exists_splitFrom_eq_cons r text.length ⟨none, text⟩
  rw [split, hsplit]
  exact List.cons_ne_nil first others

theorem infix_of_mem_split {text piece : List Char} (h : piece ∈ r.split text) : piece <:+: text := by
  obtain ⟨first, others, hsplit, hfirst, hothers⟩ := exists_splitFrom_eq_cons r text.length ⟨none, text⟩
  rw [split, hsplit] at h
  rcases List.mem_cons.mp h with rfl | hmem
  · exact hfirst.isInfix
  · exact hothers piece hmem

/-- A piece is a part of the text as it was. -/
theorem infix_of_mem_pieces {rs : List Regex} {text piece : List Char} (h : piece ∈ pieces rs text) :
    piece <:+: text := by
  induction rs generalizing text with
  | nil =>
      obtain rfl := List.mem_singleton.mp h
      exact List.infix_refl piece
  | cons r rs ih =>
      obtain ⟨part, hpart, hpiece⟩ := List.mem_flatMap.mp h
      exact (ih hpiece).trans (infix_of_mem_split hpart)

theorem subFrom_eq_intercalate (r : Regex) (repl : List Char) (n : Nat) (c : Cursor) :
    r.subFrom repl n c = repl.intercalate (r.splitFrom n c) := by
  induction n generalizing c with
  | zero => simp only [subFrom, splitFrom, List.intercalate_singleton]
  | succ n ih =>
      obtain ⟨prev, rest⟩ := c
      cases hends : r.ends ⟨prev, rest⟩ with
      | cons next more =>
          obtain ⟨first, others, hsplit, -⟩ := exists_splitFrom_eq_cons r n next
          rw [subFrom_match hends, ih next]
          simp only [splitFrom, hends, hsplit, List.intercalate_cons_cons, List.nil_append]
      | nil =>
          cases rest with
          | nil => simp only [subFrom, splitFrom, hends, List.intercalate_singleton]
          | cons x rest =>
              obtain ⟨first, others, hsplit, -⟩ := exists_splitFrom_eq_cons r n ⟨some x, rest⟩
              rw [subFrom_skip hends, ih ⟨some x, rest⟩]
              simp only [splitFrom, hends, hsplit, List.modifyHead_cons, List.intercalate_cons_cons_left]

theorem sub_eq_intercalate (r : Regex) (repl text : List Char) :
    r.sub repl text = repl.intercalate (r.split text) := subFrom_eq_intercalate r repl text.length _

theorem intercalate_append {l m : List (List Char)} (hl : l ≠ []) (hm : m ≠ []) :
    repl.intercalate (l ++ m) = repl.intercalate l ++ repl ++ repl.intercalate m := by
  induction l with
  | nil => exact absurd rfl hl
  | cons piece l ih =>
      cases l with
      | nil => rw [List.singleton_append, List.intercalate_cons_of_ne_nil hm, List.intercalate_singleton]
      | cons piece' l =>
          rw [List.cons_append, List.cons_append, List.intercalate_cons_cons, ← List.cons_append,
            ih (List.cons_ne_nil piece' l), List.intercalate_cons_cons]
          simp only [List.append_assoc]

/-- Joining what was joined already. -/
theorem intercalate_flatMap {f : List Char → List (List Char)} (hf : ∀ piece, f piece ≠ [])
    (ps : List (List Char)) : repl.intercalate (ps.flatMap f) =
      repl.intercalate (ps.map fun piece => repl.intercalate (f piece)) := by
  induction ps with
  | nil => rfl
  | cons piece ps ih =>
      cases ps with
      | nil => simp
      | cons piece' ps =>
          have hne : (piece' :: ps).flatMap f ≠ [] := by simp [hf]
          rw [List.flatMap_cons, intercalate_append (hf piece) hne, ih]
          simp only [List.map_cons, List.intercalate_cons_cons]

end Joining

/-! ### A piece and the text around it -/

/-- The position `c` stands in a text as `c'` stands in the piece of it that ends before `tail`. -/
structure Ahead (word : Char → Bool) (tail : List Char) (c c' : Cursor) : Prop where
  rest : c.rest = c'.rest ++ tail
  prev : c.prev.any word = c'.prev.any word

section Ahead

variable {word : Char → Bool} {star : Char} {repl tail : List Char} {q : Regex}
  {body : Cursor → List Cursor}

/-- Fuel beyond what is left to read changes nothing. -/
theorem optional_eq_of_length_le (hbody : ∀ c, ∀ next ∈ body c, next.rest.length < c.rest.length)
    (greedy : Bool) (n m : Nat) (c : Cursor) (hn : c.rest.length ≤ n) (hm : c.rest.length ≤ m) :
    optional body greedy n c = optional body greedy m c := by
  have hnone (c : Cursor) (hc : c.rest.length ≤ 0) : body c = [] := by
    rw [List.eq_nil_iff_forall_not_mem]
    intro next hmem
    have hlt := hbody c next hmem
    omega
  induction n generalizing m c with
  | zero =>
      cases m with
      | zero => rfl
      | succ m => cases greedy <;> simp [optional, hnone c hn]
  | succ n ih =>
      cases m with
      | zero => cases greedy <;> simp [optional, hnone c hm]
      | succ m =>
          have hfurther : (body c).flatMap (optional body greedy n) =
              (body c).flatMap (optional body greedy m) := by
            apply List.flatMap_congr
            intro next hmem
            have hlt := hbody c next hmem
            exact ih m next (by omega) (by omega)
          simp only [optional, hfurther]

variable (hbody : ∀ {c c'}, Ahead word tail c c' → List.Forall₂ (Ahead word tail) (body c) (body c'))

include hbody in
theorem forall₂_required (n : Nat) {c c' : Cursor} (h : Ahead word tail c c') :
    List.Forall₂ (Ahead word tail) (required body n c) (required body n c') := by
  induction n generalizing c c' with
  | zero => exact .cons h .nil
  | succ n ih => exact List.rel_flatMap (hbody h) fun _ _ hnext => ih hnext

include hbody in
theorem forall₂_optional (greedy : Bool) (n : Nat) {c c' : Cursor} (h : Ahead word tail c c') :
    List.Forall₂ (Ahead word tail) (optional body greedy n c) (optional body greedy n c') := by
  induction n generalizing c c' with
  | zero => exact .cons h .nil
  | succ n ih =>
      have hfurther := List.rel_flatMap (hbody h) fun _ _ hnext => ih hnext
      cases greedy with
      | true => exact List.rel_append hfurther (.cons h .nil)
      | false => exact .cons h hfurther

/-- An expression that does not read the first character after a piece, which is no part of a word, finds
its ways through the text in the piece alone. -/
theorem forall₂_ends (hproper : q.Proper) (hboundaries : q.BoundariesOn word)
    (hwithin : q.Within (· != star)) (hnonword : word star = false)
    (htail : ∀ x ∈ tail.head?, x = star) {c c' : Cursor} (h : Ahead word tail c c') :
    List.Forall₂ (Ahead word tail) (q.ends c) (q.ends c') := by
  induction q generalizing c c' with
  | empty => exact .cons h .nil
  | char p =>
      obtain ⟨prev, rest⟩ := c
      obtain ⟨prev', rest'⟩ := c'
      obtain rfl : rest = rest' ++ tail := h.rest
      cases rest' with
      | cons x rest' =>
          rw [List.cons_append]
          simp only [ends]
          by_cases hx : p x = true
          · rw [if_pos hx, if_pos hx]
            exact .cons ⟨rfl, rfl⟩ .nil
          · rw [if_neg hx, if_neg hx]
            exact .nil
      | nil =>
          cases tail with
          | nil => exact .nil
          | cons x tail =>
              obtain rfl := htail x rfl
              have hx : ¬ p x = true := fun hx => by simpa using hwithin x hx
              rw [List.nil_append]
              simp only [ends, if_neg hx]
              exact .nil
  | boundary p =>
      obtain rfl := hboundaries
      have hhead : c.rest.head?.any p = c'.rest.head?.any p := by
        rw [h.rest]
        cases hrest : c'.rest with
        | cons x rest => rfl
        | nil =>
            rw [List.nil_append, List.head?_nil, Option.any_none]
            cases hstar : tail.head? with
            | none => rfl
            | some x => rw [Option.any_some, htail x hstar, hnonword]
      simp only [ends, h.prev, hhead]
      split
      · exact .nil
      · exact .cons h .nil
  | seq r s ihr ihs =>
      have hfirst := ihr hproper.1 hboundaries.1 hwithin.1 h
      exact List.rel_flatMap hfirst fun _ _ hnext => ihs hproper.2 hboundaries.2 hwithin.2 hnext
  | alt r s ihr ihs =>
      have hfirst := ihr hproper.1 hboundaries.1 hwithin.1 h
      exact List.rel_append hfirst (ihs hproper.2 hboundaries.2 hwithin.2 h)
  | rep r min max greedy ih =>
      have hbody {c c' : Cursor} (h : Ahead word tail c c') := ih hproper.1 hboundaries hwithin h
      have hshort : ∀ c, ∀ next ∈ r.ends c, next.rest.length < c.rest.length := by
        intro c next hmem
        obtain ⟨w, hrest, hcount⟩ := hproper.2.spans c next hmem
        have hle : w.countP (fun _ => true) ≤ w.length := List.countP_le_length
        rw [hrest, List.length_append]
        omega
      refine List.rel_flatMap (forall₂_required hbody min h) fun c₁ c₁' h₁ => ?_
      cases max with
      | some m => exact forall₂_optional hbody greedy (m - min) h₁
      | none =>
          -- The loop may make more passes in the text than in the piece, but none of them is made.
          have hlength : c₁'.rest.length ≤ c₁.rest.length := by
            rw [h₁.rest, List.length_append]
            omega
          have hfuel := optional_eq_of_length_le hshort greedy c₁'.rest.length c₁.rest.length c₁'
            (Nat.le_refl _) hlength
          simp only [Option.elim, hfuel]
          exact forall₂_optional hbody greedy _ h₁

theorem Seals.forall₂_ends (hq : Seals word star repl q) (htail : ∀ x ∈ tail.head?, x = star)
    {c c' : Cursor} (h : Ahead word tail c c') : List.Forall₂ (Ahead word tail) (q.ends c) (q.ends c') :=
  Regex.forall₂_ends hq.proper hq.boundaries hq.within hq.nonword htail h

end Ahead

/-! ### Searching a joined text -/

section Scanning

variable {word : Char → Bool} {star : Char} {repl tail : List Char} {q : Regex}

/-- What is done in a piece does not depend on what follows it, and then comes what follows. -/
theorem Seals.scan_append (hq : Seals word star repl q) (htail : ∀ x ∈ tail.head?, x = star) (n n' : Nat)
    {c c' : Cursor} (h : Ahead word tail c c') (hn : c.rest.length ≤ n) (hn' : c'.rest.length ≤ n') :
    ∃ m prev, tail.length ≤ m ∧
      q.subFrom repl n c = q.subFrom repl n' c' ++ q.subFrom repl m ⟨prev, tail⟩ ∧
      ∃ found, q.replacedFrom n c = found ++ q.replacedFrom m ⟨prev, tail⟩ ∧
        List.Forall₂ (Ahead word tail) found (q.replacedFrom n' c') := by
  obtain ⟨p, hp, -⟩ := hq.lacks
  induction n' generalizing n c c' with
  | zero =>
      obtain ⟨prev, rest⟩ := c
      have hnil : c'.rest = [] := List.eq_nil_of_length_eq_zero (Nat.le_zero.mp hn')
      have hrest : rest = tail := by simpa [hnil] using h.rest
      subst hrest
      exact ⟨n, prev, hn, by simp [subFrom, hnil], [], rfl, .nil⟩
  | succ n' ih =>
      obtain ⟨prev, rest⟩ := c
      obtain ⟨prev', rest'⟩ := c'
      have hends := hq.forall₂_ends htail h
      obtain rfl : rest = rest' ++ tail := h.rest
      cases rest' with
      | nil =>
          have hnone : q.ends ⟨prev', []⟩ = [] := hp.ends_eq_nil rfl
          rw [List.nil_append] at hn ⊢
          exact ⟨n, prev, hn, by simp [subFrom, hnone], [], rfl, by simp [replacedFrom, hnone]⟩
      | cons x rest' =>
          cases n with
          | zero => exact absurd hn (by simp)
          | succ n =>
              rw [List.cons_append] at hends hn ⊢
              cases hpiece : q.ends ⟨prev', x :: rest'⟩ with
              | nil =>
                  have hnone : q.ends ⟨prev, x :: (rest' ++ tail)⟩ = [] := by
                    rw [hpiece] at hends
                    exact List.forall₂_nil_right_iff.mp hends
                  obtain ⟨m, prev'', hm, hsub, found, hreplaced, hfound⟩ :=
                    @ih n ⟨some x, rest' ++ tail⟩ ⟨some x, rest'⟩ ⟨rfl, rfl⟩ (Nat.le_of_succ_le_succ hn)
                      (Nat.le_of_succ_le_succ hn')
                  refine ⟨m, prev'', hm, ?_, found, ?_, ?_⟩
                  · rw [subFrom_skip hnone, subFrom_skip hpiece, hsub, List.cons_append]
                  · rw [replacedFrom_skip hnone, hreplaced]
                  · rw [replacedFrom_skip hpiece]
                    exact hfound
              | cons next' more' =>
                  rw [hpiece] at hends
                  obtain ⟨next, more, hnext, -, htext⟩ := List.forall₂_cons_right_iff.mp hends
                  have hlt := length_lt_of_match hp htext
                  have hlt' := length_lt_of_match hp hpiece
                  change (x :: (rest' ++ tail)).length ≤ n + 1 at hn
                  change next.rest.length < (x :: (rest' ++ tail)).length at hlt
                  change next'.rest.length < (x :: rest').length at hlt'
                  change (x :: rest').length ≤ n' + 1 at hn'
                  obtain ⟨m, prev'', hm, hsub, found, hreplaced, hfound⟩ := ih n hnext (by omega) (by omega)
                  refine ⟨m, prev'', hm, ?_, next :: found, ?_, ?_⟩
                  · rw [subFrom_match htext, subFrom_match hpiece, hsub, List.append_assoc]
                  · rw [replacedFrom_match htext, hreplaced, List.cons_append]
                  · rw [replacedFrom_match hpiece]
                    exact .cons hnext hfound

/-- Nothing is done in a replacement. -/
theorem Seals.scan_replacement (hq : Seals word star repl q) (n : Nat) (prev : Option Char)
    (text : List Char) (hn : (repl ++ text).length ≤ n) :
    ∃ m, text.length ≤ m ∧
      q.subFrom repl n ⟨prev, repl ++ text⟩ = repl ++ q.subFrom repl m ⟨some star, text⟩ ∧
      q.replacedFrom n ⟨prev, repl ++ text⟩ = q.replacedFrom m ⟨some star, text⟩ := by
  have hpast : past prev repl = some star := by rw [past, hq.last, Option.some_or]
  rw [← hpast]
  apply scan_kept n prev hn
  intro v v' hrepl hv'
  exact hq.ends_replacement hrepl hv' _ text

/-- In a text joined by the replacement an expression does what it does in each piece standing alone.
`P` is said of what comes after a replaced match, without regard to what comes after the piece. -/
theorem Seals.scan_intercalate (hq : Seals word star repl q) (P : List Char → Prop)
    (hP : ∀ rest tail, (∀ x ∈ tail.head?, x = star) → (P (rest ++ tail) ↔ P rest))
    (ps : List (List Char)) (n : Nat) (prev : Option Char) (hprev : prev.any word = false)
    (hn : (repl.intercalate ps).length ≤ n) :
    q.subFrom repl n ⟨prev, repl.intercalate ps⟩ = repl.intercalate (ps.map (q.sub repl)) ∧
      ((∃ next ∈ q.replacedFrom n ⟨prev, repl.intercalate ps⟩, P next.rest) ↔
        ∃ piece ∈ ps, ∃ next ∈ q.replaced piece, P next.rest) := by
  obtain ⟨p, hp, -⟩ := hq.lacks
  have hempty (n : Nat) (prev : Option Char) :
      q.subFrom repl n ⟨prev, []⟩ = [] ∧ q.replacedFrom n ⟨prev, []⟩ = [] := by
    have hnone : q.ends ⟨prev, []⟩ = [] := hp.ends_eq_nil rfl
    cases n with
    | zero => exact ⟨rfl, rfl⟩
    | succ n => simp only [subFrom, replacedFrom, hnone, and_self]
  have hfirst {found found' : List Cursor} {tail : List Char} (htail : ∀ x ∈ tail.head?, x = star)
      (h : List.Forall₂ (Ahead word tail) found found') :
      (∃ next ∈ found, P next.rest) ↔ ∃ next ∈ found', P next.rest := by
    induction h with
    | nil => rfl
    | cons hnext _ ih => simp only [List.exists_mem_cons_iff, ih, hnext.rest, hP _ _ htail]
  induction ps generalizing n prev with
  | nil => simp [hempty]
  | cons piece ps ih =>
      cases ps with
      | nil =>
          rw [List.intercalate_singleton] at hn ⊢
          have hahead : Ahead word [] ⟨prev, piece⟩ ⟨none, piece⟩ := ⟨(List.append_nil piece).symm, hprev⟩
          obtain ⟨m, prev', -, hsub, found, hreplaced, hfound⟩ :=
            hq.scan_append (by simp) n piece.length hahead hn (Nat.le_refl _)
          rw [hsub, hreplaced, (hempty m prev').1, (hempty m prev').2, List.append_nil, List.append_nil,
            hfirst (by simp) hfound]
          simp [sub, replaced]
      | cons piece' ps =>
          rw [List.intercalate_cons_cons, List.append_assoc] at hn ⊢
          have hahead : Ahead word (repl ++ repl.intercalate (piece' :: ps))
              ⟨prev, piece ++ (repl ++ repl.intercalate (piece' :: ps))⟩ ⟨none, piece⟩ := ⟨rfl, hprev⟩
          have htail : ∀ x ∈ (repl ++ repl.intercalate (piece' :: ps)).head?, x = star := by
            rw [List.head?_append, hq.head, Option.some_or]
            intro x hx
            exact (Option.some.inj hx).symm
          obtain ⟨m, prev', hm, hsub, found, hreplaced, hfound⟩ :=
            hq.scan_append htail n piece.length hahead hn (Nat.le_refl _)
          obtain ⟨m', hm', hsub', hreplaced'⟩ := hq.scan_replacement m prev' _ hm
          obtain ⟨ihsub, ihreplaced⟩ := ih m' (some star) hq.nonword hm'
          constructor
          · rw [hsub, hsub', ihsub]
            simp only [List.map_cons, List.intercalate_cons_cons, List.append_assoc, sub]
          · rw [hreplaced, hreplaced']
            simp only [List.mem_append, or_and_right, exists_or, hfirst htail hfound, ihreplaced,
              List.exists_mem_cons_iff]
            rfl

theorem Seals.sub_intercalate (hq : Seals word star repl q) (ps : List (List Char)) :
    q.sub repl (repl.intercalate ps) = repl.intercalate (ps.map (q.sub repl)) := by
  exact (hq.scan_intercalate (fun _ => True) (fun _ _ _ => Iff.rfl) ps _ none rfl (Nat.le_refl _)).1

/-- Substitutions one after the other join what remains of the text by the replacement. -/
theorem foldl_sub_eq {rs : List Regex} (hrs : ∀ r ∈ rs, ∃ word, Seals word star repl r)
    (text : List Char) : rs.foldl (fun out r => r.sub repl out) text = repl.intercalate (pieces rs text) := by
  suffices hps : ∀ ps : List (List Char), rs.foldl (fun out r => r.sub repl out) (repl.intercalate ps) =
      repl.intercalate (ps.flatMap (pieces rs)) by
    simpa using hps [text]
  induction rs with
  | nil =>
      intro ps
      simp [pieces]
  | cons r rs ih =>
      intro ps
      obtain ⟨word, hr⟩ := hrs r List.mem_cons_self
      have hlater := ih fun r' hr' => hrs r' (List.mem_cons_of_mem r hr')
      have hcut : r.sub repl (repl.intercalate ps) = repl.intercalate (ps.flatMap r.split) := by
        rw [hr.sub_intercalate, intercalate_flatMap (split_ne_nil r)]
        simp only [← sub_eq_intercalate]
      rw [List.foldl_cons, hcut, hlater, List.flatMap_assoc]
      rfl

end Scanning

end Regex
