import Bass.Data.Regex

/-!
# The words that an expression matches

`Regex.ends` enumerates the ways of an engine. `Regex.Matches` says which words an expression matches in
which context, whatever the order. A context is the character before the word and the text after it; it
matters to word boundaries only, so that a match can be carried from one context to another by looking
at its two edges.
-/

namespace Regex

/-- The character before a position, when `word` has been read. -/
def past (prev : Option Char) (word : List Char) : Option Char := word.getLast?.or prev

@[simp] theorem past_nil (prev : Option Char) : past prev [] = prev := rfl

@[simp] theorem past_singleton (prev : Option Char) (x : Char) : past prev [x] = some x := rfl

theorem past_append (prev : Option Char) (v v' : List Char) :
    past prev (v ++ v') = past (past prev v) v' := by
  simp only [past, List.getLast?_append, Option.or_assoc]

theorem past_cons (prev : Option Char) (x : Char) (word : List Char) :
    past prev (x :: word) = past (some x) word := past_append prev [x] word

theorem past_eq_of_ne_nil (prev prev' : Option Char) {word : List Char} (h : word ≠ []) :
    past prev word = past prev' word := by
  cases word with
  | nil => exact absurd rfl h
  | cons x word => rw [past_cons, past_cons]

/-- There is a word boundary between `prev` and `rest`. -/
def Edge (word : Char → Bool) (prev : Option Char) (rest : List Char) : Prop :=
  prev.any word ≠ rest.head?.any word

/-- `k` words one after the other, each of them matched in its context. -/
def Passes (body : Option Char → List Char → List Char → Prop) :
    Nat → Option Char → List Char → List Char → Prop
  | 0, _, w, _ => w = []
  | k + 1, prev, w, rest =>
      ∃ v v', w = v ++ v' ∧ body prev v (v' ++ rest) ∧ Passes body k (past prev v) v' rest

/-- The expression matches the word between `prev` and `rest`. -/
def Matches : Regex → Option Char → List Char → List Char → Prop
  | empty, _, w, _ => w = []
  | char p, _, w, _ => ∃ x, w = [x] ∧ p x = true
  | boundary word, prev, w, rest => w = [] ∧ Edge word prev rest
  | seq r s, prev, w, rest =>
      ∃ v v', w = v ++ v' ∧ r.Matches prev v (v' ++ rest) ∧ s.Matches (past prev v) v' rest
  | alt r s, prev, w, rest => r.Matches prev w rest ∨ s.Matches prev w rest
  | rep r min max _, prev, w, rest =>
      ∃ k, (∀ m ∈ max, k ≤ m - min) ∧ Passes r.Matches (min + k) prev w rest

/-! ### The ways of the engine -/

/-- From `c` to `c'` a word is read that `m` matches in its context. -/
def Reads (m : Option Char → List Char → List Char → Prop) (c c' : Cursor) : Prop :=
  ∃ w, c.rest = w ++ c'.rest ∧ c'.prev = past c.prev w ∧ m c.prev w c'.rest

/-- The body of a loop always reads something. -/
def Proper : Regex → Prop
  | empty => True
  | char _ => True
  | boundary _ => True
  | seq r s => r.Proper ∧ s.Proper
  | alt r s => r.Proper ∧ s.Proper
  | rep r _ _ _ => r.Proper ∧ r.Consumes (fun _ => true) 1

section Ways

variable {body : Cursor → List Cursor} {m : Option Char → List Char → List Char → Prop}

theorem mem_required_iff (hbody : ∀ c c', c' ∈ body c ↔ Reads m c c') (k : Nat) (c c' : Cursor) :
    c' ∈ required body k c ↔ Reads (Passes m k) c c' := by
  induction k generalizing c with
  | zero =>
      simp only [required, List.mem_singleton, Reads, Passes]
      constructor
      · rintro rfl
        exact ⟨[], rfl, rfl, rfl⟩
      · rintro ⟨w, hrest, hprev, rfl⟩
        obtain ⟨prev', rest'⟩ := c'
        obtain ⟨prev, rest⟩ := c
        simp_all
  | succ k ih =>
      simp only [required, List.mem_flatMap, hbody, ih]
      constructor
      · rintro ⟨c₁, ⟨v, hrest, hprev, hv⟩, v', hrest', hprev', hv'⟩
        refine ⟨v ++ v', ?_, ?_, v, v', rfl, ?_, ?_⟩
        · rw [hrest, hrest', List.append_assoc]
        · rw [hprev', hprev, past_append]
        · rw [← hrest']
          exact hv
        · rw [← hprev]
          exact hv'
      · rintro ⟨w, hrest, hprev, v, v', rfl, hv, hv'⟩
        refine ⟨⟨past c.prev v, v' ++ c'.rest⟩, ⟨v, ?_, rfl, hv⟩, v', rfl, ?_, hv'⟩
        · rw [hrest, List.append_assoc]
        · rw [hprev, past_append]

theorem mem_required_add (i j : Nat) (c c' : Cursor) :
    c' ∈ required body (i + j) c ↔ ∃ c₁ ∈ required body i c, c' ∈ required body j c₁ := by
  induction i generalizing c with
  | zero => simp [required]
  | succ i ih =>
      rw [Nat.succ_add]
      simp only [required, List.mem_flatMap, ih]
      constructor
      · rintro ⟨c₁, hc₁, c₂, hc₂, hc'⟩
        exact ⟨c₂, ⟨c₁, hc₁, hc₂⟩, hc'⟩
      · rintro ⟨c₂, ⟨c₁, hc₁, hc₂⟩, hc'⟩
        exact ⟨c₁, hc₁, c₂, hc₂, hc'⟩

theorem mem_optional_iff (greedy : Bool) (n : Nat) (c c' : Cursor) :
    c' ∈ optional body greedy n c ↔ ∃ k ≤ n, c' ∈ required body k c := by
  induction n generalizing c with
  | zero =>
      constructor
      · intro h
        exact ⟨0, Nat.le_refl 0, h⟩
      · rintro ⟨k, hk, h⟩
        obtain rfl := Nat.le_zero.mp hk
        exact h
  | succ n ih =>
      have hmem : c' ∈ optional body greedy (n + 1) c ↔
          c' = c ∨ c' ∈ (body c).flatMap (optional body greedy n) := by
        cases greedy <;> simp [optional, or_comm]
      simp only [hmem, List.mem_flatMap, ih]
      constructor
      · rintro (rfl | ⟨c₁, hc₁, k, hk, hc'⟩)
        · exact ⟨0, Nat.zero_le _, List.mem_singleton_self c'⟩
        · exact ⟨k + 1, by omega, List.mem_flatMap.mpr ⟨c₁, hc₁, hc'⟩⟩
      · rintro ⟨k, hk, h⟩
        cases k with
        | zero => exact Or.inl (List.mem_singleton.mp h)
        | succ k =>
            obtain ⟨c₁, hc₁, hc'⟩ := List.mem_flatMap.mp h
            exact Or.inr ⟨c₁, hc₁, k, by omega, hc'⟩

end Ways

/-- The positions that an expression reaches are those after the words that it matches. -/
theorem mem_ends_iff {r : Regex} (hr : r.Proper) (c c' : Cursor) :
    c' ∈ r.ends c ↔ Reads r.Matches c c' := by
  induction r generalizing c c' with
  | empty =>
      simp only [ends, List.mem_singleton, Reads, Matches]
      constructor
      · rintro rfl
        exact ⟨[], rfl, rfl, rfl⟩
      · rintro ⟨w, hrest, hprev, rfl⟩
        obtain ⟨prev', rest'⟩ := c'
        obtain ⟨prev, rest⟩ := c
        simp_all
  | char p =>
      obtain ⟨prev, rest⟩ := c
      obtain ⟨prev', rest'⟩ := c'
      cases rest with
      | nil => simp [ends, Reads, Matches]
      | cons x rest =>
          by_cases hx : p x = true
          · simp only [ends, if_pos hx, List.mem_singleton, Reads, Matches]
            constructor
            · intro heq
              injection heq with hprev hrest
              subst hprev hrest
              exact ⟨[x], rfl, rfl, x, rfl, hx⟩
            · rintro ⟨w, hrest, hprev, y, rfl, -⟩
              simp_all
          · simp only [ends, if_neg hx, List.not_mem_nil, Reads, Matches, false_iff]
            rintro ⟨w, hrest, -, y, rfl, hy⟩
            simp_all
  | boundary word =>
      simp only [ends, Reads, Matches, Edge]
      constructor
      · intro h
        split at h
        · exact absurd h List.not_mem_nil
        · rename_i hedge
          obtain rfl := List.mem_singleton.mp h
          exact ⟨[], rfl, rfl, rfl, hedge⟩
      · rintro ⟨w, hrest, hprev, rfl, hedge⟩
        obtain ⟨prev', rest'⟩ := c'
        obtain ⟨prev, rest⟩ := c
        simp_all
  | seq r s ihr ihs =>
      simp only [ends, List.mem_flatMap, ihr hr.1, ihs hr.2]
      constructor
      · rintro ⟨c₁, ⟨v, hrest, hprev, hv⟩, v', hrest', hprev', hv'⟩
        refine ⟨v ++ v', ?_, ?_, v, v', rfl, ?_, ?_⟩
        · rw [hrest, hrest', List.append_assoc]
        · rw [hprev', hprev, past_append]
        · rw [← hrest']
          exact hv
        · rw [← hprev]
          exact hv'
      · rintro ⟨w, hrest, hprev, v, v', rfl, hv, hv'⟩
        refine ⟨⟨past c.prev v, v' ++ c'.rest⟩, ⟨v, ?_, rfl, hv⟩, v', rfl, ?_, hv'⟩
        · rw [hrest, List.append_assoc]
        · rw [hprev, past_append]
  | alt r s ihr ihs =>
      simp only [ends, List.mem_append, ihr hr.1, ihs hr.2]
      constructor
      · rintro (⟨w, hrest, hprev, hw⟩ | ⟨w, hrest, hprev, hw⟩)
        · exact ⟨w, hrest, hprev, Or.inl hw⟩
        · exact ⟨w, hrest, hprev, Or.inr hw⟩
      · rintro ⟨w, hrest, hprev, hw | hw⟩
        · exact Or.inl ⟨w, hrest, hprev, hw⟩
        · exact Or.inr ⟨w, hrest, hprev, hw⟩
  | rep r min max greedy ih =>
      have hbody := ih hr.1
      have hbound : ∀ k c₁, c' ∈ required r.ends k c₁ → k ≤ c₁.rest.length := by
        intro k c₁ h
        have hspan : Spans (fun _ => true) (k * 1) c₁ c' := spans_required hr.2.spans k c₁ c' h
        obtain ⟨word, hrest, hcount⟩ := hspan
        rw [hrest, List.length_append]
        have hle : word.countP (fun _ => true) ≤ word.length := List.countP_le_length
        omega
      have hends : c' ∈ (rep r min max greedy).ends c ↔
          ∃ k, (∀ m ∈ max, k ≤ m - min) ∧ c' ∈ required r.ends (min + k) c := by
        simp only [ends, List.mem_flatMap, mem_optional_iff, mem_required_add]
        constructor
        · rintro ⟨c₁, hc₁, k, hk, hc'⟩
          refine ⟨k, ?_, c₁, hc₁, hc'⟩
          rintro m rfl
          exact hk
        · rintro ⟨k, hk, c₁, hc₁, hc'⟩
          refine ⟨c₁, hc₁, k, ?_, hc'⟩
          cases max with
          | none => exact hbound k c₁ hc'
          | some m => exact hk m rfl
      rw [hends]
      simp only [mem_required_iff hbody, Reads, Matches]
      constructor
      · rintro ⟨k, hk, w, hrest, hprev, hw⟩
        exact ⟨w, hrest, hprev, k, hk, hw⟩
      · rintro ⟨w, hrest, hprev, k, hk, hw⟩
        exact ⟨k, hk, w, hrest, hprev, hw⟩

/-- An expression matches at a position if it matches a word there. -/
theorem ends_ne_nil_iff {r : Regex} (hr : r.Proper) (prev : Option Char) (text : List Char) :
    r.ends ⟨prev, text⟩ ≠ [] ↔ ∃ w rest, text = w ++ rest ∧ r.Matches prev w rest := by
  rw [ne_eq, List.eq_nil_iff_forall_not_mem, not_forall]
  simp only [not_not, mem_ends_iff hr]
  constructor
  · rintro ⟨c', w, hrest, -, hw⟩
    exact ⟨w, c'.rest, hrest, hw⟩
  · rintro ⟨w, rest, htext, hw⟩
    exact ⟨⟨past prev w, rest⟩, w, htext, rfl, hw⟩

/-! ### Other contexts -/

/-- Every boundary of the expression looks at the same class. -/
def BoundariesOn (word : Char → Bool) : Regex → Prop
  | empty => True
  | char _ => True
  | boundary p => p = word
  | seq r s => r.BoundariesOn word ∧ s.BoundariesOn word
  | alt r s => r.BoundariesOn word ∧ s.BoundariesOn word
  | rep r _ _ _ => r.BoundariesOn word

/-- Every character that the expression reads is in the class. -/
def Within (p : Char → Bool) : Regex → Prop
  | empty => True
  | char q => ∀ x, q x = true → p x = true
  | boundary _ => True
  | seq r s => r.Within p ∧ s.Within p
  | alt r s => r.Within p ∧ s.Within p
  | rep r _ _ _ => r.Within p

section Contexts

variable {word : Char → Bool} {m : Option Char → List Char → List Char → Prop}
  {prev prev' : Option Char} {v v' w rest rest' : List Char}

/-- A boundary between two parts of a word is at one of its edges or does not see the context. -/
theorem edge_between
    (hleft : Edge word prev (v ++ (v' ++ rest)) → Edge word prev' (v ++ (v' ++ rest')))
    (hright : Edge word (past (past prev v) v') rest → Edge word (past (past prev' v) v') rest') :
    Edge word (past prev v) (v' ++ rest) → Edge word (past prev' v) (v' ++ rest') := by
  intro hedge
  cases v with
  | nil => exact hleft hedge
  | cons x v =>
      have hpast : past prev (x :: v) = past prev' (x :: v) :=
        past_eq_of_ne_nil prev prev' (List.cons_ne_nil x v)
      cases v' with
      | nil => exact hright hedge
      | cons y v' =>
          rw [← hpast]
          exact hedge

theorem Passes.transfer (k : Nat)
    (hbody : ∀ {prev prev' v rest rest'}, m prev v rest →
      (Edge word prev (v ++ rest) → Edge word prev' (v ++ rest')) →
      (Edge word (past prev v) rest → Edge word (past prev' v) rest') → m prev' v rest')
    (h : Passes m k prev w rest)
    (hleft : Edge word prev (w ++ rest) → Edge word prev' (w ++ rest'))
    (hright : Edge word (past prev w) rest → Edge word (past prev' w) rest') :
    Passes m k prev' w rest' := by
  induction k generalizing prev prev' w with
  | zero => exact h
  | succ k ih =>
      obtain ⟨v, v', rfl, hv, hv'⟩ := h
      rw [List.append_assoc, List.append_assoc] at hleft
      rw [past_append, past_append] at hright
      have hmiddle := edge_between hleft hright
      exact ⟨v, v', rfl, hbody hv hleft hmiddle, ih hv' hmiddle hright⟩

/-- A match is a match in every context that has the boundaries of its context at the edges. -/
theorem Matches.transfer {r : Regex} (hr : r.BoundariesOn word) (h : r.Matches prev w rest)
    (hleft : Edge word prev (w ++ rest) → Edge word prev' (w ++ rest'))
    (hright : Edge word (past prev w) rest → Edge word (past prev' w) rest') :
    r.Matches prev' w rest' := by
  induction r generalizing prev prev' w rest rest' with
  | empty => exact h
  | char p => exact h
  | boundary p =>
      obtain ⟨rfl, hedge⟩ := h
      obtain rfl := hr
      exact ⟨rfl, hright hedge⟩
  | seq r s ihr ihs =>
      obtain ⟨v, v', rfl, hv, hv'⟩ := h
      rw [List.append_assoc, List.append_assoc] at hleft
      rw [past_append, past_append] at hright
      have hmiddle := edge_between hleft hright
      exact ⟨v, v', rfl, ihr hr.1 hv hleft hmiddle, ihs hr.2 hv' hmiddle hright⟩
  | alt r s ihr ihs =>
      rcases h with h | h
      · exact Or.inl (ihr hr.1 h hleft hright)
      · exact Or.inr (ihs hr.2 h hleft hright)
  | rep r min max greedy ih =>
      obtain ⟨k, hk, hpasses⟩ := h
      exact ⟨k, hk, hpasses.transfer _ (ih hr) hleft hright⟩

theorem Passes.forall {p : Char → Bool} (k : Nat)
    (hbody : ∀ {prev v rest}, m prev v rest → ∀ x ∈ v, p x = true)
    (h : Passes m k prev w rest) : ∀ x ∈ w, p x = true := by
  induction k generalizing prev w with
  | zero =>
      obtain rfl := h
      exact fun x hx => absurd hx List.not_mem_nil
  | succ k ih =>
      obtain ⟨v, v', rfl, hv, hv'⟩ := h
      intro x hx
      rcases List.mem_append.mp hx with hx | hx
      · exact hbody hv x hx
      · exact ih hv' x hx

theorem Matches.forall {r : Regex} {p : Char → Bool} (hr : r.Within p) (h : r.Matches prev w rest) :
    ∀ x ∈ w, p x = true := by
  induction r generalizing prev w rest with
  | empty =>
      obtain rfl := h
      exact fun x hx => absurd hx List.not_mem_nil
  | char q =>
      obtain ⟨y, rfl, hy⟩ := h
      intro x hx
      obtain rfl := List.mem_singleton.mp hx
      exact hr x hy
  | boundary p =>
      obtain ⟨rfl, -⟩ := h
      exact fun x hx => absurd hx List.not_mem_nil
  | seq r s ihr ihs =>
      obtain ⟨v, v', rfl, hv, hv'⟩ := h
      intro x hx
      rcases List.mem_append.mp hx with hx | hx
      · exact ihr hr.1 hv x hx
      · exact ihs hr.2 hv' x hx
  | alt r s ihr ihs =>
      rcases h with h | h
      · exact ihr hr.1 h
      · exact ihs hr.2 h
  | rep r min max greedy ih =>
      obtain ⟨k, -, hpasses⟩ := h
      exact hpasses.forall _ (ih hr)

/-- What an expression must consume is in every word that it matches. -/
theorem Consumes.le_countP {r : Regex} {p : Char → Bool} {n : Nat} (hr : r.Consumes p n)
    (hproper : r.Proper) (h : r.Matches prev w rest) : n ≤ w.countP p := by
  have hends : (⟨past prev w, rest⟩ : Cursor) ∈ r.ends ⟨prev, w ++ rest⟩ :=
    (mem_ends_iff hproper _ _).mpr ⟨w, rfl, rfl, h⟩
  obtain ⟨v, hrest, hcount⟩ := hr.spans _ _ hends
  have hword : w = v := List.append_cancel_right hrest
  rw [hword]
  exact hcount

/-- Every match of the expression reads a character of the class. -/
def Needs (p : Char → Bool) (r : Regex) : Prop := ∃ n, r.Consumes p (n + 1)

theorem Consumes.needs {r : Regex} {p : Char → Bool} {n : Nat} (hr : r.Consumes p (n + 1)) : r.Needs p :=
  ⟨n, hr⟩

theorem Needs.spans {r : Regex} {p : Char → Bool} (hr : r.Needs p) (c c' : Cursor) (h : c' ∈ r.ends c) :
    Spans p 1 c c' := by
  obtain ⟨n, hn⟩ := hr
  exact (hn.spans c c' h).mono (by omega)

theorem Needs.ends_eq_nil {r : Regex} {p : Char → Bool} (hr : r.Needs p) {c : Cursor}
    (h : c.rest.countP p = 0) : r.ends c = [] := by
  obtain ⟨n, hn⟩ := hr
  exact hn.ends_eq_nil (by omega)

theorem Needs.le_countP {r : Regex} {p : Char → Bool} (hr : r.Needs p) (hproper : r.Proper)
    (h : r.Matches prev w rest) : 1 ≤ w.countP p := by
  obtain ⟨n, hn⟩ := hr
  have hcount := hn.le_countP hproper h
  omega

theorem Matches.ne_nil {r : Regex} {p : Char → Bool} (hr : r.Needs p) (hproper : r.Proper)
    (h : r.Matches prev w rest) : w ≠ [] := by
  rintro rfl
  have hcount := hr.le_countP hproper h
  simp at hcount

end Contexts

/-! ### Searching -/

theorem searchFrom_eq_false_iff {r : Regex} {prev : Option Char} {text : List Char} :
    r.searchFrom prev text = false ↔
      ∀ v rest, text = v ++ rest → r.ends ⟨past prev v, rest⟩ = [] := by
  induction text generalizing prev with
  | nil =>
      simp only [searchFrom, Bool.not_eq_eq_eq_not, Bool.not_false, List.isEmpty_iff]
      constructor
      · intro h v rest heq
        obtain ⟨rfl, rfl⟩ := List.append_eq_nil_iff.mp heq.symm
        exact h
      · intro h
        exact h [] [] rfl
  | cons x text ih =>
      simp only [searchFrom, Bool.or_eq_false_iff, Bool.not_eq_eq_eq_not, Bool.not_false,
        List.isEmpty_iff, ih]
      constructor
      · rintro ⟨hhere, hlater⟩ v rest heq
        cases v with
        | nil =>
            obtain rfl := heq
            exact hhere
        | cons y v =>
            injection heq with hx htext
            subst hx
            rw [past_cons]
            exact hlater v rest htext
      · intro h
        constructor
        · exact h [] (x :: text) rfl
        · intro v rest heq
          have hpast := h (x :: v) rest (by rw [heq]; rfl)
          rw [past_cons] at hpast
          exact hpast

theorem searchFrom_append {r : Regex} {prev : Option Char} (v : List Char) {text : List Char}
    (h : r.searchFrom (past prev v) text = true) : r.searchFrom prev (v ++ text) = true := by
  induction v generalizing prev with
  | nil => exact h
  | cons x v ih =>
      rw [past_cons] at h
      rw [List.cons_append, searchFrom, ih h, Bool.or_true]

/-- Text in which no match begins can be passed over. -/
theorem searchFrom_append_eq {r : Regex} {prev : Option Char} {w rest : List Char}
    (hclear : ∀ v v', w = v ++ v' → v' ≠ [] → r.ends ⟨past prev v, v' ++ rest⟩ = []) :
    r.searchFrom prev (w ++ rest) = r.searchFrom (past prev w) rest := by
  induction w generalizing prev with
  | nil => rfl
  | cons x w ih =>
      have hnone : r.ends ⟨prev, x :: (w ++ rest)⟩ = [] := hclear [] (x :: w) rfl (List.cons_ne_nil x w)
      rw [List.cons_append, searchFrom, hnone, List.isEmpty_nil, Bool.not_true, Bool.false_or, past_cons]
      apply ih
      intro v v' heq hv'
      rw [← past_cons prev x v]
      exact hclear (x :: v) v' (congrArg (x :: ·) heq) hv'

theorem Needs.search_eq_false {r : Regex} {p : Char → Bool} (hr : r.Needs p) {text : List Char}
    (h : text.countP p = 0) : r.search text = false := by
  apply searchFrom_eq_false_iff.mpr
  intro v rest heq
  apply hr.ends_eq_nil
  rw [heq, List.countP_append] at h
  exact (Nat.add_eq_zero_iff.mp h).2

end Regex
