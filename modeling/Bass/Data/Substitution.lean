import Bass.Data.Matching

/-!
# What substitution leaves behind

A text in which the matches of one expression have been replaced is searched for another one. A match in
the result cannot reach into a replacement that begins and ends with a character the other expression
never reads, so it is a match of the text that was kept, seen in another context. Only its edges can
have changed: at the right one a boundary was there before, if the replaced expression begins with a
boundary; at the left one this has to be asked of each replaced match.
-/

namespace Regex

/-- The positions after the matches that are replaced. -/
def replacedFrom (r : Regex) : Nat → Cursor → List Cursor
  | 0, _ => []
  | n + 1, c =>
      match r.ends c, c.rest with
      | next :: _, _ => next :: replacedFrom r n next
      | [], [] => []
      | [], x :: rest => replacedFrom r n ⟨some x, rest⟩

def replaced (r : Regex) (text : List Char) : List Cursor := r.replacedFrom text.length ⟨none, text⟩

section Steps

variable {r : Regex} {repl : List Char} {n : Nat} {c next : Cursor} {more : List Cursor}
  {prev : Option Char} {x : Char} {rest : List Char}

theorem subFrom_match (h : r.ends c = next :: more) :
    r.subFrom repl (n + 1) c = repl ++ r.subFrom repl n next := by
  simp only [subFrom, h]

theorem subFrom_skip (h : r.ends ⟨prev, x :: rest⟩ = []) :
    r.subFrom repl (n + 1) ⟨prev, x :: rest⟩ = x :: r.subFrom repl n ⟨some x, rest⟩ := by
  simp only [subFrom, h]

theorem replacedFrom_match (h : r.ends c = next :: more) :
    r.replacedFrom (n + 1) c = next :: r.replacedFrom n next := by
  simp only [replacedFrom, h]

theorem replacedFrom_skip (h : r.ends ⟨prev, x :: rest⟩ = []) :
    r.replacedFrom (n + 1) ⟨prev, x :: rest⟩ = r.replacedFrom n ⟨some x, rest⟩ := by
  simp only [replacedFrom, h]

/-- What an expression that must consume something leaves of the text is shorter. -/
theorem length_lt_of_match {p : Char → Bool} (hr : r.Needs p) (h : r.ends c = next :: more) :
    next.rest.length < c.rest.length := by
  obtain ⟨w, hrest, hcount⟩ := hr.spans c next (h ▸ List.mem_cons_self)
  have hle : w.countP p ≤ w.length := List.countP_le_length
  rw [hrest, List.length_append]
  omega

/-- A text without a match is left as it is. -/
theorem subFrom_eq_of_searchFrom (h : r.searchFrom prev rest = false) :
    r.subFrom repl n ⟨prev, rest⟩ = rest := by
  induction rest generalizing prev n with
  | nil =>
      have hnone : r.ends ⟨prev, []⟩ = [] := searchFrom_eq_false_iff.mp h [] [] rfl
      cases n <;> simp [subFrom, hnone]
  | cons x rest ih =>
      have hnone : r.ends ⟨prev, x :: rest⟩ = [] := searchFrom_eq_false_iff.mp h [] (x :: rest) rfl
      have hlater : r.searchFrom (some x) rest = false := by
        simp only [searchFrom, Bool.or_eq_false_iff] at h
        exact h.2
      cases n with
      | zero => rfl
      | succ n => rw [subFrom_skip hnone, ih hlater]

end Steps

theorem sub_eq_of_search {r : Regex} {text : List Char} (h : r.search text = false)
    (repl : List Char) : r.sub repl text = text := subFrom_eq_of_searchFrom h

/-! ### Counting -/

section Counting

variable {r : Regex} {p : Char → Bool} {repl : List Char}

/-- A replacement without characters of a class leaves no more of them than there were. -/
theorem countP_subFrom_le (hrepl : repl.countP p = 0) (n : Nat) (c : Cursor) :
    (r.subFrom repl n c).countP p ≤ c.rest.countP p := by
  induction n generalizing c with
  | zero => exact Nat.le_refl _
  | succ n ih =>
      obtain ⟨prev, rest⟩ := c
      cases hends : r.ends ⟨prev, rest⟩ with
      | cons next more =>
          obtain ⟨w, hrest, -⟩ := spans_ends_zero (p := p) r ⟨prev, rest⟩ next (hends ▸ List.mem_cons_self)
          have hrest' : rest = w ++ next.rest := hrest
          have hnext := ih next
          rw [subFrom_match hends, List.countP_append, hrepl, hrest', List.countP_append]
          omega
      | nil =>
          cases rest with
          | nil => simp [subFrom, hends]
          | cons x rest =>
              have hnext := ih ⟨some x, rest⟩
              rw [subFrom_skip hends, List.countP_cons, List.countP_cons]
              exact Nat.add_le_add_right hnext _

/-- Replacing a match that consumes characters of the class leaves fewer of them. -/
theorem countP_subFrom_lt (hr : r.Needs p) (hrepl : repl.countP p = 0) (n : Nat) (c : Cursor)
    (hn : c.rest.length ≤ n) (h : r.searchFrom c.prev c.rest = true) :
    (r.subFrom repl n c).countP p < c.rest.countP p := by
  induction n generalizing c with
  | zero =>
      have hnil : c.rest = [] := List.eq_nil_of_length_eq_zero (Nat.le_zero.mp hn)
      have hnone : r.ends ⟨c.prev, []⟩ = [] := hr.ends_eq_nil (by simp)
      rw [hnil] at h
      simp [searchFrom, hnone] at h
  | succ n ih =>
      obtain ⟨prev, rest⟩ := c
      cases hends : r.ends ⟨prev, rest⟩ with
      | cons next more =>
          obtain ⟨w, hrest, hcount⟩ := hr.spans ⟨prev, rest⟩ next (hends ▸ List.mem_cons_self)
          have hrest' : rest = w ++ next.rest := hrest
          have hnext := countP_subFrom_le (r := r) hrepl n next
          rw [subFrom_match hends, List.countP_append, hrepl, hrest', List.countP_append]
          omega
      | nil =>
          cases rest with
          | nil => simp [searchFrom, hends] at h
          | cons x rest =>
              have hlater : r.searchFrom (some x) rest = true := by
                simpa [searchFrom, hends] using h
              have hnext := ih ⟨some x, rest⟩ (Nat.le_of_succ_le_succ hn) hlater
              rw [subFrom_skip hends, List.countP_cons, List.countP_cons]
              exact Nat.add_lt_add_right hnext _

end Counting

/-! ### Searching the result -/

/-- A replacement into which `q` cannot read: it begins and ends with a character that `q` never reads
and that is no part of a word, and it has nothing of what `q` must consume. -/
structure Seals (word : Char → Bool) (star : Char) (repl : List Char) (q : Regex) : Prop where
  proper : q.Proper
  boundaries : q.BoundariesOn word
  within : q.Within (· != star)
  lacks : ∃ p, q.Needs p ∧ repl.countP p = 0
  nonword : word star = false
  head : repl.head? = some star
  last : repl.getLast? = some star

/-- A match of the expression is at the beginning or the end of a word, on its left. -/
def Fenced (word : Char → Bool) (r : Regex) : Prop := ∀ c, r.ends c ≠ [] → Edge word c.prev c.rest

section Searching

variable {word : Char → Bool} {star : Char} {repl : List Char} {q r : Regex}

theorem Seals.notMem {prev : Option Char} {w rest : List Char} (hq : Seals word star repl q)
    (h : q.Matches prev w rest) : star ∉ w := by
  intro hmem
  have hne := h.forall hq.within star hmem
  simp at hne

theorem Seals.ne_nil {prev : Option Char} {w rest : List Char} (hq : Seals word star repl q)
    (h : q.Matches prev w rest) : w ≠ [] := by
  obtain ⟨p, hp, -⟩ := hq.lacks
  exact h.ne_nil hp hq.proper

/-- A word without a certain character, at the beginning of a text in which this character comes first
after `u`, is at the beginning of `u`. -/
theorem exists_of_append_eq {w s u a : List Char} (heq : w ++ s = u ++ a) (hw : star ∉ w)
    (ha : a = [] ∨ a.head? = some star) : ∃ u', u = w ++ u' ∧ s = u' ++ a := by
  rcases List.append_eq_append_iff.mp heq with ⟨u', hu, hs⟩ | ⟨v, hv, ha'⟩
  · exact ⟨u', hu, hs⟩
  · cases v with
    | nil => exact ⟨[], by simpa using hv.symm, by simpa using ha'.symm⟩
    | cons x v =>
        exfalso
        rcases ha with rfl | hhead
        · exact absurd ha' (by simp)
        · rw [ha'] at hhead
          obtain rfl := Option.some.inj hhead
          apply hw
          rw [hv]
          exact List.mem_append_right _ List.mem_cons_self

/-- No match begins in the replacement. -/
theorem Seals.ends_replacement (hq : Seals word star repl q) {v v' : List Char} (hrepl : repl = v ++ v')
    (hv' : v' ≠ []) (prev : Option Char) (text : List Char) : q.ends ⟨prev, v' ++ text⟩ = [] := by
  obtain ⟨p, hp, hlacks⟩ := hq.lacks
  have hlast := hq.last
  rw [hrepl] at hlast
  have hlast' : v'.getLast? = some star := by
    rw [← hlast, List.getLast?_append, List.getLast?_eq_some_getLast hv', Option.some_or]
  rw [hrepl, List.countP_append] at hlacks
  by_contra hends
  obtain ⟨w, s, htext, hw⟩ := (ends_ne_nil_iff hq.proper _ _).mp hends
  have hcountw : 1 ≤ w.countP p := hp.le_countP hq.proper hw
  rcases List.append_eq_append_iff.mp htext with ⟨u, hu, -⟩ | ⟨u, hu, -⟩
  · apply hq.notMem hw
    rw [hu]
    exact List.mem_append_left _ (List.mem_of_getLast? hlast')
  · rw [hu, List.countP_append] at hlacks
    omega

theorem Seals.searchFrom_replacement (hq : Seals word star repl q) {text : List Char}
    (h : q.searchFrom (some star) text = false) (prev : Option Char) :
    q.searchFrom prev (repl ++ text) = false := by
  have hpast : past prev repl = some star := by rw [past, hq.last, Option.some_or]
  rw [searchFrom_append_eq, hpast]
  · exact h
  · intro v v' hrepl hv'
    exact hq.ends_replacement hrepl hv' _ text

/-- The result begins with text that was kept, up to the first replacement. -/
theorem exists_kept (hr : ∃ p, r.Needs p) (n : Nat) (c : Cursor) (hn : c.rest.length ≤ n) :
    ∃ u a b, r.subFrom repl n c = u ++ a ∧ c.rest = u ++ b ∧
      (a = [] ∧ b = [] ∨ (∃ a', a = repl ++ a') ∧ r.ends ⟨past c.prev u, b⟩ ≠ []) := by
  obtain ⟨p, hp⟩ := hr
  induction n generalizing c with
  | zero =>
      have hnil : c.rest = [] := List.eq_nil_of_length_eq_zero (Nat.le_zero.mp hn)
      exact ⟨[], [], [], by simpa [subFrom] using hnil, hnil, Or.inl ⟨rfl, rfl⟩⟩
  | succ n ih =>
      obtain ⟨prev, rest⟩ := c
      cases hends : r.ends ⟨prev, rest⟩ with
      | cons next more =>
          refine ⟨[], _, rest, subFrom_match hends, rfl, Or.inr ⟨⟨_, rfl⟩, ?_⟩⟩
          rw [past_nil, hends]
          exact List.cons_ne_nil _ _
      | nil =>
          cases rest with
          | nil => exact ⟨[], [], [], by simp [subFrom, hends], rfl, Or.inl ⟨rfl, rfl⟩⟩
          | cons x rest =>
              obtain ⟨u, a, b, hsub, hrest, hcases⟩ := ih ⟨some x, rest⟩ (Nat.le_of_succ_le_succ hn)
              refine ⟨x :: u, a, b, ?_, ?_, ?_⟩
              · rw [subFrom_skip hends, hsub, List.cons_append]
              · change x :: rest = x :: u ++ b
                rw [List.cons_append]
                exact congrArg _ hrest
              · rw [past_cons]
                exact hcases

/-- A match at the beginning of the result is a match of the text that was kept. -/
theorem Seals.ends_of_subFrom (hq : Seals word star repl q) (hr : ∃ p, r.Needs p)
    (hfence : r.Fenced word ∨ ∀ x, word x = false) (n : Nat) (c : Cursor) (hn : c.rest.length ≤ n)
    (prev : Option Char) (h : q.ends ⟨prev, r.subFrom repl n c⟩ ≠ []) :
    q.ends ⟨prev, c.rest⟩ ≠ [] := by
  obtain ⟨w, s, htext, hw⟩ := (ends_ne_nil_iff hq.proper _ _).mp h
  have hne := hq.ne_nil hw
  obtain ⟨u, a, b, hsub, hrest, hcases⟩ := @exists_kept repl r hr n c hn
  have ha : a = [] ∨ a.head? = some star := by
    rcases hcases with ⟨ha, -⟩ | ⟨⟨a', ha⟩, -⟩
    · exact Or.inl ha
    · right
      rw [ha, List.head?_append, hq.head, Option.some_or]
  rw [hsub] at htext
  obtain ⟨u', rfl, rfl⟩ := exists_of_append_eq htext.symm (hq.notMem hw) ha
  apply (ends_ne_nil_iff hq.proper _ _).mpr
  refine ⟨w, u' ++ b, by rw [hrest, List.append_assoc], hw.transfer hq.boundaries ?_ ?_⟩
  · intro hedge
    cases w with
    | nil => exact absurd rfl hne
    | cons x w => exact hedge
  · intro hedge
    cases u' with
    | cons y u' => exact hedge
    | nil =>
        rcases hcases with ⟨rfl, rfl⟩ | ⟨-, hends⟩
        · exact hedge
        · rw [List.append_nil, past_eq_of_ne_nil c.prev prev hne] at hends
          rcases hfence with hfence | hnever
          · exact hfence _ hends
          · exfalso
            apply hedge
            cases past prev w <;> cases ([] ++ a).head? <;> simp [hnever]

/-- The result has no match if the text that was kept has none, be it seen after a replacement. -/
theorem Seals.searchFrom_subFrom (hq : Seals word star repl q) (hproper : r.Proper)
    (hr : ∃ p, r.Needs p) (hfence : r.Fenced word ∨ ∀ x, word x = false) (n : Nat) (c : Cursor) (hn : c.rest.length ≤ n)
    (prev : Option Char) (hhere : r.ends c = [] → q.ends ⟨prev, c.rest⟩ = [])
    (hkept : ∀ v rest, c.rest = v ++ rest → r.ends ⟨past c.prev v, rest⟩ = [] →
      q.ends ⟨past c.prev v, rest⟩ = [])
    (hreplaced : ∀ next ∈ r.replacedFrom n c, r.ends next = [] → q.ends ⟨some star, next.rest⟩ = []) :
    q.searchFrom prev (r.subFrom repl n c) = false := by
  obtain ⟨p, hp⟩ := hr
  obtain ⟨p', hp', -⟩ := hq.lacks
  induction n generalizing c prev with
  | zero =>
      have hnil : c.rest = [] := List.eq_nil_of_length_eq_zero (Nat.le_zero.mp hn)
      have hnone : q.ends ⟨prev, []⟩ = [] := hp'.ends_eq_nil (by simp)
      simp [subFrom, hnil, searchFrom, hnone]
  | succ n ih =>
      obtain ⟨prev', rest⟩ := c
      cases hends : r.ends ⟨prev', rest⟩ with
      | cons next more =>
          have hlength : next.rest.length < rest.length := length_lt_of_match hp hends
          have hn' : rest.length ≤ n + 1 := hn
          obtain ⟨w, hrest, hprev, -⟩ := (mem_ends_iff hproper _ next).mp (hends ▸ List.mem_cons_self)
          rw [replacedFrom_match hends] at hreplaced
          rw [subFrom_match hends]
          apply hq.searchFrom_replacement
          apply ih
          · omega
          · exact hreplaced next List.mem_cons_self
          · intro v rest' heq hnone
            have hpast : past prev' (w ++ v) = past next.prev v := by rw [past_append, hprev]
            rw [← hpast] at hnone ⊢
            apply hkept (w ++ v) rest' _ hnone
            rw [List.append_assoc, ← heq]
            exact hrest
          · intro next' hmem
            exact hreplaced next' (List.mem_cons_of_mem _ hmem)
      | nil =>
          cases rest with
          | nil =>
              have hnone : q.ends ⟨prev, []⟩ = [] := hp'.ends_eq_nil (by simp)
              simp [subFrom, hends, searchFrom, hnone]
          | cons x rest =>
              have hfirst : q.ends ⟨prev, r.subFrom repl (n + 1) ⟨prev', x :: rest⟩⟩ = [] := by
                by_contra h
                exact hq.ends_of_subFrom ⟨p, hp⟩ hfence (n + 1) ⟨prev', x :: rest⟩ hn prev h (hhere hends)
              rw [replacedFrom_skip hends] at hreplaced
              rw [subFrom_skip hends] at hfirst ⊢
              rw [searchFrom, hfirst]
              apply ih
              · exact Nat.le_of_succ_le_succ hn
              · intro hnone
                exact hkept [x] rest rfl hnone
              · intro v rest' heq hnone
                have hlater := hkept (x :: v) rest' (congrArg (x :: ·) heq)
                rw [past_cons] at hlater
                exact hlater hnone
              · exact hreplaced

/-! ### A match that a replacement brings about -/

/-- Text in which no match begins is kept. -/
theorem scan_kept {w rest : List Char} (n : Nat) (prev : Option Char) (hn : (w ++ rest).length ≤ n)
    (hclear : ∀ v v', w = v ++ v' → v' ≠ [] → r.ends ⟨past prev v, v' ++ rest⟩ = []) :
    ∃ m, rest.length ≤ m ∧
      r.subFrom repl n ⟨prev, w ++ rest⟩ = w ++ r.subFrom repl m ⟨past prev w, rest⟩ ∧
      r.replacedFrom n ⟨prev, w ++ rest⟩ = r.replacedFrom m ⟨past prev w, rest⟩ := by
  induction w generalizing n prev with
  | nil => exact ⟨n, hn, rfl, rfl⟩
  | cons x w ih =>
      cases n with
      | zero => exact absurd hn (by simp)
      | succ n =>
          have hnone : r.ends ⟨prev, x :: (w ++ rest)⟩ = [] := hclear [] (x :: w) rfl (List.cons_ne_nil x w)
          obtain ⟨m, hm, hsub, hreplaced⟩ := ih n (some x) (Nat.le_of_succ_le_succ hn) fun v v' heq hv' => by
            rw [← past_cons prev x v]
            exact hclear (x :: v) v' (congrArg (x :: ·) heq) hv'
          refine ⟨m, hm, ?_, ?_⟩
          · rw [List.cons_append, subFrom_skip hnone, hsub, past_cons, List.cons_append]
          · rw [List.cons_append, replacedFrom_skip hnone, hreplaced, past_cons]

/-- Substitution does not put a word where there was none. -/
theorem head?_subFrom (hstar : word star = false) (hhead : repl.head? = some star) (n : Nat)
    (c : Cursor) (h : (r.subFrom repl n c).head?.any word = true) : c.rest.head?.any word = true := by
  cases n with
  | zero => exact h
  | succ n =>
      obtain ⟨prev, rest⟩ := c
      cases hends : r.ends ⟨prev, rest⟩ with
      | cons next more =>
          rw [subFrom_match hends, List.head?_append, hhead] at h
          simp [hstar] at h
      | nil =>
          cases rest with
          | nil => simp [subFrom, hends] at h
          | cons x rest =>
              rw [subFrom_skip hends] at h
              exact h

/-- What is found after a replaced match is found in the whole result. -/
theorem searchFrom_of_replacedFrom (hr : ∃ p, r.Needs p) (hlast : repl.getLast? = some star)
    {next : Cursor} (n : Nat) (c : Cursor) (hn : c.rest.length ≤ n) (prev : Option Char)
    (hnext : next ∈ r.replacedFrom n c)
    (h : ∀ m, next.rest.length ≤ m → q.searchFrom (some star) (r.subFrom repl m next) = true) :
    q.searchFrom prev (r.subFrom repl n c) = true := by
  obtain ⟨p, hp⟩ := hr
  induction n generalizing c prev with
  | zero => exact absurd hnext List.not_mem_nil
  | succ n ih =>
      obtain ⟨prev', rest⟩ := c
      cases hends : r.ends ⟨prev', rest⟩ with
      | cons next' more =>
          have hlength : next'.rest.length < rest.length := length_lt_of_match hp hends
          have hn' : rest.length ≤ n + 1 := hn
          have hpast : past prev repl = some star := by rw [past, hlast, Option.some_or]
          rw [replacedFrom_match hends] at hnext
          rw [subFrom_match hends]
          apply searchFrom_append
          rw [hpast]
          rcases List.mem_cons.mp hnext with rfl | hmem
          · exact h n (by omega)
          · exact ih next' (by omega) (some star) hmem
      | nil =>
          cases rest with
          | nil => simp [replacedFrom, hends] at hnext
          | cons x rest =>
              rw [replacedFrom_skip hends] at hnext
              rw [subFrom_skip hends, searchFrom, ih ⟨some x, rest⟩ (Nat.le_of_succ_le_succ hn) (some x) hnext,
                Bool.or_true]

/-- A match that a replacement uncovers, that ends with a word and in which nothing is replaced, is in
the result. -/
theorem Seals.searchFrom_of_matches (hq : Seals word star repl q) (hr : ∃ p, r.Needs p)
    {next : Cursor} {w rest : List Char} (n : Nat) (c : Cursor) (hn : c.rest.length ≤ n)
    (prev : Option Char) (hnext : next ∈ r.replacedFrom n c) (hrest : next.rest = w ++ rest)
    (hw : q.Matches (some star) w rest) (hend : (past none w).any word = true)
    (hclear : ∀ v v', w = v ++ v' → v' ≠ [] → r.ends ⟨past next.prev v, v' ++ rest⟩ = []) :
    q.searchFrom prev (r.subFrom repl n c) = true := by
  apply searchFrom_of_replacedFrom hr hq.last n c hn prev hnext
  intro m hm
  obtain ⟨prev', rest'⟩ := next
  obtain rfl : rest' = w ++ rest := hrest
  obtain ⟨m', -, hsub, -⟩ := @scan_kept repl r w rest m prev' hm hclear
  have hne := hq.ne_nil hw
  have hends : q.ends ⟨some star, r.subFrom repl m ⟨prev', w ++ rest⟩⟩ ≠ [] := by
    apply (ends_ne_nil_iff hq.proper _ _).mpr
    refine ⟨w, _, hsub, hw.transfer hq.boundaries ?_ ?_⟩
    · intro hedge
      cases w with
      | nil => exact absurd rfl hne
      | cons x w => exact hedge
    · intro hedge
      rw [past_eq_of_ne_nil none (some star) hne] at hend
      intro heq
      rw [hend] at heq
      have hhead := head?_subFrom hq.nonword hq.head m' ⟨past prev' w, rest⟩ heq.symm
      apply hedge
      rw [hend]
      exact hhead.symm
  cases hcases : r.subFrom repl m ⟨prev', w ++ rest⟩ with
  | nil =>
      rw [hcases] at hends
      simp [searchFrom, hends]
  | cons x text =>
      rw [hcases] at hends
      simp [searchFrom, hends]

end Searching

/-! ### Whole texts -/

section Texts

variable {word : Char → Bool} {star : Char} {repl : List Char} {q r : Regex}

theorem exists_of_mem_replacedFrom (hproper : r.Proper) {next : Cursor} (n : Nat) (c : Cursor)
    (h : next ∈ r.replacedFrom n c) :
    (∃ c' more, r.ends c' = next :: more) ∧ ∃ v, c.rest = v ++ next.rest ∧ next.prev = past c.prev v := by
  induction n generalizing c with
  | zero => exact absurd h List.not_mem_nil
  | succ n ih =>
      obtain ⟨prev, rest⟩ := c
      cases hends : r.ends ⟨prev, rest⟩ with
      | cons next' more =>
          obtain ⟨w, hrest, hprev, -⟩ := (mem_ends_iff hproper _ next').mp (hends ▸ List.mem_cons_self)
          rw [replacedFrom_match hends] at h
          rcases List.mem_cons.mp h with rfl | hmem
          · exact ⟨⟨_, more, hends⟩, w, hrest, hprev⟩
          · obtain ⟨hmatch, v, hrest', hprev'⟩ := ih next' hmem
            refine ⟨hmatch, w ++ v, ?_, ?_⟩
            · rw [hrest, hrest', List.append_assoc]
            · rw [hprev', hprev, past_append]
      | nil =>
          cases rest with
          | nil => simp [replacedFrom, hends] at h
          | cons x rest =>
              rw [replacedFrom_skip hends] at h
              obtain ⟨hmatch, v, hrest', hprev'⟩ := ih ⟨some x, rest⟩ h
              refine ⟨hmatch, x :: v, ?_, ?_⟩
              · exact congrArg (x :: ·) hrest'
              · rw [hprev', past_cons]

/-- After a replaced match nothing is found that was not found there before. -/
def Covers (star : Char) (r q : Regex) : Prop :=
  ∀ c next more, r.ends c = next :: more → q.ends next = [] → q.ends ⟨some star, next.rest⟩ = []

/-- An expression that has no match where `r` has none has no match when the matches of `r` have been
replaced. -/
theorem Seals.search_sub (hq : Seals word star repl q) (hproper : r.Proper) (hr : ∃ p, r.Needs p)
    (hfence : r.Fenced word ∨ ∀ x, word x = false) (hcovers : Covers star r q) (text : List Char)
    (hfree : ∀ v rest, text = v ++ rest → r.ends ⟨past none v, rest⟩ = [] →
      q.ends ⟨past none v, rest⟩ = []) : q.search (r.sub repl text) = false := by
  apply hq.searchFrom_subFrom hproper hr hfence text.length ⟨none, text⟩ (Nat.le_refl _) none
  · exact hfree [] text rfl
  · exact hfree
  · intro next hmem hnone
    obtain ⟨⟨c', more, hends⟩, v, hrest, hprev⟩ := exists_of_mem_replacedFrom hproper _ _ hmem
    obtain ⟨prev', rest'⟩ := next
    obtain rfl : prev' = past none v := hprev
    exact hcovers c' _ more hends (hfree v rest' hrest hnone)

/-- A text without matches stays without them when the matches of another expression are replaced. -/
theorem Seals.search_sub_of_search (hq : Seals word star repl q) (hproper : r.Proper)
    (hr : ∃ p, r.Needs p) (hfence : r.Fenced word ∨ ∀ x, word x = false)
    (hcovers : Covers star r q) {text : List Char} (h : q.search text = false) :
    q.search (r.sub repl text) = false := by
  apply hq.search_sub hproper hr hfence hcovers text
  intro v rest heq _
  exact searchFrom_eq_false_iff.mp h v rest heq

/-- Replacing the matches leaves none. -/
theorem Seals.search_sub_self (hr : Seals word star repl r)
    (hfence : r.Fenced word ∨ ∀ x, word x = false) (hcovers : Covers star r r) (text : List Char) :
    r.search (r.sub repl text) = false := by
  obtain ⟨p, hp, -⟩ := hr.lacks
  apply hr.search_sub hr.proper ⟨p, hp⟩ hfence hcovers text
  intro v rest _ hnone
  exact hnone

/-- An expression without boundaries does not see what comes before. -/
theorem Seals.covers_of_free (hq : Seals (fun _ => false) star repl q) : Covers star r q := by
  intro c next more _ hnone
  by_contra hends
  obtain ⟨w, s, hrest, hw⟩ := (ends_ne_nil_iff hq.proper _ _).mp hends
  have hedge : ∀ prev rest, ¬ Edge (fun _ => false) prev rest := by
    intro prev rest hedge
    apply hedge
    cases prev <;> cases rest.head? <;> rfl
  have hmatch : q.Matches next.prev w s :=
    hw.transfer hq.boundaries (fun h => absurd h (hedge _ _)) (fun h => absurd h (hedge _ _))
  exact (ends_ne_nil_iff hq.proper next.prev next.rest).mpr ⟨w, s, hrest, hmatch⟩ hnone

/-- A match of the expression ends at the beginning or the end of a word. -/
def FencedRight (word : Char → Bool) (r : Regex) : Prop :=
  ∀ c, ∀ next ∈ r.ends c, Edge word next.prev next.rest

/-- After a match that ends at a boundary a word begins only where it began before. -/
theorem Seals.covers_of_fencedRight (hq : Seals word star repl q) (hr : r.FencedRight word) :
    Covers star r q := by
  intro c next more hends hnone
  by_contra hcovered
  have hedge := hr c next (hends ▸ List.mem_cons_self)
  obtain ⟨w, s, hrest, hw⟩ := (ends_ne_nil_iff hq.proper _ _).mp hcovered
  have hmatch : q.Matches next.prev w s := by
    apply hw.transfer hq.boundaries
    · intro _
      rw [← hrest]
      exact hedge
    · intro hright
      rw [past_eq_of_ne_nil next.prev (some star) (hq.ne_nil hw)]
      exact hright
  exact (ends_ne_nil_iff hq.proper next.prev next.rest).mpr ⟨w, s, hrest, hmatch⟩ hnone

/-- The first way of the expression stops before a character of the class only at the end. -/
def StopsBefore (p : Char → Bool) (r : Regex) : Prop :=
  ∀ c next more, r.ends c = next :: more → next.rest.head?.any p = false

/-- The first character that the expression reads is in the class. -/
def StartsIn (p : Char → Bool) (r : Regex) : Prop := ∀ c, r.ends c ≠ [] → c.rest.head?.any p = true

theorem head?_any_of_edge {c : Cursor} (hnonword : word star = false)
    (h : Edge word (some star) c.rest) : c.rest.head?.any word = true := by
  by_contra hhead
  apply h
  rw [Option.any_some, hnonword]
  exact (eq_false_of_ne_true hhead).symm

/-- After a match that stops before a class nothing is uncovered that begins with a word and in the
class. -/
theorem Seals.covers_of_stopsBefore {p p' : Char → Bool} (hq : Seals word star repl q)
    (hstops : r.StopsBefore p) (hstarts : q.StartsIn p') (hfence : q.Fenced word)
    (hclass : ∀ x, p' x = true → word x = true → p x = true) : Covers star r q := by
  intro c next more hends _
  by_contra hcovered
  have hin := hstarts _ hcovered
  have hword := head?_any_of_edge hq.nonword (hfence _ hcovered)
  have hstop := hstops c next more hends
  cases hhead : next.rest.head? with
  | none => simp [hhead] at hin
  | some x =>
      rw [hhead, Option.any_some] at hin hword hstop
      rw [hclass x hin hword] at hstop
      contradiction

end Texts

/-! ### Edges of expressions -/

section Edges

variable {word p : Char → Bool} {r s : Regex}

theorem fenced_seq (word : Char → Bool) (r : Regex) : (seq (boundary word) r).Fenced word := by
  intro c hends hedge
  apply hends
  simp only [ends, if_pos hedge, List.flatMap_nil]

theorem fencedRight_boundary (word : Char → Bool) : (boundary word).FencedRight word := by
  intro c next hmem
  simp only [ends] at hmem
  split at hmem
  · exact absurd hmem List.not_mem_nil
  · rename_i hedge
    obtain rfl := List.mem_singleton.mp hmem
    exact hedge

theorem FencedRight.seq (r : Regex) (hs : s.FencedRight word) : (seq r s).FencedRight word := by
  intro c next hmem
  obtain ⟨c₁, -, hc₁⟩ := List.mem_flatMap.mp hmem
  exact hs c₁ next hc₁

/-- The first way through two steps ends with the first way of the second one from somewhere. -/
theorem exists_of_flatMap_eq_cons {f : Cursor → List Cursor} {l more : List Cursor} {next : Cursor}
    (h : l.flatMap f = next :: more) : ∃ c ∈ l, ∃ more', f c = next :: more' := by
  induction l with
  | nil => exact absurd h (by simp)
  | cons c l ih =>
      rw [List.flatMap_cons] at h
      cases hc : f c with
      | nil =>
          rw [hc, List.nil_append] at h
          obtain ⟨c', hmem, hc'⟩ := ih h
          exact ⟨c', List.mem_cons_of_mem _ hmem, hc'⟩
      | cons first more' =>
          rw [hc, List.cons_append] at h
          injection h with hfirst _
          exact ⟨c, List.mem_cons_self, more', by rw [hc, hfirst]⟩

theorem StopsBefore.seq (r : Regex) (hs : s.StopsBefore p) : (seq r s).StopsBefore p := by
  intro c next more hends
  obtain ⟨c₁, -, more', hc₁⟩ := exists_of_flatMap_eq_cons hends
  exact hs c₁ next more' hc₁

theorem optional_stopsBefore (n : Nat) (c next : Cursor) (more : List Cursor)
    (hn : c.rest.length ≤ n) (h : optional (char p).ends true n c = next :: more) :
    next.rest.head?.any p = false := by
  induction n generalizing c more with
  | zero =>
      have hnil : c.rest = [] := List.eq_nil_of_length_eq_zero (Nat.le_zero.mp hn)
      obtain rfl : c = next := (List.cons.inj h).1
      rw [hnil]
      rfl
  | succ n ih =>
      obtain ⟨prev, rest⟩ := c
      have hstay (hnone : (char p).ends ⟨prev, rest⟩ = []) : (⟨prev, rest⟩ : Cursor) = next := by
        simp only [optional, hnone, List.flatMap_nil, List.nil_append] at h
        exact (List.cons.inj h).1
      cases rest with
      | nil =>
          obtain rfl := hstay rfl
          rfl
      | cons x rest =>
          by_cases hx : p x = true
          · have hstep : (char p).ends ⟨prev, x :: rest⟩ = [⟨some x, rest⟩] := if_pos hx
            simp only [optional, hstep, List.flatMap_cons, List.flatMap_nil, List.append_nil] at h
            cases hfurther : optional (char p).ends true n ⟨some x, rest⟩ with
            | nil =>
                have hself : (⟨some x, rest⟩ : Cursor) ∈ optional (char p).ends true n ⟨some x, rest⟩ :=
                  (mem_optional_iff true n _ _).mpr ⟨0, Nat.zero_le n, List.mem_singleton_self _⟩
                rw [hfurther] at hself
                contradiction
            | cons first more' =>
                simp only [hfurther, if_true, List.cons_append] at h
                obtain rfl := (List.cons.inj h).1
                exact ih ⟨some x, rest⟩ more' (Nat.le_of_succ_le_succ hn) hfurther
          · obtain rfl := hstay (if_neg hx)
            simpa using hx

theorem stopsBefore_rep (p : Char → Bool) (min : Nat) : (rep (char p) min none true).StopsBefore p := by
  intro c next more hends
  obtain ⟨c₁, -, more', hc₁⟩ := exists_of_flatMap_eq_cons hends
  exact optional_stopsBefore _ c₁ next more' (Nat.le_refl _) hc₁

theorem startsIn_char (p : Char → Bool) : (char p).StartsIn p := by
  intro c hends
  obtain ⟨prev, rest⟩ := c
  cases rest with
  | nil => exact absurd rfl hends
  | cons x rest =>
      by_contra hx
      exact hends (if_neg hx)

theorem StartsIn.seq (hr : r.StartsIn p) (s : Regex) : (seq r s).StartsIn p := by
  intro c hends
  apply hr
  intro hnone
  exact hends (by simp only [ends, hnone, List.flatMap_nil])

theorem StartsIn.rep (hr : r.StartsIn p) (min : Nat) (max : Option Nat) (greedy : Bool) :
    (rep r (min + 1) max greedy).StartsIn p := by
  intro c hends
  apply hr
  intro hnone
  exact hends (by simp only [ends, required, hnone, List.flatMap_nil])

theorem StartsIn.after_boundary (hs : s.StartsIn p) (word : Char → Bool) :
    (Regex.seq (boundary word) s).StartsIn p := by
  intro c hends
  apply hs
  intro hnone
  apply hends
  simp only [ends]
  split <;> simp [hnone]

end Edges

/-! ### Literals -/

theorem proper_literal (test : Char → Char → Bool) (text : List Char) : (literal test text).Proper := by
  induction text with
  | nil => trivial
  | cons x text ih => exact ⟨trivial, ih⟩

theorem boundariesOn_literal (word : Char → Bool) (test : Char → Char → Bool) (text : List Char) :
    (literal test text).BoundariesOn word := by
  induction text with
  | nil => trivial
  | cons x text ih => exact ⟨trivial, ih⟩

theorem within_literal {p : Char → Bool} {test : Char → Char → Bool} {text : List Char}
    (h : ∀ x ∈ text, ∀ c, test x c = true → p c = true) : (literal test text).Within p := by
  induction text with
  | nil => trivial
  | cons x text ih =>
      constructor
      · exact h x List.mem_cons_self
      · apply ih
        intro y hy
        exact h y (List.mem_cons_of_mem _ hy)

/-! ### Loops whose body does not see its context -/

theorem passes_iff {m : Option Char → List Char → List Char → Prop} {P : List Char → Prop}
    (hm : ∀ prev v rest, m prev v rest ↔ P v) (k : Nat) (prev : Option Char) (w rest : List Char) :
    Passes m k prev w rest ↔ ∃ words : List (List Char), words.length = k ∧ words.flatten = w ∧
      ∀ v ∈ words, P v := by
  induction k generalizing prev w with
  | zero =>
      constructor
      · rintro rfl
        exact ⟨[], rfl, rfl, fun _ hmem => absurd hmem List.not_mem_nil⟩
      · rintro ⟨words, hlength, rfl, -⟩
        obtain rfl := List.eq_nil_of_length_eq_zero hlength
        rfl
  | succ k ih =>
      constructor
      · rintro ⟨v, v', rfl, hv, hv'⟩
        obtain ⟨words, hlength, rfl, hwords⟩ := (ih _ _).mp hv'
        refine ⟨v :: words, by rw [List.length_cons, hlength], by rw [List.flatten_cons], ?_⟩
        intro u hu
        rcases List.mem_cons.mp hu with rfl | hu
        · exact (hm _ _ _).mp hv
        · exact hwords u hu
      · rintro ⟨words, hlength, rfl, hwords⟩
        cases words with
        | nil => exact absurd hlength (by simp)
        | cons v words =>
            refine ⟨v, words.flatten, List.flatten_cons, ?_, ?_⟩
            · exact (hm _ _ _).mpr (hwords v List.mem_cons_self)
            · apply (ih _ _).mpr
              exact ⟨words, Nat.succ.inj hlength, rfl, fun u hu => hwords u (List.mem_cons_of_mem _ hu)⟩

theorem matches_rep_char_iff {p : Char → Bool} {greedy : Bool} {prev : Option Char} {w rest : List Char} :
    (rep (char p) 0 none greedy).Matches prev w rest ↔ ∀ x ∈ w, p x = true := by
  have hbody : ∀ prev v rest, (char p).Matches prev v rest ↔ ∃ x, v = [x] ∧ p x = true :=
    fun _ _ _ => Iff.rfl
  constructor
  · intro h
    have hwithin : (rep (char p) 0 none greedy).Within p := fun _ hx => hx
    exact h.forall hwithin
  · intro h
    refine ⟨w.length, fun m hmax => absurd hmax (Option.not_mem_none m), ?_⟩
    rw [Nat.zero_add, passes_iff hbody]
    refine ⟨w.map fun x => [x], List.length_map _, ?_, ?_⟩
    · induction w with
      | nil => rfl
      | cons x w ih =>
          have hlater := ih fun y hy => h y (List.mem_cons_of_mem _ hy)
          rw [List.map_cons, List.flatten_cons, hlater, List.singleton_append]
    intro v hv
    obtain ⟨x, hx, rfl⟩ := List.mem_map.mp hv
    exact ⟨x, rfl, h x hx⟩

end Regex
