import Bass.Interaction.Wp

/-!
# Interleaved programs

Any number of programs over one shared state, each making one call at a time. A program may be
started at any moment, may be abandoned between any two of its calls (a crash), and the environment
may move in between. `Pool.Discipline` is the rely-guarantee argument: what each program guarantees
is within what every other one relies on.
-/

namespace Interaction

/-- The programs in flight, each with the request that started it, and the state they share. -/
structure Pool (Tag O : Type) (R : O → Type) (σ : Type) where
  threads : List (Tag × Prog O R Unit)
  shared : σ

namespace Pool

variable {Tag O : Type} {R : O → Type} {σ : Type}

inductive Label (Tag O : Type) (R : O → Type) where
  | call (thread : Nat) (op : O) (answer : R op)
  | spawn (tag : Tag)
  | crash (thread : Nat)
  | env

variable (step : σ → (op : O) → R op → σ → Prop) (start : Tag → Prog O R Unit)
  (env : σ → σ → Prop)

inductive Step : Pool Tag O R σ → Label Tag O R → Pool Tag O R σ → Prop where
  | call {threads : List (Tag × Prog O R Unit)} {s s' : σ} {i : Nat} {tag : Tag} {op : O}
      {next : R op → Prog O R Unit} {answer : R op}
      (hthread : threads[i]? = some (tag, .call op next)) (hstep : step s op answer s') :
      Step ⟨threads, s⟩ (.call i op answer) ⟨threads.set i (tag, next answer), s'⟩
  | spawn (threads : List (Tag × Prog O R Unit)) (s : σ) (tag : Tag) :
      Step ⟨threads, s⟩ (.spawn tag) ⟨threads ++ [(tag, start tag)], s⟩
  | crash {threads : List (Tag × Prog O R Unit)} {s : σ} {i : Nat} {tag : Tag}
      {p : Prog O R Unit} (hthread : threads[i]? = some (tag, p)) :
      Step ⟨threads, s⟩ (.crash i) ⟨threads.set i (tag, .pure ()), s⟩
  | env {threads : List (Tag × Prog O R Unit)} {s s' : σ} (henv : env s s') :
      Step ⟨threads, s⟩ .env ⟨threads, s'⟩

/-- Finite interleavings, with what happened at each step. -/
inductive Run : Pool Tag O R σ → List (Label Tag O R) → Pool Tag O R σ → Prop where
  | nil (c : Pool Tag O R σ) : Run c [] c
  | cons {c c₁ c' : Pool Tag O R σ} {label : Label Tag O R} {labels : List (Label Tag O R)}
      (head : Step step start env c label c₁) (tail : Run c₁ labels c') :
      Run c (label :: labels) c'

variable {step start env}

theorem Run.single {c c' : Pool Tag O R σ} {label : Label Tag O R}
    (h : Step step start env c label c') : Run step start env c [label] c' :=
  .cons h (.nil c')

theorem Run.append {c c₁ c' : Pool Tag O R σ} {l l' : List (Label Tag O R)}
    (h : Run step start env c l c₁) (h' : Run step start env c₁ l' c') :
    Run step start env c (l ++ l') c' := by
  induction h with
  | nil c => exact h'
  | cons head _ ih => exact .cons head (ih h')

theorem Run.split {c c' : Pool Tag O R σ} {l l' : List (Label Tag O R)}
    (h : Run step start env c (l ++ l') c') :
    ∃ c₁, Run step start env c l c₁ ∧ Run step start env c₁ l' c' := by
  induction l generalizing c with
  | nil => exact ⟨c, .nil c, h⟩
  | cons label l ih =>
      cases h with
      | cons head tail =>
          obtain ⟨c₁, h₁, h₂⟩ := ih tail
          exact ⟨c₁, .cons head h₁, h₂⟩

/-- A run all of whose steps are steps of another system is a run of that system. -/
theorem Run.mono {step' : σ → (op : O) → R op → σ → Prop} {env' : σ → σ → Prop} {c c' : Pool Tag O R σ}
    {labels : List (Label Tag O R)} (h : Run step start env c labels c')
    (hstep : ∀ i op answer s s', .call i op answer ∈ labels → step s op answer s' → step' s op answer s')
    (henv : ∀ s s', env s s' → env' s s') : Run step' start env' c labels c' := by
  induction h with
  | nil c => exact .nil c
  | cons head _ ih =>
      refine .cons ?_ (ih fun i op answer s s' hmem => hstep i op answer s s' (List.mem_cons_of_mem _ hmem))
      cases head with
      | call hthread hcall => exact .call hthread (hstep _ _ _ _ _ List.mem_cons_self hcall)
      | spawn threads s tag => exact .spawn threads s tag
      | crash hthread => exact .crash hthread
      | env h => exact .env (henv _ _ h)

/-- Everything but a step of the environment. -/
def Label.isMove : Label Tag O R → Bool
  | .env => false
  | _ => true

/-- Where one system answers every call as the other does, and what the environment changes is not seen in it, the
runs of the other are its runs without the environment. -/
theorem Run.without_env {τ : Type} {step' : τ → (op : O) → R op → τ → Prop} {env' : τ → τ → Prop}
    {rel : τ → σ → Prop}
    (hstep : ∀ t s op answer s', rel t s → step s op answer s' → ∃ t', step' t op answer t' ∧ rel t' s')
    (henv : ∀ t s s', rel t s → env s s' → rel t s') {c c' : Pool Tag O R σ} {labels : List (Label Tag O R)}
    (h : Run step start env c labels c') {t : τ} (hrel : rel t c.shared) :
    ∃ t', Run step' start env' ⟨c.threads, t⟩ (labels.filter Label.isMove) ⟨c'.threads, t'⟩ ∧ rel t' c'.shared := by
  induction h generalizing t with
  | nil c => exact ⟨t, .nil _, hrel⟩
  | cons head _ ih =>
      cases head with
      | call hthread hcall =>
          obtain ⟨t₁, hcall', hrel₁⟩ := hstep _ _ _ _ _ hrel hcall
          obtain ⟨t', hrest, hrel'⟩ := ih hrel₁
          exact ⟨t', .cons (.call hthread hcall') hrest, hrel'⟩
      | spawn threads s tag =>
          obtain ⟨t', hrest, hrel'⟩ := ih hrel
          exact ⟨t', .cons (.spawn threads t tag) hrest, hrel'⟩
      | crash hthread =>
          obtain ⟨t', hrest, hrel'⟩ := ih hrel
          exact ⟨t', .cons (.crash hthread) hrest, hrel'⟩
      | env hmove => exact ih (henv _ _ _ hrel hmove)

/-! ### Playing a schedule

Against an environment that computes its answers a schedule determines the run. -/

inductive Move (Tag : Type) where
  | spawn (tag : Tag)
  | call (thread : Nat)
  | crash (thread : Nat)

section Play

variable (serve : σ → (op : O) → R op × σ) (start : Tag → Prog O R Unit)

/-- Play a schedule; a move that is not possible is skipped. -/
def play : List (Move Tag) → Pool Tag O R σ → List (Label Tag O R) × Pool Tag O R σ
  | [], c => ([], c)
  | .spawn tag :: moves, c =>
      let out := play moves ⟨c.threads ++ [(tag, start tag)], c.shared⟩
      (.spawn tag :: out.1, out.2)
  | .call i :: moves, c =>
      match c.threads[i]? with
      | some (tag, .call op next) =>
          let answer := serve c.shared op
          let out := play moves ⟨c.threads.set i (tag, next answer.1), answer.2⟩
          (.call i op answer.1 :: out.1, out.2)
      | _ => play moves c
  | .crash i :: moves, c =>
      match c.threads[i]? with
      | some (tag, _) =>
          let out := play moves ⟨c.threads.set i (tag, .pure ()), c.shared⟩
          (.crash i :: out.1, out.2)
      | none => play moves c

variable {serve start}

theorem play_run {step : σ → (op : O) → R op → σ → Prop} {env : σ → σ → Prop}
    (hserve : ∀ s op, step s op (serve s op).1 (serve s op).2) (moves : List (Move Tag))
    (c : Pool Tag O R σ) :
    Run step start env c (play serve start moves c).1 (play serve start moves c).2 := by
  induction moves generalizing c with
  | nil => exact .nil c
  | cons move moves ih =>
      cases move with
      | spawn tag => exact .cons (.spawn c.threads c.shared tag) (ih _)
      | call i =>
          unfold play
          split
          · rename_i tag op next hthread
            exact .cons (.call hthread (hserve c.shared op)) (ih _)
          · exact ih c
      | crash i =>
          unfold play
          split
          · rename_i tag p hthread
            exact .cons (.crash hthread) (ih _)
          · exact ih c

/-- The request a move starts. -/
def Move.tag? : Move Tag → Option Tag
  | .spawn tag => some tag
  | _ => none

theorem map_fst_set {threads : List (Tag × Prog O R Unit)} {i : Nat} {tag : Tag}
    {p : Prog O R Unit} (hthread : threads[i]? = some (tag, p)) (q : Prog O R Unit) :
    (threads.set i (tag, q)).map Prod.fst = threads.map Prod.fst := by
  obtain ⟨hlt, hget⟩ := List.getElem?_eq_some_iff.mp hthread
  have hself : (threads.map Prod.fst).get ⟨i, by simpa using hlt⟩ = tag := by
    rw [List.get_eq_getElem, List.getElem_map, hget]
  rw [List.map_set, ← hself, List.get_eq_getElem, List.set_getElem_self]

/-- A schedule starts the requests it names, in order, and no others. -/
theorem play_tags (moves : List (Move Tag)) (c : Pool Tag O R σ) :
    (play serve start moves c).2.threads.map Prod.fst =
      c.threads.map Prod.fst ++ moves.filterMap Move.tag? := by
  induction moves generalizing c with
  | nil => simp [play]
  | cons move moves ih =>
      cases move with
      | spawn tag =>
          rw [play, ih]
          simp [Move.tag?]
      | call i =>
          unfold play
          split
          · rename_i tag op next hthread
            rw [ih, map_fst_set hthread]
            rfl
          · exact ih c
      | crash i =>
          unfold play
          split
          · rename_i tag p hthread
            rw [ih, map_fst_set hthread]
            rfl
          · exact ih c

end Play

/-- The rely-guarantee conditions: `Inv` is the global invariant and `S i tag` the specification that
the thread at position `i`, started by the request `tag`, is written against. They are only asked of
calls that satisfy `ok`, for statements about the runs all of whose calls do. -/
structure Discipline (step : σ → (op : O) → R op → σ → Prop) (start : Tag → Prog O R Unit)
    (env : σ → σ → Prop) (ok : Nat → (op : O) → R op → Prop) (Inv : σ → Prop)
    (S : Nat → Tag → Spec O R σ) : Prop where
  allowed : ∀ i tag s op answer s', Inv s → ok i op answer → step s op answer s' →
    (S i tag).step s op answer s'
  refl : ∀ i tag s, Inv s → (S i tag).rely s s
  trans : ∀ i tag s s₁ s₂, (S i tag).rely s s₁ → (S i tag).rely s₁ s₂ → (S i tag).rely s s₂
  call : ∀ i tag s op answer s', Inv s → (S i tag).guar s op → ok i op answer →
    step s op answer s' → Inv s' ∧ ∀ j other, (S j other).rely s s'
  env : ∀ s s', Inv s → env s s' → Inv s' ∧ ∀ i tag, (S i tag).rely s s'
  start : ∀ i tag s, Inv s → (start tag).wp (S i tag) (fun _ _ => True) s

/-- Every program in flight still satisfies its specification. -/
structure Good (Inv : σ → Prop) (S : Nat → Tag → Spec O R σ) (c : Pool Tag O R σ) : Prop where
  inv : Inv c.shared
  threads : ∀ (i : Nat) (t : Tag × Prog O R Unit), c.threads[i]? = some t →
    t.2.wp (S i t.1) (fun _ _ => True) c.shared

variable {ok : Nat → (op : O) → R op → Prop} {Inv : σ → Prop} {S : Nat → Tag → Spec O R σ}

theorem Good.empty {s : σ} (h : Inv s) : Good Inv S ⟨[], s⟩ :=
  ⟨h, fun _ _ ht => by simp at ht⟩

private theorem wp_relied (hd : Discipline step start env ok Inv S) {i : Nat} {tag : Tag}
    {p : Prog O R Unit} {s s' : σ} (hp : p.wp (S i tag) (fun _ _ => True) s)
    (hrely : (S i tag).rely s s') : p.wp (S i tag) (fun _ _ => True) s' :=
  Prog.wp_stable (hd.trans i tag) (fun _ _ _ _ _ => trivial) hp hrely

/-- One step of an interleaving keeps every program good, and a call it makes is guaranteed. -/
theorem Step.good (hd : Discipline step start env ok Inv S) {c c' : Pool Tag O R σ}
    {label : Label Tag O R} (h : Step step start env c label c')
    (hok : ∀ i op answer, label = .call i op answer → ok i op answer) (hc : Good Inv S c) :
    Good Inv S c' ∧ ∀ i op answer, label = .call i op answer →
      ∃ tag, (c.threads[i]?).map Prod.fst = some tag ∧ (S i tag).guar c.shared op := by
  cases h with
  | @call threads s s' i tag op next answer hthread hstep =>
      have hcall := hok i op answer rfl
      obtain ⟨hguar, hnext⟩ := hc.threads i _ hthread s (hd.refl i tag s hc.inv)
      obtain ⟨hinv, hrely⟩ := hd.call i tag s op answer s' hc.inv hguar hcall hstep
      refine ⟨⟨hinv, fun j t ht => ?_⟩, fun j op' answer' hlabel => ?_⟩
      · by_cases hij : i = j
        · subst hij
          obtain ⟨hlt, -⟩ := List.getElem?_eq_some_iff.mp hthread
          simp only [List.getElem?_set_self hlt, Option.some.injEq] at ht
          subst ht
          exact hnext answer s' (hd.allowed i tag s op answer s' hc.inv hcall hstep)
        · rw [List.getElem?_set_ne hij] at ht
          exact wp_relied hd (hc.threads j t ht) (hrely j t.1)
      · cases hlabel
        exact ⟨tag, by simp [hthread], hguar⟩
  | spawn threads s tag =>
      refine ⟨⟨hc.inv, fun j t ht => ?_⟩, fun _ _ _ hlabel => nomatch hlabel⟩
      rw [List.getElem?_append] at ht
      split at ht
      · exact hc.threads j t ht
      · rw [List.mem_singleton.mp (List.mem_of_getElem? ht)]
        exact hd.start j tag s hc.inv
  | @crash threads s i tag p hthread =>
      refine ⟨⟨hc.inv, fun j t ht => ?_⟩, fun _ _ _ hlabel => nomatch hlabel⟩
      by_cases hij : i = j
      · subst hij
        obtain ⟨hlt, -⟩ := List.getElem?_eq_some_iff.mp hthread
        simp only [List.getElem?_set_self hlt, Option.some.injEq] at ht
        subst ht
        trivial
      · rw [List.getElem?_set_ne hij] at ht
        exact hc.threads j t ht
  | @env threads s s' henv =>
      obtain ⟨hinv, hrely⟩ := hd.env s s' hc.inv henv
      exact ⟨⟨hinv, fun j t ht => wp_relied hd (hc.threads j t ht) (hrely j t.1)⟩,
        fun _ _ _ hlabel => nomatch hlabel⟩

theorem Run.good (hd : Discipline step start env ok Inv S) {c c' : Pool Tag O R σ}
    {labels : List (Label Tag O R)} (h : Run step start env c labels c')
    (hok : ∀ i op answer, .call i op answer ∈ labels → ok i op answer) (hc : Good Inv S c) :
    Good Inv S c' := by
  induction h with
  | nil c => exact hc
  | cons head _ ih =>
      have hhead : ∀ i op answer, _ = Label.call i op answer → ok i op answer :=
        fun i op answer heq => hok i op answer (heq ▸ List.mem_cons_self)
      exact ih (fun i op answer hmem => hok i op answer (List.mem_cons_of_mem _ hmem))
        (head.good hd hhead hc).1

/-- A thread keeps the request that started it. -/
theorem Step.tag {c c' : Pool Tag O R σ} {label : Label Tag O R} (h : Step step start env c label c')
    {i : Nat} {tag : Tag} (hi : (c.threads[i]?).map Prod.fst = some tag) :
    (c'.threads[i]?).map Prod.fst = some tag := by
  obtain ⟨t, ht, rfl⟩ := Option.map_eq_some_iff.mp hi
  obtain ⟨hlt, -⟩ := List.getElem?_eq_some_iff.mp ht
  cases h with
  | @call threads s s' j tag op next answer hthread hstep =>
      by_cases hij : j = i
      · subst hij
        obtain rfl := Option.some.inj (hthread.symm.trans ht)
        simp [List.getElem?_set_self hlt]
      · rw [List.getElem?_set_ne hij, ht, Option.map_some]
  | spawn threads s tag => rw [List.getElem?_append_left hlt, ht, Option.map_some]
  | @crash threads s j tag p hthread =>
      by_cases hij : j = i
      · subst hij
        obtain rfl := Option.some.inj (hthread.symm.trans ht)
        simp [List.getElem?_set_self hlt]
      · rw [List.getElem?_set_ne hij, ht, Option.map_some]
  | env henv => exact hi

theorem Run.tag {c c' : Pool Tag O R σ} {labels : List (Label Tag O R)}
    (h : Run step start env c labels c') {i : Nat} {tag : Tag}
    (hi : (c.threads[i]?).map Prod.fst = some tag) : (c'.threads[i]?).map Prod.fst = some tag := by
  induction h with
  | nil c => exact hi
  | cons head _ ih => exact ih (head.tag hi)

/-- A call of a run was answered by a step. -/
theorem Run.step_of_mem {c c' : Pool Tag O R σ} {labels : List (Label Tag O R)} (h : Run step start env c labels c')
    {i : Nat} {op : O} {answer : R op} (hmem : .call i op answer ∈ labels) : ∃ s s', step s op answer s' := by
  induction h with
  | nil c => cases hmem
  | cons head _ ih =>
      rcases List.mem_cons.mp hmem with rfl | hlater
      · cases head with
        | call hthread hstep => exact ⟨_, _, hstep⟩
      · exact ih hlater

/-- A run only depends on the programs of the requests that it starts. -/
theorem Run.restart {start' : Tag → Prog O R Unit} {c c' : Pool Tag O R σ} {labels : List (Label Tag O R)}
    (h : Run step start env c labels c') (hstart : ∀ tag ∈ c'.threads.map Prod.fst, start' tag = start tag) :
    Run step start' env c labels c' := by
  induction h with
  | nil c => exact .nil c
  | cons head tail ih =>
      refine .cons ?_ (ih hstart)
      cases head with
      | call hthread hstep => exact .call hthread hstep
      | spawn threads s tag =>
          have hspawned : ((threads ++ [(tag, start tag)])[threads.length]?).map Prod.fst = some tag := by simp
          obtain ⟨t, ht, rfl⟩ := Option.map_eq_some_iff.mp (tail.tag hspawned)
          rw [← hstart _ (List.mem_map_of_mem (List.mem_of_getElem? ht))]
          exact .spawn threads s t.1
      | crash hthread => exact .crash hthread
      | env henv => exact .env henv

/-- What every step of the pool does to the shared state, a run does. -/
theorem Run.shared {P : σ → σ → Prop} (hrefl : ∀ s, P s s) (htrans : ∀ s s₁ s', P s s₁ → P s₁ s' → P s s')
    (hstep : ∀ s op answer s', step s op answer s' → P s s') (henv : ∀ s s', env s s' → P s s')
    {c c' : Pool Tag O R σ} {labels : List (Label Tag O R)} (h : Run step start env c labels c') :
    P c.shared c'.shared := by
  induction h with
  | nil c => exact hrefl c.shared
  | cons head _ ih =>
      refine htrans _ _ _ ?_ ih
      cases head with
      | call hthread hcall => exact hstep _ _ _ _ hcall
      | spawn threads s tag => exact hrefl s
      | crash hthread => exact hrefl _
      | env h => exact henv _ _ h

/-- Every call of a run is guaranteed by its thread's specification, in the state it is made in. -/
theorem Run.guaranteed_at (hd : Discipline step start env ok Inv S) {c c' : Pool Tag O R σ}
    {before after labels : List (Label Tag O R)} {i : Nat} {op : O} {answer : R op}
    (h : Run step start env c labels c')
    (hok : ∀ i op answer, .call i op answer ∈ labels → ok i op answer) (hc : Good Inv S c)
    (hlabels : labels = before ++ .call i op answer :: after) :
    ∃ c₁ tag, Run step start env c₁ (.call i op answer :: after) c' ∧ Inv c₁.shared ∧
      (c'.threads[i]?).map Prod.fst = some tag ∧ (S i tag).guar c₁.shared op := by
  subst hlabels
  obtain ⟨c₁, hbefore, hrest⟩ := h.split
  have hgood := hbefore.good hd
    (fun i op answer hmem => hok i op answer (List.mem_append_left _ hmem)) hc
  have hlast : ∀ j op' answer', Label.call i op answer = .call j op' answer' → ok j op' answer' :=
    fun j op' answer' heq => hok j op' answer' (heq ▸ List.mem_append_right _ List.mem_cons_self)
  have hrun := hrest
  cases hrest with
  | cons head tail =>
      obtain ⟨-, hcall⟩ := head.good hd hlast hgood
      obtain ⟨tag, htag, hguar⟩ := hcall i op answer rfl
      exact ⟨c₁, tag, hrun, hgood.inv, hrun.tag htag, hguar⟩

/-- Every call of a run is guaranteed by its thread's specification, in a state satisfying the
invariant. -/
theorem Run.guaranteed (hd : Discipline step start env ok Inv S) {c c' : Pool Tag O R σ}
    {labels : List (Label Tag O R)} (h : Run step start env c labels c')
    (hok : ∀ i op answer, .call i op answer ∈ labels → ok i op answer) (hc : Good Inv S c)
    {i : Nat} {op : O} {answer : R op} (hmem : .call i op answer ∈ labels) :
    ∃ tag s, Inv s ∧ (S i tag).guar s op := by
  obtain ⟨before, after, rfl⟩ := List.append_of_mem hmem
  obtain ⟨c₁, tag, -, hinv, -, hguar⟩ := h.guaranteed_at hd hok hc rfl
  exact ⟨tag, c₁.shared, hinv, hguar⟩

end Pool

end Interaction
