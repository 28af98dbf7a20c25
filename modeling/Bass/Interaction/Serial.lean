import Bass.Interaction.Wp

/-!
# One program at a time, with restarts

At any moment at most one program is running. Starting a program abandons the one before it at the
call it had reached, so a start is also a crash of whatever had not finished. The environment may
move between two calls. A history is the list of everything that happened, and an invariant may
speak of it.
-/

namespace Interaction

structure Serial (O : Type) (R : O → Type) (σ : Type) where
  current : Prog O R Unit
  shared : σ

namespace Serial

variable {Tag O : Type} {R : O → Type} {E σ : Type}

inductive Label (Tag O : Type) (R : O → Type) (E : Type) where
  | start (tag : Tag)
  | call (op : O) (answer : R op)
  | env (event : E)

abbrev History (Tag O : Type) (R : O → Type) (E : Type) : Type := List (Label Tag O R E)

variable (step : σ → (op : O) → R op → σ → Prop) (start : Tag → Prog O R Unit)
  (env : σ → E → σ → Prop)

inductive Step : Serial O R σ → Label Tag O R E → Serial O R σ → Prop where
  | start (c : Serial O R σ) (tag : Tag) : Step c (.start tag) ⟨start tag, c.shared⟩
  | call {op : O} {next : R op → Prog O R Unit} {s s' : σ} {answer : R op}
      (hstep : step s op answer s') : Step ⟨.call op next, s⟩ (.call op answer) ⟨next answer, s'⟩
  | env {p : Prog O R Unit} {s s' : σ} {event : E} (henv : env s event s') :
      Step ⟨p, s⟩ (.env event) ⟨p, s'⟩

inductive Run : Serial O R σ → History Tag O R E → Serial O R σ → Prop where
  | nil (c : Serial O R σ) : Run c [] c
  | cons {c c₁ c' : Serial O R σ} {label : Label Tag O R E} {labels : History Tag O R E}
      (head : Step step start env c label c₁) (tail : Run c₁ labels c') :
      Run c (label :: labels) c'

/-- The calls of a run, remembered. -/
def recorded (step : σ → (op : O) → R op → σ → Prop) (x : σ × History Tag O R E) (op : O)
    (answer : R op) (y : σ × History Tag O R E) : Prop :=
  step x.1 op answer y.1 ∧ y.2 = x.2 ++ [.call op answer]

variable {step start env}

theorem Run.append {c c₁ c' : Serial O R σ} {l l' : History Tag O R E}
    (h : Run step start env c l c₁) (h' : Run step start env c₁ l' c') :
    Run step start env c (l ++ l') c' := by
  induction h with
  | nil c => exact h'
  | cons head _ ih => exact .cons head (ih h')

/-! ### Playing a schedule -/

inductive Move (Tag E : Type) where
  | start (tag : Tag)
  | call
  | env (event : E)

section Play

variable (serve : σ → (op : O) → R op × σ) (start : Tag → Prog O R Unit) (act : σ → E → σ)

/-- Play a schedule against an environment that computes its answers and its own moves; a call of a
program that has finished is skipped. -/
def play : List (Move Tag E) → Serial O R σ → History Tag O R E × Serial O R σ
  | [], c => ([], c)
  | .start tag :: moves, c =>
      let out := play moves ⟨start tag, c.shared⟩
      (.start tag :: out.1, out.2)
  | .call :: moves, c =>
      match c.current with
      | .call op next =>
          let answer := serve c.shared op
          let out := play moves ⟨next answer.1, answer.2⟩
          (.call op answer.1 :: out.1, out.2)
      | .pure _ => play moves c
  | .env event :: moves, c =>
      let out := play moves ⟨c.current, act c.shared event⟩
      (.env event :: out.1, out.2)

variable {serve start act}

theorem play_run {step : σ → (op : O) → R op → σ → Prop} {env : σ → E → σ → Prop}
    (hserve : ∀ s op, step s op (serve s op).1 (serve s op).2)
    (moves : List (Move Tag E)) (hact : ∀ s event, .env event ∈ moves → env s event (act s event))
    (c : Serial O R σ) :
    Run step start env c (play serve start act moves c).1 (play serve start act moves c).2 := by
  induction moves generalizing c with
  | nil => exact .nil c
  | cons move moves ih =>
      have hrest := ih fun s event hmem => hact s event (List.mem_cons_of_mem _ hmem)
      cases move with
      | start tag => exact .cons (.start c tag) (hrest _)
      | call =>
          obtain ⟨current, s⟩ := c
          cases current with
          | call op next => exact .cons (.call (hserve s op)) (hrest _)
          | pure value => exact hrest _
      | env event => exact .cons (.env (hact c.shared event List.mem_cons_self)) (hrest _)

/-- The answers of a played schedule are those that were computed. -/
theorem answer_of_mem_play {moves : List (Move Tag E)} {c : Serial O R σ} {op : O} {answer : R op}
    (hmem : .call op answer ∈ (play serve start act moves c).1) :
    ∃ s, answer = (serve s op).1 := by
  induction moves generalizing c with
  | nil => exact absurd hmem List.not_mem_nil
  | cons move moves ih =>
      cases move with
      | start tag =>
          rcases List.mem_cons.mp hmem with heq | hrest
          · cases heq
          · exact ih hrest
      | call =>
          obtain ⟨current, s⟩ := c
          cases current with
          | call op next =>
              rcases List.mem_cons.mp hmem with heq | hrest
              · cases heq
                exact ⟨s, rfl⟩
              · exact ih hrest
          | pure value => exact ih hmem
      | env event =>
          rcases List.mem_cons.mp hmem with heq | hrest
          · cases heq
          · exact ih hrest

/-- A played schedule starts what the schedule starts. -/
theorem start_of_mem_play {moves : List (Move Tag E)} {c : Serial O R σ} {tag : Tag}
    (hmem : .start tag ∈ (play serve start act moves c).1) : .start tag ∈ moves := by
  induction moves generalizing c with
  | nil => exact absurd hmem List.not_mem_nil
  | cons move moves ih =>
      cases move with
      | start tag' =>
          rcases List.mem_cons.mp hmem with heq | hrest
          · cases heq
            exact List.mem_cons_self
          · exact List.mem_cons_of_mem _ (ih hrest)
      | call =>
          obtain ⟨current, s⟩ := c
          cases current with
          | call op next =>
              rcases List.mem_cons.mp hmem with heq | hrest
              · cases heq
              · exact List.mem_cons_of_mem _ (ih hrest)
          | pure value => exact List.mem_cons_of_mem _ (ih hmem)
      | env event =>
          rcases List.mem_cons.mp hmem with heq | hrest
          · cases heq
          · exact List.mem_cons_of_mem _ (ih hrest)

end Play

/-- Invariant `Inv` over the state and the history, specification `S` for every program that is
started, and `Q` what holds when one has finished. They are only asked of labels that `ok` permits
after the history so far, for statements about the runs all of whose labels are permitted. -/
structure Discipline (step : σ → (op : O) → R op → σ → Prop) (start : Tag → Prog O R Unit)
    (env : σ → E → σ → Prop) (ok : History Tag O R E → Label Tag O R E → Prop)
    (Inv : σ × History Tag O R E → Prop) (S : Spec O R (σ × History Tag O R E))
    (Q : σ × History Tag O R E → Prop) : Prop where
  allowed : ∀ x op answer y, Inv x → Inv y → ok x.2 (.call op answer) →
    recorded step x op answer y → S.step x op answer y
  refl : ∀ x, Inv x → S.rely x x
  trans : ∀ x y z, S.rely x y → S.rely y z → S.rely x z
  stable : ∀ x y, Q x → S.rely x y → Q y
  call : ∀ x op answer y, Inv x → S.guar x op → ok x.2 (.call op answer) →
    recorded step x op answer y → Inv y
  env : ∀ s h event s', Inv (s, h) → ok h (.env event) → env s event s' →
    Inv (s', h ++ [.env event]) ∧ S.rely (s, h) (s', h ++ [.env event])
  start : ∀ s h tag, Inv (s, h) → ok h (.start tag) →
    Inv (s, h ++ [.start tag]) ∧ (start tag).wp S (fun _ => Q) (s, h ++ [.start tag])

/-- Every label is permitted after the history before it. -/
def Permitted (ok : History Tag O R E → Label Tag O R E → Prop) (h labels : History Tag O R E) :
    Prop :=
  ∀ before label after, labels = before ++ label :: after → ok (h ++ before) label

structure Good (Inv : σ × History Tag O R E → Prop) (S : Spec O R (σ × History Tag O R E))
    (Q : σ × History Tag O R E → Prop) (c : Serial O R σ) (h : History Tag O R E) : Prop where
  inv : Inv (c.shared, h)
  current : c.current.wp S (fun _ => Q) (c.shared, h)

variable {ok : History Tag O R E → Label Tag O R E → Prop} {Inv : σ × History Tag O R E → Prop}
  {S : Spec O R (σ × History Tag O R E)} {Q : σ × History Tag O R E → Prop}

theorem Permitted.head {h labels : History Tag O R E} {label : Label Tag O R E}
    (hok : Permitted ok h (label :: labels)) : ok h label := by
  have := hok [] label labels rfl
  rwa [List.append_nil] at this

theorem Permitted.tail {h labels : History Tag O R E} {label : Label Tag O R E}
    (hok : Permitted ok h (label :: labels)) : Permitted ok (h ++ [label]) labels := by
  intro before next after heq
  have := hok (label :: before) next after (by rw [heq]; rfl)
  rwa [List.append_assoc]

theorem permitted_nil {h : History Tag O R E} : Permitted ok h [] :=
  fun before label after heq => by simp at heq

theorem permitted_cons {h labels : History Tag O R E} {label : Label Tag O R E} :
    Permitted ok h (label :: labels) ↔ ok h label ∧ Permitted ok (h ++ [label]) labels := by
  constructor
  · intro hok
    exact ⟨hok.head, hok.tail⟩
  · rintro ⟨hhead, htail⟩ before next after heq
    cases before with
    | nil =>
        obtain ⟨rfl, rfl⟩ := List.cons.inj heq
        rwa [List.append_nil]
    | cons first before =>
        obtain ⟨rfl, rfl⟩ := List.cons.inj heq
        have := htail before next after rfl
        rwa [List.append_assoc] at this

instance decidablePermitted (ok : History Tag O R E → Label Tag O R E → Prop)
    [∀ h label, Decidable (ok h label)] : (h labels : History Tag O R E) →
      Decidable (Permitted ok h labels)
  | _, [] => .isTrue permitted_nil
  | h, label :: labels =>
      have := decidablePermitted ok (h ++ [label]) labels
      decidable_of_iff _ permitted_cons.symm

theorem Permitted.left {h labels labels' : History Tag O R E}
    (hok : Permitted ok h (labels ++ labels')) : Permitted ok h labels := by
  intro before label after heq
  exact hok before label (after ++ labels') (by rw [heq, List.append_assoc, List.cons_append])

/-- No program is running and nothing is known but the invariant. -/
theorem Good.idle {s : σ} {h : History Tag O R E} (hinv : Inv (s, h)) (hQ : Q (s, h)) :
    Good Inv S Q ⟨.pure (), s⟩ h :=
  ⟨hinv, hQ⟩

/-- A further invariant that calls, the environment and starts keep, given the first one. -/
theorem Discipline.strengthen {ok' : History Tag O R E → Label Tag O R E → Prop}
    {W : σ × History Tag O R E → Prop} (hd : Discipline step start env ok Inv S Q)
    (hok : ∀ h label, ok' h label → ok h label)
    (hcall : ∀ x op answer y, Inv x → W x → S.guar x op → ok' x.2 (.call op answer) →
      recorded step x op answer y → W y)
    (henv : ∀ s h event s', Inv (s, h) → W (s, h) → env s event s' → W (s', h ++ [.env event]))
    (hstart : ∀ s h tag, W (s, h) → W (s, h ++ [.start tag])) :
    Discipline step start env ok' (fun x => Inv x ∧ W x) S Q where
  allowed := fun x op answer y hx hy hlabel hrec =>
    hd.allowed x op answer y hx.1 hy.1 (hok _ _ hlabel) hrec
  refl := fun x hx => hd.refl x hx.1
  trans := hd.trans
  stable := hd.stable
  call := fun x op answer y hx hguar hlabel hrec =>
    ⟨hd.call x op answer y hx.1 hguar (hok _ _ hlabel) hrec,
      hcall x op answer y hx.1 hx.2 hguar hlabel hrec⟩
  env := by
    intro s h event s' hx hlabel hs
    obtain ⟨hinv, hrely⟩ := hd.env s h event s' hx.1 (hok _ _ hlabel) hs
    exact ⟨⟨hinv, henv s h event s' hx.1 hx.2 hs⟩, hrely⟩
  start := by
    intro s h tag hx hlabel
    obtain ⟨hinv, hwp⟩ := hd.start s h tag hx.1 (hok _ _ hlabel)
    exact ⟨⟨hinv, hstart s h tag hx.2⟩, hwp⟩

theorem Step.good (hd : Discipline step start env ok Inv S Q) {c c' : Serial O R σ}
    {label : Label Tag O R E} {h : History Tag O R E} (hstep : Step step start env c label c')
    (hok : ok h label) (hc : Good Inv S Q c h) : Good Inv S Q c' (h ++ [label]) := by
  cases hstep with
  | start c tag =>
      obtain ⟨hinv, hwp⟩ := hd.start c.shared h tag hc.inv hok
      exact ⟨hinv, hwp⟩
  | @call op next s s' answer hcall =>
      obtain ⟨hguar, hnext⟩ := hc.current (s, h) (hd.refl _ hc.inv)
      have hrec : recorded step (s, h) op answer (s', h ++ [.call op answer]) := ⟨hcall, rfl⟩
      have hinv := hd.call _ op answer _ hc.inv hguar hok hrec
      exact ⟨hinv, hnext answer _ (hd.allowed _ op answer _ hc.inv hinv hok hrec)⟩
  | @env p s s' event henv =>
      obtain ⟨hinv, hrely⟩ := hd.env s h event s' hc.inv hok henv
      exact ⟨hinv, Prog.wp_stable hd.trans (fun _ => hd.stable) hc.current hrely⟩

/-- What one step preserves, a whole run preserves, together with the history it adds. -/
theorem Run.good (hd : Discipline step start env ok Inv S Q) {c c' : Serial O R σ}
    {labels h : History Tag O R E} (hrun : Run step start env c labels c')
    (hok : Permitted ok h labels) (hc : Good Inv S Q c h) : Good Inv S Q c' (h ++ labels) := by
  induction hrun generalizing h with
  | nil c => simpa using hc
  | cons head _ ih =>
      have := ih hok.tail (head.good hd hok.head hc)
      rwa [List.append_assoc] at this

theorem Run.split {c c' : Serial O R σ} {l l' : History Tag O R E}
    (h : Run step start env c (l ++ l') c') :
    ∃ c₁, Run step start env c l c₁ ∧ Run step start env c₁ l' c' := by
  induction l generalizing c with
  | nil => exact ⟨c, .nil c, h⟩
  | cons label l ih =>
      cases h with
      | cons head tail =>
          obtain ⟨c₁, h₁, h₂⟩ := ih tail
          exact ⟨c₁, .cons head h₁, h₂⟩

/-- Every call of a run is made in a state and after a history that satisfy the invariant and the
guarantee, and does there what a call does. -/
theorem Run.guaranteed (hd : Discipline step start env ok Inv S Q) {c c' : Serial O R σ}
    {before after h : History Tag O R E} {op : O} {answer : R op}
    (hrun : Run step start env c (before ++ .call op answer :: after) c')
    (hok : Permitted ok h (before ++ .call op answer :: after)) (hc : Good Inv S Q c h) :
    ∃ s s', Inv (s, h ++ before) ∧ S.guar (s, h ++ before) op ∧ step s op answer s' := by
  obtain ⟨c₁, hbefore, hrest⟩ := hrun.split
  have hgood := hbefore.good hd hok.left hc
  cases hrest with
  | cons head tail =>
      cases head with
      | @call op next s s' answer hcall =>
          exact ⟨s, s', hgood.inv, (hgood.current _ (hd.refl _ hgood.inv)).1, hcall⟩

end Serial

end Interaction
