import Bass.Interaction.Prog

/-!
# Weakest preconditions under interference

A specification says what a call may answer and do (`step`), what other parties may do to the
shared state between two calls (`rely`), and what the program owes whenever it makes a call
(`guar`). `Prog.wp` is the weakest precondition of a program for a postcondition under such a
specification; with `rely` the identity it is the sequential one.
-/

namespace Interaction

variable {O : Type} {R : O → Type} {α β σ : Type}

structure Spec (O : Type) (R : O → Type) (σ : Type) where
  step : σ → (op : O) → R op → σ → Prop
  rely : σ → σ → Prop
  guar : σ → O → Prop

/-- The sequential specification: nobody else touches the state. -/
def Spec.sequential (step : σ → (op : O) → R op → σ → Prop) (guar : σ → O → Prop) :
    Spec O R σ :=
  { step := step
    rely := Eq
    guar := guar }

/-- Anything may be answered and nothing is shared: only the calls themselves matter. -/
def Spec.calls (P : O → Prop) : Spec O R Unit :=
  { step := fun _ _ _ _ => True
    rely := fun _ _ => True
    guar := fun _ op => P op }

/-- The specification that looks at the calls `P` permits only. -/
def Spec.assuming (S : Spec O R σ) (P : O → Prop) : Spec O R σ :=
  { step := fun s op answer s' => P op ∧ S.step s op answer s'
    rely := S.rely
    guar := fun s op => P op → S.guar s op }

namespace Prog

/-- From a state satisfying `p.wp S Q`, every call `p` makes satisfies the guarantee and `p` can
only return in a state satisfying `Q`. -/
def wp (S : Spec O R σ) (Q : α → σ → Prop) : Prog O R α → σ → Prop
  | .pure value, s => Q value s
  | .call op next, s => ∀ s₁, S.rely s s₁ →
      S.guar s₁ op ∧ ∀ answer s', S.step s₁ op answer s' → (next answer).wp S Q s'

@[simp] theorem wp_pure (S : Spec O R σ) (Q : α → σ → Prop) (value : α) (s : σ) :
    (Prog.pure value).wp S Q s ↔ Q value s := Iff.rfl

theorem wp_call (S : Spec O R σ) (Q : α → σ → Prop) (op : O) (next : R op → Prog O R α) (s : σ) :
    (Prog.call op next).wp S Q s ↔ ∀ s₁, S.rely s s₁ →
      S.guar s₁ op ∧ ∀ answer s', S.step s₁ op answer s' → (next answer).wp S Q s' := Iff.rfl

theorem wp_bind (S : Spec O R σ) (Q : β → σ → Prop) (p : Prog O R α) (f : α → Prog O R β)
    (s : σ) :
    (p >>= f).wp S Q s ↔ p.wp S (fun value => (f value).wp S Q) s := by
  induction p generalizing s with
  | pure value => rfl
  | call op next ih =>
      simp only [call_bind, wp_call, ih]

theorem wp_mono {S : Spec O R σ} {Q Q' : α → σ → Prop} (h : ∀ value s, Q value s → Q' value s)
    (p : Prog O R α) {s : σ} (hp : p.wp S Q s) : p.wp S Q' s := by
  induction p generalizing s with
  | pure value => exact h value s hp
  | call op next ih =>
      intro s₁ hrely
      obtain ⟨hguar, hnext⟩ := hp s₁ hrely
      exact ⟨hguar, fun answer s' hstep => ih answer (hnext answer s' hstep)⟩

/-- What a program ensures by itself can be added to what it ensures under guarantees. -/
theorem wp_and {S : Spec O R σ} {Q Q' : α → σ → Prop} (p : Prog O R α) {s : σ}
    (hp : p.wp S Q s) (hp' : p.wp { S with guar := fun _ _ => True } Q' s) :
    p.wp S (fun value s => Q value s ∧ Q' value s) s := by
  induction p generalizing s with
  | pure value => exact ⟨hp, hp'⟩
  | call op next ih =>
      intro s₁ hrely
      obtain ⟨hguar, hnext⟩ := hp s₁ hrely
      exact ⟨hguar, fun answer s' hstep =>
        ih answer (hnext answer s' hstep) ((hp' s₁ hrely).2 answer s' hstep)⟩

/-- Nothing is owed under a specification without guarantees. -/
theorem wp_of_guar {S : Spec O R σ} (hguar : ∀ s op, S.guar s op) (p : Prog O R α) (s : σ) :
    p.wp S (fun _ _ => True) s := by
  induction p generalizing s with
  | pure value => trivial
  | call op next ih =>
      exact fun s₁ _ => ⟨hguar s₁ op, fun answer s' _ => ih answer s'⟩

/-- A specification that allows fewer answers and asks for less is satisfied more easily. -/
theorem wp_weaken {S S' : Spec O R σ} {Q : α → σ → Prop}
    (hrely : ∀ s s', S'.rely s s' → S.rely s s') (hguar : ∀ s op, S.guar s op → S'.guar s op)
    (hstep : ∀ s op answer s', S'.step s op answer s' → S.step s op answer s')
    (p : Prog O R α) {s : σ} (hp : p.wp S Q s) : p.wp S' Q s := by
  induction p generalizing s with
  | pure value => exact hp
  | call op next ih =>
      intro s₁ h₁
      obtain ⟨hg, hnext⟩ := hp s₁ (hrely s s₁ h₁)
      exact ⟨hguar s₁ op hg, fun answer s' h => ih answer (hnext answer s' (hstep s₁ op answer s' h))⟩

theorem wp_calls_mono {P P' : O → Prop} {Q : α → Unit → Prop} (h : ∀ op, P op → P' op)
    (p : Prog O R α) {s : Unit} (hp : p.wp (.calls P) Q s) : p.wp (.calls P') Q s := by
  induction p generalizing s with
  | pure value => exact hp
  | call op next ih =>
      intro s₁ hrely
      obtain ⟨hop, hrest⟩ := hp s₁ hrely
      exact ⟨h op hop, fun answer s' hs => ih answer (hrest answer s' hs)⟩

/-- A program that only makes calls a specification asks for satisfies it. -/
theorem wp_of_calls {S : Spec O R σ} {P : O → Prop} {Q : α → Prop} (hguar : ∀ s op, P op → S.guar s op)
    (p : Prog O R α) {s : σ} (hp : p.wp (.calls P) (fun value _ => Q value) ()) :
    p.wp S (fun value _ => Q value) s := by
  induction p generalizing s with
  | pure value => exact hp
  | call op next ih =>
      intro s₁ _
      obtain ⟨hop, hnext⟩ := hp () trivial
      exact ⟨hguar s₁ op hop, fun answer s' _ => ih answer (hnext answer () trivial)⟩

/-- The calls a program can make at all, among those it makes under a specification. -/
theorem wp_withCalls {S : Spec O R σ} {P : O → Prop} {Q : α → σ → Prop} {Q' : α → Unit → Prop}
    (p : Prog O R α) {s : σ} (hp : p.wp S Q s) (hcalls : p.wp (.calls P) Q' ()) :
    p.wp { S with guar := fun s op => S.guar s op ∧ P op } Q s := by
  induction p generalizing s with
  | pure value => exact hp
  | call op next ih =>
      intro s₁ hrely
      obtain ⟨hguar, hnext⟩ := hp s₁ hrely
      obtain ⟨hop, hrest⟩ := hcalls () trivial
      exact ⟨⟨hguar, hop⟩, fun answer s' hs => ih answer (hnext answer s' hs) (hrest answer () trivial)⟩

theorem wp_assuming {S : Spec O R σ} {Q : α → σ → Prop} (P : O → Prop) (p : Prog O R α) {s : σ}
    (hp : p.wp S Q s) : p.wp (S.assuming P) Q s := by
  have hrely : ∀ s s', (S.assuming P).rely s s' → S.rely s s' := fun _ _ h => h
  have hguar : ∀ s op, S.guar s op → (S.assuming P).guar s op := fun _ _ h _ => h
  have hstep : ∀ s op answer s', (S.assuming P).step s op answer s' → S.step s op answer s' :=
    fun _ _ _ _ h => h.2
  exact wp_weaken hrely hguar hstep p hp

/-- A program that only makes calls `P` permits need only be looked at on those. -/
theorem wp_of_assuming {S : Spec O R σ} {P : O → Prop} {Q : α → σ → Prop} {Q' : α → Unit → Prop}
    (p : Prog O R α) {s : σ} (hp : p.wp (S.assuming P) Q s) (hcalls : p.wp (.calls P) Q' ()) :
    p.wp S Q s := by
  induction p generalizing s with
  | pure value => exact hp
  | call op next ih =>
      intro s₁ hrely
      obtain ⟨hguar, hnext⟩ := hp s₁ hrely
      obtain ⟨hop, hrest⟩ := hcalls () trivial
      exact ⟨hguar hop, fun answer s' hs => ih answer (hnext answer s' ⟨hop, hs⟩) (hrest answer () trivial)⟩

/-- What others do does not invalidate a precondition whose postcondition they keep. -/
theorem wp_stable {S : Spec O R σ} {Q : α → σ → Prop}
    (htrans : ∀ s s₁ s₂, S.rely s s₁ → S.rely s₁ s₂ → S.rely s s₂)
    (hQ : ∀ value s s₁, Q value s → S.rely s s₁ → Q value s₁)
    {p : Prog O R α} {s s₁ : σ} (hp : p.wp S Q s) (hrely : S.rely s s₁) : p.wp S Q s₁ := by
  cases p with
  | pure value => exact hQ value s s₁ hp hrely
  | call op next => exact fun s₂ h₂ => hp s₂ (htrans s s₁ s₂ hrely h₂)

/-- A layer keeps its precondition when its calls are replaced by programs that do, under the
specification below, what the specification above says of the calls. The layer below may hold more than the
layer above sees. -/
theorem wp_interp_view {O' σ' : Type} {R' : O' → Type} {S : Spec O R σ} {S' : Spec O' R' σ'}
    {Q : α → σ → Prop} (view : σ' → σ) (f : (op : O) → Prog O' R' (R op)) (hrely : ∀ s, S.rely s s)
    (hf : ∀ op s, S.guar (view s) op → (f op).wp S' (fun answer s' => S.step (view s) op answer (view s')) s)
    (p : Prog O R α) {s : σ'} (hp : p.wp S Q (view s)) :
    (p.interp f).wp S' (fun value s' => Q value (view s')) s := by
  induction p generalizing s with
  | pure value => exact hp
  | call op next ih =>
      obtain ⟨hguar, hnext⟩ := hp (view s) (hrely (view s))
      rw [interp, wp_bind]
      exact wp_mono (fun answer s' h => ih answer (hnext answer (view s') h)) (f op) (hf op s hguar)

/-- The layers hold the same. -/
theorem wp_interp {O' : Type} {R' : O' → Type} {S : Spec O R σ} {S' : Spec O' R' σ}
    {Q : α → σ → Prop} (f : (op : O) → Prog O' R' (R op)) (hrely : ∀ s, S.rely s s)
    (hf : ∀ op s, S.guar s op → (f op).wp S' (fun answer s' => S.step s op answer s') s)
    (p : Prog O R α) {s : σ} (hp : p.wp S Q s) : (p.interp f).wp S' Q s :=
  wp_interp_view id f hrely hf p hp

/-- A program that is run against two environments at once, with a specification that keeps up with
both: as long as every call it owes is answered alike and keeps the relation, it does and returns the
same in both. -/
theorem complete_follow {τ : Type} {S : Spec O R τ} {Q : α → τ → Prop}
    {serve : σ → (op : O) → R op × σ} {rel : τ → σ → σ → Prop} (hrely : ∀ t, S.rely t t)
    (hserve : ∀ t s s' op, rel t s s' → S.guar t op → (serve s op).1 = (serve s' op).1 ∧
      ∃ t', S.step t op (serve s op).1 t' ∧ rel t' (serve s op).2 (serve s' op).2)
    (p : Prog O R α) {t : τ} (hp : p.wp S Q t) {s s' : σ} (h : rel t s s') :
    (p.complete serve s).1 = (p.complete serve s').1 ∧
      (p.complete serve s).2.1 = (p.complete serve s').2.1 ∧
      ∃ t', Q (p.complete serve s).2.1 t' ∧ rel t' (p.complete serve s).2.2 (p.complete serve s').2.2 := by
  induction p generalizing t s s' with
  | pure value => exact ⟨rfl, rfl, t, hp, h⟩
  | call op next ih =>
      obtain ⟨hguar, hnext⟩ := hp t (hrely t)
      obtain ⟨hanswer, t', hstep, hrel⟩ := hserve t s s' op h hguar
      obtain ⟨htrace, hvalue, hend⟩ := ih _ (hnext _ t' hstep) hrel
      simp only [complete, ← hanswer]
      exact ⟨by rw [htrace], hvalue, hend⟩

/-- Two states that a relation puts together, and that answer alike every call a program makes, are
still together when the program has run, and it returns the same in both. -/
theorem complete_related {P : O → Prop} {Q : α → Unit → Prop} {serve : σ → (op : O) → R op × σ}
    {rel : σ → σ → Prop}
    (hserve : ∀ s s' op, rel s s' → P op →
      (serve s op).1 = (serve s' op).1 ∧ rel (serve s op).2 (serve s' op).2)
    (p : Prog O R α) (hp : p.wp (.calls P) Q ()) {s s' : σ} (h : rel s s') :
    (p.complete serve s).2.1 = (p.complete serve s').2.1 ∧
      rel (p.complete serve s).2.2 (p.complete serve s').2.2 := by
  have hfollow : ∀ (t : Unit) (s s' : σ) (op : O), rel s s' → P op →
      (serve s op).1 = (serve s' op).1 ∧ ∃ t' : Unit, True ∧ rel (serve s op).2 (serve s' op).2 := by
    intro t s s' op hrel hop
    obtain ⟨hanswer, hnext⟩ := hserve s s' op hrel hop
    exact ⟨hanswer, (), trivial, hnext⟩
  obtain ⟨-, hvalue, -, -, hend⟩ :=
    @complete_follow O R α σ Unit (.calls P) Q serve (fun _ => rel) (fun _ => trivial) hfollow p () hp s s' h
  exact ⟨hvalue, hend⟩

/-- Every call that a program makes of an environment that computes its answers satisfies the
guarantee. The environment may hold more than the specification speaks of. -/
theorem complete_owed {τ : Type} {step : σ → (op : O) → R op → σ → Prop} {guar : σ → O → Prop}
    {Q : α → σ → Prop} {serve : τ → (op : O) → R op × τ} (view : τ → σ)
    (hserve : ∀ x op, step (view x) op (serve x op).1 (view (serve x op).2)) (p : Prog O R α) {x : τ}
    (hp : p.wp (.sequential step guar) Q (view x)) {event : Event O R}
    (hmem : event ∈ (p.complete serve x).1) : ∃ s, guar s event.1 := by
  induction p generalizing x with
  | pure value => cases hmem
  | call op next ih =>
      obtain ⟨hguar, hnext⟩ := hp _ rfl
      rcases List.mem_cons.mp hmem with rfl | hrest
      · exact ⟨_, hguar⟩
      · exact ih _ (hnext _ _ (hserve x op)) hrest

/-- Along a sequential run the precondition of what is left of the program is maintained, and every
call made satisfies the guarantee. -/
theorem Exec.wp {step : σ → (op : O) → R op → σ → Prop} {guar : σ → O → Prop}
    {Q : α → σ → Prop} {p p' : Prog O R α} {s s' : σ} {trace : List (Event O R)}
    (h : Exec step p s trace p' s') (hp : p.wp (.sequential step guar) Q s) :
    p'.wp (.sequential step guar) Q s' := by
  induction h with
  | nil p s => exact hp
  | cons head _ ih => exact ih ((hp _ rfl).2 _ _ head)

/-- What every complete sequential run ensures is a postcondition. -/
theorem wp_of_forall_exec {step : σ → (op : O) → R op → σ → Prop} {Q : α → σ → Prop} (p : Prog O R α) {s : σ}
    (h : ∀ trace value s', Exec step p s trace (.pure value) s' → Q value s') :
    p.wp (.sequential step fun _ _ => True) Q s := by
  induction p generalizing s with
  | pure value => exact h [] value s (.nil _ _)
  | call op next ih =>
      intro s₁ hrely
      obtain rfl : s = s₁ := hrely
      exact ⟨trivial, fun answer s' hs => ih answer fun trace value s'' hexec => h _ value s'' (.cons hs hexec)⟩

/-- What each call that a program can make does to the state, a run of the program does. -/
theorem Exec.preserves {step : σ → (op : O) → R op → σ → Prop} {P : O → Prop} {Q : α → Unit → Prop}
    {K : σ → σ → Prop} (hrefl : ∀ s, K s s) (htrans : ∀ s s₁ s', K s s₁ → K s₁ s' → K s s')
    (hstep : ∀ s op answer s', P op → step s op answer s' → K s s') {p p' : Prog O R α} {s s' : σ}
    {trace : List (Event O R)} (h : Exec step p s trace p' s') (hp : p.wp (.calls P) Q ()) :
    K s s' := by
  induction h with
  | nil p s => exact hrefl s
  | cons head _ ih =>
      obtain ⟨hop, hnext⟩ := hp () trivial
      exact htrans _ _ _ (hstep _ _ _ _ hop head) (ih (hnext _ () trivial))

/-- A change of the state that no call a program can make takes notice of can be made before a run as
well as after it. -/
theorem Exec.map {step : σ → (op : O) → R op → σ → Prop} {P : O → Prop} {Q : α → Unit → Prop} {K : σ → Prop}
    (f : σ → σ) (hstep : ∀ s op answer s', P op → K s → step s op answer s' →
      step (f s) op answer (f s') ∧ K s') {p p' : Prog O R α} {s s' : σ}
    {trace : List (Event O R)} (h : Exec step p s trace p' s') (hp : p.wp (.calls P) Q ()) (hs : K s) :
    Exec step p (f s) trace p' (f s') := by
  induction h with
  | nil p s => exact .nil p (f s)
  | cons head _ ih =>
      obtain ⟨hop, hnext⟩ := hp () trivial
      obtain ⟨hmapped, hkept⟩ := hstep _ _ _ _ hop hs head
      exact .cons hmapped (ih (hnext _ () trivial) hkept)

/-- What every guaranteed call does to the state, a sequential run does. -/
theorem Exec.preserves_guar {step : σ → (op : O) → R op → σ → Prop} {guar : σ → O → Prop}
    {Q : α → σ → Prop} {K : σ → σ → Prop} (hrefl : ∀ s, K s s)
    (htrans : ∀ s s₁ s', K s s₁ → K s₁ s' → K s s')
    (hstep : ∀ s op answer s', guar s op → step s op answer s' → K s s') {p p' : Prog O R α} {s s' : σ}
    {trace : List (Event O R)} (h : Exec step p s trace p' s')
    (hp : p.wp (.sequential step guar) Q s) : K s s' := by
  induction h with
  | nil p s => exact hrefl s
  | cons head _ ih =>
      obtain ⟨hguar, hnext⟩ := hp _ rfl
      exact htrans _ _ _ (hstep _ _ _ _ hguar head) (ih (hnext _ _ head))

/-- Every call of a sequential run is made in a state that satisfies the guarantee. -/
theorem Exec.guaranteed {step : σ → (op : O) → R op → σ → Prop} {guar : σ → O → Prop}
    {Q : α → σ → Prop} {p p' : Prog O R α} {s s' : σ} {before after : List (Event O R)} {op : O}
    {answer : R op} (h : Exec step p s (before ++ ⟨op, answer⟩ :: after) p' s')
    (hp : p.wp (.sequential step guar) Q s) :
    ∃ p₁ s₁ s₂, Exec step p s before p₁ s₁ ∧ guar s₁ op ∧ step s₁ op answer s₂ := by
  obtain ⟨p₁, s₁, hbefore, hrest⟩ := h.split
  have hp₁ := hbefore.wp hp
  cases hrest with
  | @cons op next s s₂ s' answer trace p' head tail => exact ⟨_, s₁, s₂, hbefore, (hp₁ s₁ rfl).1, head⟩

end Prog

end Interaction
