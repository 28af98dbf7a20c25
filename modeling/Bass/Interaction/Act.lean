import Bass.Interaction.Wp

/-!
# Stateful programs that raise exceptions

The imperative code of one process: a state `μ` private to the process, exceptions `ε` that leave
the changes made before them in place, and calls to the environment. A call is recorded with the
private state at the moment it is made, so that a trace shows what the process knew.

`Act.wp` splits the postcondition in two, for a normal return and for an exception, and has one
equation for each construct of `do` notation.
-/

namespace Interaction

/-- A call together with the private state of the process that makes it. -/
structure Site (O μ : Type) where
  mem : μ
  op : O

/-- Programs of one process: calls `O` answered by `R`, private state `μ`, exceptions `ε`. -/
abbrev Act (O : Type) (R : O → Type) (μ ε : Type) (α : Type) : Type :=
  ExceptT ε (StateT μ (Prog (Site O μ) fun site => R site.op)) α

namespace Act

variable {O : Type} {R : O → Type} {μ ε α β σ : Type}

/-- The program that `x` is when it starts in the private state `m`. -/
def exec (x : Act O R μ ε α) (m : μ) :
    Prog (Site O μ) (fun site => R site.op) (Except ε α × μ) :=
  StateT.run (ExceptT.run x) m

/-- Make one call. -/
def perform (op : O) : Act O R μ ε (R op) :=
  ExceptT.lift fun m => Prog.call ⟨m, op⟩ fun answer => .pure (answer, m)

/-- Return a value or raise an exception that was computed before. -/
def ofExcept (x : Except ε α) : Act O R μ ε α := ExceptT.mk (Pure.pure x)

variable (S : Spec (Site O μ) (fun site => R site.op) σ)

/-- Weakest precondition of `x` for the postcondition `Q` on return and `E` on an exception. -/
def wp (x : Act O R μ ε α) (Q : α → μ → σ → Prop) (E : ε → μ → σ → Prop) (m : μ) (s : σ) :
    Prop :=
  (x.exec m).wp S (fun out s' => match out.1 with
    | .ok value => Q value out.2 s'
    | .error e => E e out.2 s') s

variable {S} {Q Q' : α → μ → σ → Prop} {E E' : ε → μ → σ → Prop} {m : μ} {s : σ}

@[simp] theorem wp_pure (value : α) :
    wp S (pure value : Act O R μ ε α) Q E m s ↔ Q value m s := Iff.rfl

@[simp] theorem wp_throw (e : ε) :
    wp S (throw e : Act O R μ ε α) Q E m s ↔ E e m s := Iff.rfl

@[simp] theorem wp_ofExcept (x : Except ε α) :
    wp S (ofExcept x : Act O R μ ε α) Q E m s ↔
      match x with
      | .ok value => Q value m s
      | .error e => E e m s := by
  cases x <;> rfl

@[simp] theorem wp_get {Q : μ → μ → σ → Prop} :
    wp S (get : Act O R μ ε μ) Q E m s ↔ Q m m s := Iff.rfl

@[simp] theorem wp_set {Q : PUnit → μ → σ → Prop} (m' : μ) :
    wp S (set m' : Act O R μ ε PUnit) Q E m s ↔ Q ⟨⟩ m' s := Iff.rfl

@[simp] theorem wp_modify {Q : PUnit → μ → σ → Prop} (f : μ → μ) :
    wp S (modify f : Act O R μ ε PUnit) Q E m s ↔ Q ⟨⟩ (f m) s := Iff.rfl

theorem exec_bind (x : Act O R μ ε α) (f : α → Act O R μ ε β) (m : μ) :
    (x >>= f).exec m = x.exec m >>= fun out => match out.1 with
      | .ok value => (f value).exec out.2
      | .error e => .pure (.error e, out.2) := by
  change (x.exec m).bind _ = (x.exec m).bind _
  congr 1
  funext out
  obtain ⟨r, m'⟩ := out
  cases r <;> rfl

theorem exec_perform_bind (op : O) (f : R op → Act O R μ ε β) (m : μ) :
    (perform op >>= f).exec m = .call ⟨m, op⟩ fun answer => (f answer).exec m := by
  rw [exec_bind]
  rfl

theorem exec_ofExcept_bind (x : Except ε α) (f : α → Act O R μ ε β) (m : μ) :
    (ofExcept x >>= f).exec m = match x with
      | .ok value => (f value).exec m
      | .error e => .pure (.error e, m) := by
  cases x <;> rfl

@[simp] theorem wp_bind {Q : β → μ → σ → Prop} (x : Act O R μ ε α) (f : α → Act O R μ ε β) :
    wp S (x >>= f) Q E m s ↔ wp S x (fun value m' s' => wp S (f value) Q E m' s') E m s := by
  unfold wp
  rw [exec_bind, Prog.wp_bind]
  constructor <;> refine Prog.wp_mono (fun out s' h => ?_) _ <;>
    obtain ⟨r, m'⟩ := out <;> cases r <;> exact h

theorem exec_tryCatch (x : Act O R μ ε α) (handler : ε → Act O R μ ε α) (m : μ) :
    (tryCatch x handler).exec m = x.exec m >>= fun out => match out.1 with
      | .ok value => .pure (.ok value, out.2)
      | .error e => (handler e).exec out.2 := by
  change (x.exec m).bind _ = (x.exec m).bind _
  congr 1
  funext out
  obtain ⟨r, m'⟩ := out
  cases r <;> rfl

@[simp] theorem wp_tryCatch (x : Act O R μ ε α) (handler : ε → Act O R μ ε α) :
    wp S (tryCatch x handler) Q E m s ↔
      wp S x Q (fun e m' s' => wp S (handler e) Q E m' s') m s := by
  unfold wp
  rw [exec_tryCatch, Prog.wp_bind]
  constructor <;> refine Prog.wp_mono (fun out s' h => ?_) _ <;>
    obtain ⟨r, m'⟩ := out <;> cases r <;> exact h

@[simp] theorem wp_perform (op : O) {Q : R op → μ → σ → Prop} :
    wp S (perform op : Act O R μ ε (R op)) Q E m s ↔ ∀ s₁, S.rely s s₁ →
      S.guar s₁ ⟨m, op⟩ ∧ ∀ answer s', S.step s₁ ⟨m, op⟩ answer s' → Q answer m s' := Iff.rfl

/-- A call followed by the rest of the code. -/
theorem wp_perform_bind {Q : β → μ → σ → Prop} (op : O) (f : R op → Act O R μ ε β) :
    wp S (perform op >>= f) Q E m s ↔ ∀ s₁, S.rely s s₁ →
      S.guar s₁ ⟨m, op⟩ ∧ ∀ answer s', S.step s₁ ⟨m, op⟩ answer s' → wp S (f answer) Q E m s' := by
  rw [wp_bind, wp_perform]

theorem wp_ofExcept_bind {Q : β → μ → σ → Prop} (x : Except ε α) (f : α → Act O R μ ε β) :
    wp S (ofExcept x >>= f) Q E m s ↔
      match x with
      | .ok value => wp S (f value) Q E m s
      | .error e => E e m s := by
  rw [wp_bind, wp_ofExcept]

theorem wp_mono (x : Act O R μ ε α) (hQ : ∀ value m s, Q value m s → Q' value m s)
    (hE : ∀ e m s, E e m s → E' e m s) (h : wp S x Q E m s) : wp S x Q' E' m s := by
  refine Prog.wp_mono (fun out s' hout => ?_) _ h
  obtain ⟨r, m'⟩ := out
  cases r with
  | ok value => exact hQ value m' s' hout
  | error e => exact hE e m' s' hout

theorem wp_and (x : Act O R μ ε α) (h : wp S x Q E m s)
    (h' : wp { S with guar := fun _ _ => True } x Q' E' m s) :
    wp S x (fun value m s => Q value m s ∧ Q' value m s) (fun e m s => E e m s ∧ E' e m s) m s := by
  refine Prog.wp_mono (fun out s' hout => ?_) _ (Prog.wp_and _ h h')
  obtain ⟨r, m'⟩ := out
  cases r <;> exact hout

/-- Nothing is owed under a specification without guarantees. -/
theorem wp_of_guar (hguar : ∀ s site, S.guar s site) (x : Act O R μ ε α) (m : μ) (s : σ) :
    wp S x (fun _ _ _ => True) (fun _ _ _ => True) m s := by
  refine Prog.wp_mono (fun out _ _ => ?_) _ (Prog.wp_of_guar hguar (x.exec m) s)
  cases out.1 <;> trivial

/-- What a precondition promises of the end of a sequential run. -/
theorem wp_of_exec {step : σ → (site : Site O μ) → R site.op → σ → Prop} {guar : σ → Site O μ → Prop}
    {x : Act O R μ ε α} {trace : List (Prog.Event (Site O μ) fun site => R site.op)}
    {out : Except ε α} {m' : μ} {s' : σ}
    (h : Prog.Exec step (x.exec m) s trace (.pure (out, m')) s')
    (hx : wp (.sequential step guar) x Q E m s) :
    match out with
    | .ok value => Q value m' s'
    | .error e => E e m' s' := by
  cases out <;> exact h.wp hx

end Act

/-! ### Invariants of a process -/

namespace Act

variable {O : Type} {R : O → Type} {μ ε α β σ : Type}

/-- `x` keeps the invariant `J`, which relates the private and the shared state, however it
ends. -/
def Keeps (S : Spec (Site O μ) (fun site => R site.op) σ) (J : μ → σ → Prop)
    (x : Act O R μ ε α) : Prop :=
  ∀ m s, J m s → wp S x (fun _ => J) (fun _ => J) m s

variable {S : Spec (Site O μ) (fun site => R site.op) σ} {J : μ → σ → Prop}

theorem keeps_pure (value : α) : Keeps S J (pure value : Act O R μ ε α) :=
  fun _ _ h => h

theorem keeps_throw (e : ε) : Keeps S J (throw e : Act O R μ ε α) :=
  fun _ _ h => h

theorem keeps_ofExcept (x : Except ε α) : Keeps S J (ofExcept x : Act O R μ ε α) := by
  intro m s h
  cases x <;> exact h

theorem keeps_bind {x : Act O R μ ε α} {f : α → Act O R μ ε β} (hx : Keeps S J x)
    (hf : ∀ value, Keeps S J (f value)) : Keeps S J (x >>= f) := by
  intro m s h
  rw [wp_bind]
  exact wp_mono x (fun value m' s' h' => hf value m' s' h') (fun _ _ _ h' => h') (hx m s h)

theorem keeps_tryCatch {x : Act O R μ ε α} {handler : ε → Act O R μ ε α} (hx : Keeps S J x)
    (hh : ∀ e, Keeps S J (handler e)) : Keeps S J (tryCatch x handler) := by
  intro m s h
  rw [wp_tryCatch]
  exact wp_mono x (fun _ _ _ h' => h') (fun e m' s' h' => hh e m' s' h') (hx m s h)

theorem keeps_get : Keeps S J (get : Act O R μ ε μ) := fun _ _ h => h

theorem keeps_modify {f : μ → μ} (hf : ∀ m s, J m s → J (f m) s) :
    Keeps S J (modify f : Act O R μ ε PUnit) := fun m s h => hf m s h

theorem keeps_perform {op : O} (h : ∀ m s, J m s → ∀ s₁, S.rely s s₁ →
    S.guar s₁ ⟨m, op⟩ ∧ ∀ answer s', S.step s₁ ⟨m, op⟩ answer s' → J m s') :
    Keeps S J (perform op : Act O R μ ε (R op)) := h

theorem Keeps.assuming {x : Act O R μ ε α} (h : Keeps S J x) (P : Site O μ → Prop) :
    Keeps (S.assuming P) J x :=
  fun m s hJ => Prog.wp_assuming P _ (h m s hJ)

/-- `x` keeps `J` when it returns, and leaves `E e` when it raises `e`. -/
def Leaves (S : Spec (Site O μ) (fun site => R site.op) σ) (J : μ → σ → Prop)
    (E : ε → μ → σ → Prop) (x : Act O R μ ε α) : Prop :=
  ∀ m s, J m s → wp S x (fun _ => J) E m s

section Leaves

variable {E : ε → μ → σ → Prop}

theorem Keeps.leaves {x : Act O R μ ε α} (h : Keeps S J x) (hE : ∀ e m s, J m s → E e m s) :
    Leaves S J E x :=
  fun m s hJ => wp_mono x (fun _ _ _ h' => h') (fun e m' s' h' => hE e m' s' h') (h m s hJ)

theorem leaves_throw {e : ε} (hE : ∀ m s, J m s → E e m s) :
    Leaves S J E (throw e : Act O R μ ε α) :=
  hE

theorem leaves_bind {x : Act O R μ ε α} {f : α → Act O R μ ε β} (hx : Leaves S J E x)
    (hf : ∀ value, Leaves S J E (f value)) : Leaves S J E (x >>= f) := by
  intro m s h
  rw [wp_bind]
  exact wp_mono x (fun value m' s' h' => hf value m' s' h') (fun _ _ _ h' => h') (hx m s h)

end Leaves

/-- `x` takes the assertion `J` to `K`, and raises only exceptions that `ok` permits, with `J` still
true. -/
def Raises (S : Spec (Site O μ) (fun site => R site.op) σ) (J K : μ → σ → Prop) (ok : ε → Prop)
    (x : Act O R μ ε α) : Prop :=
  ∀ m s, J m s → wp S x (fun _ => K) (fun e m s => ok e ∧ J m s) m s

variable {K : μ → σ → Prop} {ok : ε → Prop}

theorem raises_pure (hK : ∀ m s, J m s → K m s) (value : α) :
    Raises S J K ok (pure value : Act O R μ ε α) :=
  fun m s h => hK m s h

theorem raises_throw {e : ε} (he : ok e) : Raises S J K ok (throw e : Act O R μ ε α) :=
  fun _ _ h => ⟨he, h⟩

theorem raises_ofExcept {x : Except ε α} (hx : ∀ e, x = .error e → ok e) :
    Raises S J J ok (ofExcept x : Act O R μ ε α) := by
  intro m s h
  cases x with
  | ok value => exact h
  | error e => exact ⟨hx e rfl, h⟩

theorem raises_bind {x : Act O R μ ε α} {f : α → Act O R μ ε β} (hx : Raises S J J ok x)
    (hf : ∀ value, Raises S J K ok (f value)) : Raises S J K ok (x >>= f) := by
  intro m s h
  rw [wp_bind]
  exact wp_mono x (fun value m' s' h' => hf value m' s' h') (fun _ _ _ h' => h') (hx m s h)

theorem raises_modify {f : μ → μ} (hf : ∀ m s, J m s → J (f m) s) :
    Raises S J J ok (modify f : Act O R μ ε PUnit) := fun m s h => hf m s h

theorem Raises.weaken {x : Act O R μ ε α} (hx : Raises S J J ok x)
    (hK : ∀ m s, J m s → K m s) : Raises S J K ok x := by
  intro m s h
  exact wp_mono x (fun _ m' s' h' => hK m' s' h') (fun _ _ _ h' => h') (hx m s h)

end Act

end Interaction
