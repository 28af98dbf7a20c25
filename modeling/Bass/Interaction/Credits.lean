import Mathlib.Algebra.BigOperators.Group.Finset.Piecewise
import Mathlib.Algebra.GroupWithZero.Nat
import Mathlib.Algebra.Order.BigOperators.Group.Finset
import Bass.Interaction.Trace

/-!
# Credits

Calls have a price, the state of the specification is what is left to spend, and a call is owed only
if its price is left. A program that keeps to such a specification spends at most what it starts with,
whatever it is answered and however far it gets. `Act.Costs n` says that the code needs no more than
`n` and returns the rest, so the costs of parts add up along `do` notation.
-/

namespace Interaction

variable {O : Type} {R : O → Type} {μ ε α β : Type}

/-- A call takes its price from what is left. -/
def Spec.credits (price : O → Nat) : Spec O R Nat :=
  { step := fun left op _ left' => left' + price op = left
    rely := Eq
    guar := fun left op => price op ≤ left }

/-- What the calls of a trace amount to, each with its answer. -/
def Prog.sumOver (amount : Prog.Event O R → Nat) (trace : List (Prog.Event O R)) : Nat :=
  (trace.map amount).sum

/-- What the calls of a trace cost together. -/
abbrev Prog.spent (price : O → Nat) (trace : List (Prog.Event O R)) : Nat :=
  Prog.sumOver (fun event => price event.1) trace

theorem Prog.Path.spent_le {ok : (op : O) → R op → Prop} {price : O → Nat} {p : Prog O R α}
    {Q : α → Nat → Prop} {left : Nat} {trace : List (Prog.Event O R)} (h : p.Path ok trace)
    (hp : p.wp (.credits price) Q left) : Prog.spent price trace ≤ left := by
  induction h generalizing left with
  | nil p => exact Nat.zero_le left
  | @cons op next answer trace _ _ ih =>
      obtain ⟨hprice, hnext⟩ := hp left rfl
      have hrest := ih (hnext answer (left - price op) (Nat.sub_add_cancel hprice))
      calc Prog.spent price (⟨op, answer⟩ :: trace)
          = price op + Prog.spent price trace := List.sum_cons
        _ ≤ price op + (left - price op) := Nat.add_le_add_left hrest _
        _ = left := Nat.add_sub_cancel' hprice

namespace Act

variable {price : Site O μ → Nat} {m : μ}

/-- Started in the private state `m` with at least `n` to spend, `x` keeps to it, and what it has spent
when it returns or raises is at most `n`. -/
def CostsFrom (price : Site O μ → Nat) (m : μ) (n : Nat) (x : Act O R μ ε α) : Prop :=
  ∀ left, n ≤ left →
    wp (.credits price) x (fun _ _ left' => left ≤ left' + n) (fun _ _ left' => left ≤ left' + n) m left

/-- `x` costs at most `n` from any private state. -/
def Costs (price : Site O μ → Nat) (n : Nat) (x : Act O R μ ε α) : Prop := ∀ m, CostsFrom price m n x

theorem CostsFrom.mono {n k : Nat} {x : Act O R μ ε α} (h : CostsFrom price m n x) (hnk : n ≤ k) :
    CostsFrom price m k x := by
  intro left hleft
  refine wp_mono x (fun _ _ left' hspent => ?_) (fun _ _ left' hspent => ?_) (h left (by omega)) <;> omega

theorem Costs.mono {n k : Nat} {x : Act O R μ ε α} (h : Costs price n x) (hnk : n ≤ k) :
    Costs price k x :=
  fun m => (h m).mono hnk

/-- Code that keeps whatever is left costs nothing. -/
theorem costs_of_keeps {x : Act O R μ ε α}
    (h : ∀ k, Keeps (.credits price) (fun _ left => left = k) x) : Costs price 0 x := by
  intro m left _
  refine wp_mono x (fun _ _ left' heq => ?_) (fun _ _ left' heq => ?_) (h left m left rfl) <;> omega

theorem costs_pure (value : α) : Costs price 0 (pure value : Act O R μ ε α) :=
  costs_of_keeps fun _ => keeps_pure value

theorem costs_throw (e : ε) : Costs price 0 (throw e : Act O R μ ε α) :=
  costs_of_keeps fun _ => keeps_throw e

theorem costs_ofExcept (value : Except ε α) : Costs price 0 (ofExcept value : Act O R μ ε α) :=
  costs_of_keeps fun _ => keeps_ofExcept value

/-- Calls without a price keep what is left. -/
theorem keeps_free {op : O} {k : Nat} (h : ∀ m, price ⟨m, op⟩ = 0) :
    Keeps (.credits price) (fun _ left => left = k) (perform op : Act O R μ ε (R op)) := by
  refine keeps_perform ?_
  rintro m left rfl _ rfl
  have hfree := h m
  refine ⟨hfree.le.trans (Nat.zero_le left), fun answer left' hstep => ?_⟩
  change left' + price ⟨m, op⟩ = left at hstep
  omega

theorem costs_perform {op : O} {n : Nat} (h : ∀ m, price ⟨m, op⟩ ≤ n) :
    Costs price n (perform op : Act O R μ ε (R op)) := by
  intro m left hleft
  refine (wp_perform op).mpr ?_
  rintro _ rfl
  have hprice := h m
  refine ⟨hprice.trans hleft, fun answer left' hstep => ?_⟩
  change left' + price ⟨m, op⟩ = left at hstep
  omega

theorem CostsFrom.bind {n k : Nat} {x : Act O R μ ε α} {f : α → Act O R μ ε β}
    (hx : CostsFrom price m n x) (hf : ∀ value, Costs price k (f value)) :
    CostsFrom price m (n + k) (x >>= f) := by
  intro left hleft
  refine (wp_bind _ _).mpr (wp_mono x (fun value m' left' hspent => ?_) (fun _ _ left' hspent => ?_)
    (hx left (by omega)))
  · refine wp_mono _ (fun _ _ left'' hrest => ?_) (fun _ _ left'' hrest => ?_)
      (hf value m' left' (by omega)) <;> omega
  · omega

theorem costs_bind {n k : Nat} {x : Act O R μ ε α} {f : α → Act O R μ ε β} (hx : Costs price n x)
    (hf : ∀ value, Costs price k (f value)) : Costs price (n + k) (x >>= f) :=
  fun m => (hx m).bind hf

theorem CostsFrom.tryCatch {n k : Nat} {x : Act O R μ ε α} {handler : ε → Act O R μ ε α}
    (hx : CostsFrom price m n x) (hh : ∀ e, Costs price k (handler e)) :
    CostsFrom price m (n + k) (tryCatch x handler) := by
  intro left hleft
  refine (wp_tryCatch _ _).mpr (wp_mono x (fun _ _ left' hspent => ?_) (fun e m' left' hspent => ?_)
    (hx left (by omega)))
  · omega
  · refine wp_mono _ (fun _ _ left'' hrest => ?_) (fun _ _ left'' hrest => ?_)
      (hh e m' left' (by omega)) <;> omega

theorem costs_tryCatch {n k : Nat} {x : Act O R μ ε α} {handler : ε → Act O R μ ε α}
    (hx : Costs price n x) (hh : ∀ e, Costs price k (handler e)) :
    Costs price (n + k) (tryCatch x handler) :=
  fun m => (hx m).tryCatch hh

theorem costs_free_bind {n : Nat} {x : Act O R μ ε α} {f : α → Act O R μ ε β} (hx : Costs price 0 x)
    (hf : ∀ value, Costs price n (f value)) : Costs price n (x >>= f) :=
  (costs_bind hx hf).mono (Nat.zero_add n).le

theorem costs_bind_free {n : Nat} {x : Act O R μ ε α} {f : α → Act O R μ ε β} (hx : Costs price n x)
    (hf : ∀ value, Costs price 0 (f value)) : Costs price n (x >>= f) :=
  costs_bind hx hf

end Act

/-! ### Threads -/

namespace Pool

variable {Tag σ : Type} {step : σ → (op : O) → R op → σ → Prop} {start : Tag → Prog O R Unit}
  {env : σ → σ → Prop} {s : σ} {c : Pool Tag O R σ} {labels : List (Label Tag O R)}

/-- What the calls of a run amount to, whichever threads make them. -/
def total (amount : Prog.Event O R → Nat) : List (Label Tag O R) → Nat
  | [] => 0
  | .call _ op answer :: labels => amount ⟨op, answer⟩ + total amount labels
  | _ :: labels => total amount labels

theorem total_eq_sum (amount : Prog.Event O R → Nat) {n : Nat}
    (h : ∀ i op answer, .call i op answer ∈ labels → i < n) :
    total amount labels = ∑ i ∈ Finset.range n, Prog.sumOver amount (trace i labels) := by
  induction labels with
  | nil => exact (Finset.sum_eq_zero fun _ _ => rfl).symm
  | cons label labels ih =>
      have hrest := ih fun i op answer hmem => h i op answer (List.mem_cons_of_mem _ hmem)
      cases label with
      | call j op answer =>
          have hj : j < n := h j op answer List.mem_cons_self
          have hcons : ∀ i, Prog.sumOver amount (trace i (.call j op answer :: labels : List (Label Tag O R))) =
              (if i = j then amount ⟨op, answer⟩ else 0) + Prog.sumOver amount (trace i labels) := by
            intro i
            by_cases hij : j = i
            · simp [trace, Label.event?, Prog.sumOver, hij]
            · simp [trace, Label.event?, Prog.sumOver, hij, Ne.symm hij]
          calc total amount (.call j op answer :: labels)
              = amount ⟨op, answer⟩ + ∑ i ∈ Finset.range n, Prog.sumOver amount (trace i labels) := by
                rw [total, hrest]
            _ = ∑ i ∈ Finset.range n, ((if i = j then amount ⟨op, answer⟩ else 0) +
                  Prog.sumOver amount (trace i labels)) := by
                rw [Finset.sum_add_distrib, Finset.sum_ite_eq', if_pos (Finset.mem_range.mpr hj)]
            _ = _ := Finset.sum_congr rfl fun i _ => (hcons i).symm
      | spawn | crash | env => exact hrest

/-- What holds of every thread's trace holds of the run. -/
theorem Run.total_le {amount bound : Prog.Event O R → Nat} (h : Run step start env ⟨[], s⟩ labels c)
    (hthread : ∀ i tag, (c.threads[i]?).map Prod.fst = some tag →
      Prog.sumOver amount (trace i labels) ≤ Prog.sumOver bound (trace i labels)) :
    total amount labels ≤ total bound labels := by
  have htag : ∀ i, i < c.threads.length → ∃ tag, (c.threads[i]?).map Prod.fst = some tag := by
    intro i hlt
    exact ⟨(c.threads[i]).1, by rw [List.getElem?_eq_getElem hlt, Option.map_some]⟩
  have hindex : ∀ i op answer, .call i op answer ∈ labels → i < c.threads.length := by
    intro i op answer hmem
    obtain ⟨tag, hsome⟩ := h.tag_of_mem hmem
    obtain ⟨thread, hget, -⟩ := Option.map_eq_some_iff.mp hsome
    exact (List.getElem?_eq_some_iff.mp hget).1
  rw [total_eq_sum amount hindex, total_eq_sum bound hindex]
  refine Finset.sum_le_sum fun i hi => ?_
  obtain ⟨tag, hsome⟩ := htag i (Finset.mem_range.mp hi)
  exact hthread i tag hsome

end Pool

end Interaction
