import Bass.Interaction.Act
import Bass.Interaction.Pool

/-!
# Traces

A path of a program is a sequence of calls and answers that it can go through, whatever else happens
around it. What a program owes at a call, given everything it did before, is a guarantee over its
paths, and every thread of a pool follows a path of its program.
-/

namespace Interaction

variable {O : Type} {R : O → Type} {α : Type}

/-- `trace` is what `p` does at first when every answer is one that `ok` allows. -/
inductive Prog.Path (ok : (op : O) → R op → Prop) : Prog O R α → List (Prog.Event O R) → Prop where
  | nil (p : Prog O R α) : Prog.Path ok p []
  | cons {op : O} {next : R op → Prog O R α} {answer : R op} {trace : List (Prog.Event O R)}
      (head : ok op answer) (tail : Prog.Path ok (next answer) trace) :
      Prog.Path ok (.call op next) (⟨op, answer⟩ :: trace)

/-- The specification whose state is the trace so far. -/
def Spec.history (ok : (op : O) → R op → Prop) (guar : List (Prog.Event O R) → O → Prop) :
    Spec O R (List (Prog.Event O R)) :=
  { step := fun before op answer after => ok op answer ∧ after = before ++ [⟨op, answer⟩]
    rely := Eq
    guar := guar }

/-- The specification that looks at the calls only, given what they can be answered. -/
def Spec.answered (ok : (op : O) → R op → Prop) (P : O → Prop) : Spec O R Unit :=
  { step := fun _ op answer _ => ok op answer
    rely := fun _ _ => True
    guar := fun _ op => P op }

variable {ok : (op : O) → R op → Prop} {guar : List (Prog.Event O R) → O → Prop}

theorem Prog.wp_answered_mono {P P' : O → Prop} {Q : α → Unit → Prop} (h : ∀ op, P op → P' op) (p : Prog O R α)
    {s : Unit} (hp : p.wp (.answered ok P) Q s) : p.wp (.answered ok P') Q s := by
  have hguar : ∀ (s : Unit) op, (Spec.answered ok P : Spec O R Unit).guar s op →
      (Spec.answered ok P' : Spec O R Unit).guar s op := fun _ op hop => h op hop
  refine @Prog.wp_weaken O R α Unit (.answered ok P) (.answered ok P') Q (fun _ _ h => h) hguar
    (fun _ _ _ _ h => h) p s hp

/-- Every call of a path is guaranteed by the calls before it. -/
theorem Prog.Path.guaranteed {p : Prog O R α} {Q : α → List (Prog.Event O R) → Prop}
    {h before after : List (Prog.Event O R)} {op : O} {answer : R op}
    (hpath : p.Path ok (before ++ ⟨op, answer⟩ :: after)) (hp : p.wp (.history ok guar) Q h) :
    guar (h ++ before) op := by
  induction before generalizing p h with
  | nil =>
      cases hpath with
      | cons head tail =>
          rw [List.append_nil]
          exact (hp h rfl).1
  | cons event before ih =>
      cases hpath with
      | cons head tail =>
          have := ih tail ((hp h rfl).2 _ _ ⟨head, rfl⟩)
          rwa [List.append_assoc] at this

theorem Prog.Path.mono {ok' : (op : O) → R op → Prop} {p : Prog O R α} {trace : List (Prog.Event O R)}
    (h : p.Path ok trace) (hok : ∀ event ∈ trace, ok' event.1 event.2) : p.Path ok' trace := by
  induction h with
  | nil p => exact .nil p
  | cons head _ ih =>
      exact .cons (hok _ List.mem_cons_self) (ih fun event hmem => hok event (List.mem_cons_of_mem _ hmem))

/-- Every call of a path is one that the program can make. -/
theorem Prog.Path.calls {P : O → Prop} {p : Prog O R α} {Q : α → Unit → Prop}
    {trace : List (Prog.Event O R)} (h : p.Path ok trace) (hp : p.wp (.calls P) Q ()) :
    ∀ event ∈ trace, P event.1 := by
  induction h with
  | nil p => exact fun _ hmem => absurd hmem List.not_mem_nil
  | cons _ _ ih =>
      obtain ⟨hop, hnext⟩ := hp () trivial
      exact List.forall_mem_cons.mpr ⟨hop, ih (hnext _ () trivial)⟩

theorem Prog.Path.answered {P : O → Prop} {p : Prog O R α} {Q : α → Unit → Prop}
    {trace : List (Prog.Event O R)} (h : p.Path ok trace) (hp : p.wp (.answered ok P) Q ()) :
    ∀ event ∈ trace, P event.1 := by
  induction h with
  | nil p => exact fun _ hmem => absurd hmem List.not_mem_nil
  | cons head _ ih =>
      obtain ⟨hop, hnext⟩ := hp () trivial
      exact List.forall_mem_cons.mpr ⟨hop, ih (hnext _ () head)⟩

/-- What is done with the result of a program is no part of its path. -/
theorem Prog.Path.of_map {β : Type} {f : α → β} {p : Prog O R α} {trace : List (Prog.Event O R)}
    (h : (p >>= fun value => .pure (f value)).Path ok trace) : p.Path ok trace := by
  induction p generalizing trace with
  | pure value =>
      cases h
      exact .nil _
  | call op next ih =>
      cases h with
      | nil => exact .nil _
      | cons head tail => exact .cons head (ih _ tail)

/-- The program returns `value` after the calls of `trace`. -/
inductive Prog.Returns : Prog O R α → List (Prog.Event O R) → α → Prop where
  | pure (value : α) : Prog.Returns (.pure value) [] value
  | call {op : O} {next : R op → Prog O R α} {answer : R op} {trace : List (Prog.Event O R)} {value : α}
      (tail : Prog.Returns (next answer) trace value) :
      Prog.Returns (.call op next) (⟨op, answer⟩ :: trace) value

/-- What a program promises of its result and its calls, given what the answers may be. -/
theorem Prog.Returns.history {p : Prog O R α} {Q : α → List (Prog.Event O R) → Prop}
    {h trace : List (Prog.Event O R)} {value : α} (hreturns : p.Returns trace value)
    (hok : ∀ event ∈ trace, ok event.1 event.2) (hp : p.wp (.history ok guar) Q h) :
    Q value (h ++ trace) := by
  induction hreturns generalizing h with
  | pure value =>
      rw [List.append_nil]
      exact hp
  | @call op next answer trace value tail ih =>
      have hnext := (hp h rfl).2 answer _ ⟨hok _ List.mem_cons_self, rfl⟩
      have := ih (fun event hmem => hok event (List.mem_cons_of_mem _ hmem)) hnext
      rwa [List.append_assoc] at this

namespace Act

variable {μ ε β : Type} {R' : O → Type} {ok : (site : Site O μ) → R' site.op → Prop}
  {guar : List (Prog.Event (Site O μ) fun site => R' site.op) → Site O μ → Prop}
  {m : μ} {before : List (Prog.Event (Site O μ) fun site => R' site.op)}

/-- A call under a history specification, followed by the rest of the code. -/
theorem wp_perform_history (op : O) (f : R' op → Act O R' μ ε β)
    {Q : β → μ → List (Prog.Event (Site O μ) fun site => R' site.op) → Prop}
    {E : ε → μ → List (Prog.Event (Site O μ) fun site => R' site.op) → Prop} :
    wp (.history ok guar) (perform op >>= f) Q E m before ↔ guar before ⟨m, op⟩ ∧
      ∀ answer, ok ⟨m, op⟩ answer →
        wp (.history ok guar) (f answer) Q E m (before ++ [⟨⟨m, op⟩, answer⟩]) := by
  rw [wp_perform_bind]
  constructor
  · intro h
    exact ⟨(h before rfl).1, fun answer hok => (h before rfl).2 answer _ ⟨hok, rfl⟩⟩
  · rintro ⟨hguar, hnext⟩ _ rfl
    refine ⟨hguar, ?_⟩
    rintro answer _ ⟨hok, rfl⟩
    exact hnext answer hok

end Act

namespace Pool

variable {Tag σ : Type} {step : σ → (op : O) → R op → σ → Prop} {start : Tag → Prog O R Unit}
  {env : σ → σ → Prop}

def Label.event? (i : Nat) : Label Tag O R → Option (Prog.Event O R)
  | .call j op answer => if j = i then some ⟨op, answer⟩ else none
  | _ => none

/-- The calls of one thread, with their answers. -/
def trace (i : Nat) (labels : List (Label Tag O R)) : List (Prog.Event O R) :=
  labels.filterMap (Label.event? i)

/-- An answer that a call can have in some state. -/
def Answers (step : σ → (op : O) → R op → σ → Prop) (op : O) (answer : R op) : Prop :=
  ∃ s s', step s op answer s'

/-- A thread follows a path of its program. -/
theorem Run.path {c c' : Pool Tag O R σ} {labels : List (Label Tag O R)}
    (h : Run step start env c labels c') {i : Nat} {tag : Tag} {p : Prog O R Unit}
    (hi : c.threads[i]? = some (tag, p)) : p.Path (Answers step) (trace i labels) := by
  induction h generalizing p with
  | nil c => exact .nil p
  | @cons c c₁ c' label labels head _ ih =>
      obtain ⟨hlt, -⟩ := List.getElem?_eq_some_iff.mp hi
      cases head with
      | @call threads s s' j tag' op next answer hthread hstep =>
          by_cases hij : j = i
          · subst hij
            obtain ⟨rfl, rfl⟩ := Prod.mk.inj (Option.some.inj (hthread.symm.trans hi))
            have htrace : trace j (.call j op answer :: labels : List (Label Tag O R)) =
                ⟨op, answer⟩ :: trace j labels := by
              simp [trace, Label.event?]
            rw [htrace]
            exact .cons ⟨s, s', hstep⟩ (ih (List.getElem?_set_self hlt))
          · have htrace : trace i (.call j op answer :: labels : List (Label Tag O R)) =
                trace i labels := by
              simp [trace, Label.event?, hij]
            rw [htrace]
            exact ih ((List.getElem?_set_ne hij).trans hi)
      | spawn threads s tag' => exact ih ((List.getElem?_append_left hlt).trans hi)
      | @crash threads s j tag' p' hthread =>
          by_cases hij : j = i
          · subst hij
            obtain ⟨rfl, rfl⟩ := Prod.mk.inj (Option.some.inj (hthread.symm.trans hi))
            have hdead : Prog.Path (Answers step) (.pure ()) (trace j labels) :=
              ih (List.getElem?_set_self hlt)
            have hnil : trace j (.crash j :: labels : List (Label Tag O R)) = [] := by
              cases h : trace j labels with
              | nil => exact h
              | cons event rest => rw [h] at hdead; cases hdead
            rw [hnil]
            exact .nil _
          · exact ih ((List.getElem?_set_ne hij).trans hi)
      | env henv => exact ih hi

/-- A thread that is not there yet will follow a path of the program of its request. -/
theorem Run.path_of_tag {c c' : Pool Tag O R σ} {labels : List (Label Tag O R)}
    (h : Run step start env c labels c') {i : Nat} (hi : c.threads.length ≤ i) {tag : Tag}
    (htag : (c'.threads[i]?).map Prod.fst = some tag) :
    (start tag).Path (Answers step) (trace i labels) := by
  induction h with
  | nil c =>
      rw [List.getElem?_eq_none hi] at htag
      cases htag
  | @cons c c₁ c' label labels head tail ih =>
      cases head with
      | @call threads s s' j tag op next answer hthread hstep =>
          obtain ⟨hlt, -⟩ := List.getElem?_eq_some_iff.mp hthread
          have hne : j ≠ i := fun heq => absurd hi (by rw [← heq]; exact Nat.not_le.mpr hlt)
          have htrace : trace i (.call j op answer :: labels : List (Label Tag O R)) =
              trace i labels := by
            simp [trace, Label.event?, hne]
          rw [htrace]
          exact ih (by simpa using hi) htag
      | spawn threads s new =>
          rcases Nat.eq_or_lt_of_le hi with heq | hlt
          · have hnew : (threads ++ [(new, start new)])[i]? = some (new, start new) := by
              rw [← heq]
              exact List.getElem?_concat_length
            have hsame := tail.tag (by rw [hnew, Option.map_some])
            obtain rfl := Option.some.inj (hsame.symm.trans htag)
            exact tail.path hnew
          · exact ih (by rw [List.length_append]; exact hlt) htag
      | crash hthread => exact ih (by simpa using hi) htag
      | env henv => exact ih hi htag

/-- A thread that makes a call is there in the end. -/
theorem Run.tag_of_mem {c c' : Pool Tag O R σ} {labels : List (Label Tag O R)}
    (h : Run step start env c labels c') {i : Nat} {op : O} {answer : R op}
    (hmem : .call i op answer ∈ labels) : ∃ tag, (c'.threads[i]?).map Prod.fst = some tag := by
  induction h with
  | nil c => exact absurd hmem List.not_mem_nil
  | cons head tail ih =>
      rcases List.mem_cons.mp hmem with rfl | hrest
      · have hrun := Run.cons head tail
        cases head with
        | @call threads s s' j tag op next answer hthread hstep =>
            exact ⟨tag, hrun.tag (by rw [hthread, Option.map_some])⟩
      · exact ih hrest

theorem trace_append (i : Nat) (labels labels' : List (Label Tag O R)) :
    trace i (labels ++ labels') = trace i labels ++ trace i labels' :=
  List.filterMap_append

/-- The last call that a thread has made, and what the others did since. -/
theorem trace_concat {i : Nat} {labels : List (Label Tag O R)} {earlier : List (Prog.Event O R)}
    {op : O} {answer : R op} (h : trace i labels = earlier ++ [⟨op, answer⟩]) :
    ∃ before since, labels = before ++ .call i op answer :: since ∧ trace i since = [] := by
  obtain ⟨before, rest, rfl, -, hrest⟩ := List.filterMap_eq_append_iff.mp h
  obtain ⟨others, label, since, rfl, -, hlabel, hsince⟩ := List.filterMap_eq_cons_iff.mp hrest
  cases label with
  | call j op' answer' =>
      by_cases hij : j = i
      · obtain ⟨rfl, hanswer⟩ : op' = op ∧ answer' ≍ answer := by simpa [Label.event?, hij] using hlabel
        obtain rfl := eq_of_heq hanswer
        exact ⟨before ++ others, since, by rw [hij, List.append_assoc], hsince⟩
      · simp [Label.event?, hij] at hlabel
  | spawn | crash | env => simp [Label.event?] at hlabel

theorem trace_call (i : Nat) (before after : List (Label Tag O R)) (op : O) (answer : R op) :
    trace i (before ++ .call i op answer :: after) =
      trace i before ++ ⟨op, answer⟩ :: trace i after := by
  rw [trace_append]
  congr 1
  simp [trace, Label.event?]

theorem mem_trace {i : Nat} {labels : List (Label Tag O R)} {op : O} {answer : R op} :
    ⟨op, answer⟩ ∈ trace i labels ↔ .call i op answer ∈ labels := by
  unfold trace
  rw [List.mem_filterMap]
  constructor
  · rintro ⟨label, hmem, hevent⟩
    cases label with
    | call j op' answer' =>
        by_cases hij : j = i
        · obtain ⟨rfl, hanswer⟩ : op' = op ∧ answer' ≍ answer := by simpa [Label.event?, hij] using hevent
          obtain rfl := eq_of_heq hanswer
          exact hij ▸ hmem
        · simp [Label.event?, hij] at hevent
    | spawn | crash | env => simp [Label.event?] at hevent
  · intro hmem
    exact ⟨_, hmem, by simp [Label.event?]⟩

/-- A thread of a run that starts without threads was started in it. -/
theorem Run.spawned {c c' : Pool Tag O R σ} {labels : List (Label Tag O R)}
    (h : Run step start env c labels c') {i : Nat} {tag : Tag} (hi : c.threads.length ≤ i)
    (htag : (c'.threads[i]?).map Prod.fst = some tag) : .spawn tag ∈ labels := by
  induction h with
  | nil c =>
      rw [List.getElem?_eq_none hi] at htag
      cases htag
  | cons head tail ih =>
      cases head with
      | call => exact List.mem_cons_of_mem _ (ih (by simpa using hi) htag)
      | spawn threads s new =>
          rcases Nat.eq_or_lt_of_le hi with heq | hlt
          · have hnew : (threads ++ [(new, start new)])[i]? = some (new, start new) := by
              rw [← heq]
              exact List.getElem?_concat_length
            have hsame := tail.tag (by rw [hnew, Option.map_some])
            obtain rfl := Option.some.inj (hsame.symm.trans htag)
            exact List.mem_cons_self
          · exact List.mem_cons_of_mem _ (ih (by rw [List.length_append]; exact hlt) htag)
      | crash => exact List.mem_cons_of_mem _ (ih (by simpa using hi) htag)
      | env => exact List.mem_cons_of_mem _ (ih hi htag)

/-- What the program of a request owes at each call, the calls of the thread satisfy. -/
theorem Run.answered {P : Tag → O → Prop} {Q : Tag → Unit → Unit → Prop} {s : σ} {c : Pool Tag O R σ}
    {labels : List (Label Tag O R)} (h : Run step start env ⟨[], s⟩ labels c) {i : Nat} {op : O} {answer : R op}
    (hmem : .call i op answer ∈ labels)
    (hp : ∀ tag, (start tag).wp (.answered (Answers step) (P tag)) (Q tag) ()) :
    ∃ tag, .spawn tag ∈ labels ∧ (c.threads[i]?).map Prod.fst = some tag ∧ P tag op := by
  obtain ⟨tag, htag⟩ := h.tag_of_mem hmem
  have hpath := h.path_of_tag (Nat.zero_le i) htag
  exact ⟨tag, h.spawned (Nat.zero_le i) htag, htag, hpath.answered (hp tag) _ (mem_trace.mpr hmem)⟩

/-- What every program guarantees, given its own calls so far, every call of a run satisfies. -/
theorem Run.owed {s : σ} {c : Pool Tag O R σ} {labels : List (Label Tag O R)} {i : Nat}
    {before after : List (Prog.Event O R)} {op : O} {answer : R op}
    {guar : List (Prog.Event O R) → O → Prop} {Q : Unit → List (Prog.Event O R) → Prop}
    (h : Run step start env ⟨[], s⟩ labels c)
    (htrace : trace i labels = before ++ ⟨op, answer⟩ :: after)
    (hp : ∀ tag, (start tag).wp (.history (Answers step) guar) Q []) : guar before op := by
  have hmem : (⟨op, answer⟩ : Prog.Event O R) ∈ trace i labels := by
    rw [htrace]
    exact List.mem_append_right _ List.mem_cons_self
  obtain ⟨tag, htag⟩ := h.tag_of_mem (mem_trace.mp hmem)
  have hpath := h.path_of_tag (Nat.zero_le i) htag
  rw [htrace] at hpath
  exact hpath.guaranteed (hp tag)

end Pool

end Interaction
