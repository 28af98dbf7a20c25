import Bass.Executor

/-!
# Invocations that outlive their call

A timeout gives up a future without stopping it: it stays in the queue, or goes on running, and acts when
the call that made it has long been reported as failed. As long as nothing times out there is at most one
unfinished future, and the caller is waiting for it.
-/

namespace Bass

namespace Connector

/-- The call of which an invocation starts or is over with this step. -/
def Label.acts : Label → Option Nat
  | .started call => some call
  | .finished call _ => some call
  | _ => none

/-- No invocation starts or is over after the call that it was made for has ended. -/
def NothingLate (labels : List Label) : Prop :=
  ∀ before label after call, labels = before ++ label :: after → label.acts = some call →
    ∀ result, .ended call result ∉ before

def Label.isTimeout : Label → Bool
  | .timedOut _ => true
  | _ => false

/-- What is unfinished is waited for, and the call in progress has not ended. -/
structure Awaited (s : Service) (labels : List Label) : Prop where
  unfinished : ∀ i f, s.futures[i]? = some f → ¬f.Over →
    ∃ breaker next, s.caller = .waiting f.call i breaker next
  current : ∀ call, s.caller.call? = some call → call < s.calls ∧ ∀ result, .ended call result ∉ labels
  past : ∀ call result, .ended call result ∈ labels → call < s.calls

theorem NothingLate.snoc {labels : List Label} {label : Label} (h : NothingLate labels)
    (hlast : ∀ call, label.acts = some call → ∀ result, .ended call result ∉ labels) :
    NothingLate (labels ++ [label]) := by
  intro before label' after call heq hacts result
  rcases List.append_eq_append_iff.mp heq with ⟨rest, rfl, hrest⟩ | ⟨rest, rfl, hrest⟩
  · cases rest with
    | nil =>
        obtain ⟨rfl, -⟩ := List.cons.inj hrest
        rw [List.append_nil]
        exact hlast call hacts result
    | cons first rest => simp at hrest
  · cases rest with
    | nil =>
        obtain ⟨rfl, -⟩ := List.cons.inj hrest
        rw [List.append_nil] at hlast
        exact hlast call hacts result
    | cons first rest =>
        obtain ⟨rfl, hafter⟩ := List.cons.inj hrest
        exact h before label' rest call rfl hacts result

namespace Awaited

variable {c : Connector} {s s' : Service} {labels : List Label} {label : Label}

/-- While nothing is waited for, everything is over. -/
theorem all_over (h : Awaited s labels) (hnone : ∀ call i breaker next, s.caller ≠ .waiting call i breaker next)
    {i : Nat} {f : Future} (hfuture : s.futures[i]? = some f) : f.Over := by
  by_contra hunfinished
  obtain ⟨breaker, next, hcaller⟩ := h.unfinished i f hfuture hunfinished
  exact hnone _ _ _ _ hcaller

theorem notMem_snoc {call : Nat} {result : Except Exc Json} (h : .ended call result ∉ labels)
    (hlabel : ∀ call result, label ≠ .ended call result) : .ended call result ∉ labels ++ [label] := by
  intro hmem
  rcases List.mem_append.mp hmem with hmem | hmem
  · exact h hmem
  · exact hlabel call result (List.mem_singleton.mp hmem).symm

/-- A step of the caller within its call, or of the clock. -/
theorem within {caller : Caller} (clock : ℚ) (h : Awaited s labels)
    (hnone : ∀ (i : Nat) (f : Future), s.futures[i]? = some f → ¬f.Over → caller = s.caller)
    (hcall : caller.call? = s.caller.call?) (hlabel : ∀ call result, label ≠ .ended call result) :
    Awaited { s with clock := clock, caller := caller } (labels ++ [label]) where
  unfinished := by
    intro i f hfuture hunfinished
    rw [hnone i f hfuture hunfinished]
    exact h.unfinished i f hfuture hunfinished
  current := by
    intro call hcurrent
    obtain ⟨hlt, hended⟩ := h.current call (hcall ▸ hcurrent)
    exact ⟨hlt, fun result => notMem_snoc (hended result) hlabel⟩
  past := by
    intro call result hmem
    rcases List.mem_append.mp hmem with hmem | hmem
    · exact h.past call result hmem
    · exact absurd (List.mem_singleton.mp hmem).symm (hlabel call result)

/-- A step of a worker on a future that is not over. -/
theorem worker {i : Nat} {f : Future} {status : Status} (h : Awaited s labels)
    (hfuture : s.futures[i]? = some f) (hunfinished : ¬f.Over)
    (hlabel : ∀ call result, label ≠ .ended call result) :
    Awaited { s with futures := s.futures.set i { f with status := status } } (labels ++ [label]) := by
  have hlength : i < s.futures.length := (List.getElem?_eq_some_iff.mp hfuture).1
  obtain ⟨breaker, next, hcaller⟩ := h.unfinished i f hfuture hunfinished
  constructor
  · intro j g hg hunfinished'
    by_cases hji : i = j
    · subst hji
      rw [List.getElem?_set_self hlength] at hg
      obtain rfl := Option.some.inj hg
      exact ⟨breaker, next, hcaller⟩
    · rw [List.getElem?_set_ne hji] at hg
      exact h.unfinished j g hg hunfinished'
  · intro call hcurrent
    obtain ⟨hlt, hended⟩ := h.current call hcurrent
    exact ⟨hlt, fun result => notMem_snoc (hended result) hlabel⟩
  · intro call result hmem
    rcases List.mem_append.mp hmem with hmem | hmem
    · exact h.past call result hmem
    · exact absurd (List.mem_singleton.mp hmem).symm (hlabel call result)

/-- What a worker does is done for the call in progress. -/
theorem not_ended {i : Nat} {f : Future} (h : Awaited s labels) (hfuture : s.futures[i]? = some f)
    (hunfinished : ¬f.Over) (result : Except Exc Json) : .ended f.call result ∉ labels := by
  obtain ⟨breaker, next, hcaller⟩ := h.unfinished i f hfuture hunfinished
  apply (h.current f.call ?_).2
  rw [hcaller]
  rfl

theorem not_over_of_status {f : Future} (h : ∀ ending, f.status ≠ .finished ending) : ¬f.Over := by
  rintro ⟨ending, hstatus⟩
  exact h ending hstatus

/-- The caller goes on within its call, having waited for nothing. -/
theorem goOn {call : Nat} {code : Code} {caller : Caller} (h : Awaited s labels)
    (hcaller : s.caller = .busy call code) (hcall : caller.call? = some call)
    (hlabel : ∀ call result, label ≠ .ended call result) :
    Awaited { s with caller := caller } (labels ++ [label]) := by
  apply h.within s.clock _ _ hlabel
  · intro i f hfuture hunfinished
    exact absurd (h.all_over (by simp [hcaller]) hfuture) hunfinished
  · rw [hcall, hcaller]
    rfl

theorem enter {breaker : CircuitBreaker} {code : Code} (h : Awaited s labels)
    (hcaller : s.caller = .idle breaker) :
    Awaited { s with calls := s.calls + 1, caller := .busy s.calls code } (labels ++ [.began s.calls]) where
  unfinished := by
    intro i f hfuture hunfinished
    exact absurd (h.all_over (by simp [hcaller]) hfuture) hunfinished
  current := by
    intro call hcurrent
    obtain rfl := Option.some.inj hcurrent
    refine ⟨Nat.lt_succ_self _, fun result => notMem_snoc ?_ (by simp)⟩
    intro hmem
    exact absurd (h.past _ result hmem) (Nat.lt_irrefl _)
  past := by
    intro call result hmem
    have hold : Label.ended call result ∈ labels := by simpa using hmem
    exact (h.past call result hold).trans (Nat.lt_succ_self _)

theorem submit {call : Nat} {breaker : CircuitBreaker} {next : Outcome → Code} {code : Code} {clock : ℚ}
    (h : Awaited s labels) (hcaller : s.caller = .busy call code) :
    Awaited
      { s with futures := s.futures ++ [⟨call, clock, .queued⟩]
               caller := .waiting call s.futures.length breaker next }
      (labels ++ [.submitted call]) where
  unfinished := by
    intro i f hfuture hunfinished
    rcases Nat.lt_trichotomy i s.futures.length with hlt | rfl | hgt
    · rw [List.getElem?_append_left hlt] at hfuture
      exact absurd (h.all_over (by simp [hcaller]) hfuture) hunfinished
    · rw [List.getElem?_concat_length] at hfuture
      obtain rfl := Option.some.inj hfuture
      exact ⟨breaker, next, rfl⟩
    · rw [List.getElem?_eq_none (by simp; omega)] at hfuture
      cases hfuture
  current := by
    intro call' hcurrent
    obtain rfl := Option.some.inj hcurrent
    obtain ⟨hlt, hended⟩ := h.current call (by rw [hcaller]; rfl)
    exact ⟨hlt, fun result => notMem_snoc (hended result) (by simp)⟩
  past := by
    intro call' result hmem
    exact h.past call' result (by simpa using hmem)

theorem leave {call : Nat} {code : Code} {result : Except Exc Json} {breaker : CircuitBreaker}
    (h : Awaited s labels) (hcaller : s.caller = .busy call code) :
    Awaited { s with caller := .idle breaker } (labels ++ [.ended call result]) where
  unfinished := by
    intro i f hfuture hunfinished
    exact absurd (h.all_over (by simp [hcaller]) hfuture) hunfinished
  current := by
    intro call' hcurrent
    cases hcurrent
  past := by
    intro call' result' hmem
    rcases List.mem_append.mp hmem with hmem | hmem
    · exact h.past call' result' hmem
    · obtain ⟨rfl, -⟩ : call' = call ∧ result' = result := by simpa using hmem
      exact (h.current call' (by rw [hcaller]; rfl)).1

theorem step (h : Awaited s labels) (hstep : Service.Step c s label s')
    (hprompt : label.isTimeout = false) :
    Awaited s' (labels ++ [label]) ∧
      ∀ call, label.acts = some call → ∀ result, .ended call result ∉ labels := by
  cases hstep with
  | pass htime => exact ⟨h.within _ (fun _ _ _ _ => rfl) rfl (by simp), by simp [Label.acts]⟩
  | enter hcaller => exact ⟨h.enter hcaller, by simp [Label.acts]⟩
  | submit hcaller => exact ⟨h.submit hcaller, by simp [Label.acts]⟩
  | @answer call i breaker next f ending hcaller hfuture hstatus =>
      refine ⟨?_, by simp [Label.acts]⟩
      apply h.within s.clock _ _ (by simp)
      · intro j g hg hunfinished
        obtain ⟨breaker', next', hcaller'⟩ := h.unfinished j g hg hunfinished
        rw [hcaller] at hcaller'
        obtain ⟨-, rfl, -, -⟩ := Caller.waiting.inj hcaller'
        obtain rfl := Option.some.inj (hfuture.symm.trans hg)
        exact absurd ⟨ending, hstatus⟩ hunfinished
      · rw [hcaller]
        rfl
  | timeOut hcaller hfuture hunfinished htime => cases hprompt
  | look hcaller => exact ⟨h.goOn hcaller rfl (by simp), by simp [Label.acts]⟩
  | sleep hcaller => exact ⟨h.goOn hcaller rfl (by simp), by simp [Label.acts]⟩
  | wake hcaller htime =>
      refine ⟨?_, by simp [Label.acts]⟩
      apply h.within s.clock _ _ (by simp)
      · intro i f hfuture hunfinished
        exact absurd (h.all_over (by simp [hcaller]) hfuture) hunfinished
      · rw [hcaller]
        rfl
  | leave hcaller => exact ⟨h.leave hcaller, by simp [Label.acts]⟩
  | @start i f hfuture hqueued hfirst hfree =>
      have hunfinished : ¬f.Over := not_over_of_status (by simp [hqueued])
      refine ⟨h.worker hfuture hunfinished (by simp), ?_⟩
      rintro call ⟨⟩ result
      exact h.not_ended hfuture hunfinished result
  | @finish i f e hfuture hrunning =>
      have hunfinished : ¬f.Over := not_over_of_status (by simp [hrunning])
      refine ⟨h.worker hfuture hunfinished (by simp), ?_⟩
      rintro call ⟨⟩ result
      exact h.not_ended hfuture hunfinished result

end Awaited

/-- **Nothing is late.** In every run of any number of calls in which nothing times out, no invocation
starts or is over after the call that it was made for has returned or raised. -/
theorem nothing_late (c : Connector) {clock : ℚ} {breaker : CircuitBreaker} {labels : List Label}
    {s : Service} (h : Service.Run c (.fresh clock breaker) labels s)
    (hprompt : ∀ label ∈ labels, label.isTimeout = false) : NothingLate labels := by
  have hkept : Awaited s labels ∧ NothingLate labels := by
    induction h with
    | nil =>
        constructor
        · exact ⟨by simp [Service.fresh], by simp [Service.fresh, Caller.call?], by simp⟩
        · intro before label after call heq
          simp at heq
    | snoc head last ih =>
        obtain ⟨hawaited, hlate⟩ := ih fun label hmem => hprompt label (by simp [hmem])
        obtain ⟨hnext, hacts⟩ := hawaited.step last (hprompt _ (by simp))
        exact ⟨hnext, hlate.snoc hacts⟩
  exact hkept.2

def payments (cfg : ReliabilityConfig) : Connector := ⟨"payments", cfg, fun _ => "10.0"⟩

/-- The first call waits for a worker, its first attempt fails and the second one answers; then comes another
call. -/
def answeredLabels : List Label :=
  [.began 0, .submitted 0, .pass, .started 0, .pass, .finished 0 (.error (.bass .transient "busy")), .answered 0,
    .slept 0, .pass, .woke 0, .submitted 0, .started 0, .finished 0 (.ok (.str "paid")), .answered 0,
    .ended 0 (.ok (.str "paid")), .began 1, .submitted 1, .pass, .started 1, .finished 1 (.ok (.str "paid")),
    .answered 1, .ended 1 (.ok (.str "paid"))]

def Status.isQueued : Status → Bool
  | .queued => true
  | _ => false

/-- The future is at the head of the queue. -/
theorem first_of_take {futures : List Future} {i : Nat}
    (h : ((futures.take i).any fun f => f.status.isQueued) = false) :
    ∀ j < i, ∀ g, futures[j]? = some g → g.status ≠ .queued := by
  intro j hj g hg hqueued
  have hmem : g ∈ futures.take i := by
    apply List.mem_of_getElem? (i := j)
    rw [List.getElem?_take_of_lt hj, hg]
  have hstarted := List.any_eq_false.mp h g hmem
  rw [hqueued] at hstarted
  exact hstarted rfl

theorem answered_run : ∃ s, Service.Run (payments {}) (.fresh 0 .closed) answeredLabels s := by
  have hrun := (Service.Run.nil (c := payments {}) (.fresh 0 .closed)).snoc (.enter rfl)
  have hrun := hrun.snoc (.submit rfl)
  have hrun := hrun.snoc (.pass (t := 2) (show (0 : ℚ) ≤ 2 by decide))
  have hrun := hrun.snoc (.start (i := 0) rfl rfl (by simp) (by decide))
  have hrun := hrun.snoc (.pass (t := 3) (show (2 : ℚ) ≤ 3 by decide))
  have hrun := hrun.snoc (.finish (i := 0) (e := .error (.bass .transient "busy")) rfl rfl)
  have hrun := hrun.snoc (.answer (i := 0) rfl rfl rfl)
  have hrun := hrun.snoc (.sleep rfl)
  have hrun := hrun.snoc (.pass (t := 4) (show (3 : ℚ) ≤ 4 by decide))
  have hrun := hrun.snoc (.wake rfl (show (3 : ℚ) + min (1 / 20 * 2 ^ 0) 2 ≤ 4 by decide +kernel))
  have hrun := hrun.snoc (.submit rfl)
  have hrun := hrun.snoc (.start (i := 1) rfl rfl (first_of_take rfl) (by decide))
  have hrun := hrun.snoc (.finish (i := 1) (e := .ok (.str "paid")) rfl rfl)
  have hrun := hrun.snoc (.answer (i := 1) rfl rfl rfl)
  have hrun := hrun.snoc (.leave rfl)
  have hrun := hrun.snoc (.enter rfl)
  have hrun := hrun.snoc (.submit rfl)
  have hrun := hrun.snoc (.pass (t := 5) (show (4 : ℚ) ≤ 5 by decide))
  have hrun := hrun.snoc (.start (i := 2) rfl rfl (first_of_take rfl) (by decide))
  have hrun := hrun.snoc (.finish (i := 2) (e := .ok (.str "paid")) rfl rfl)
  have hrun := hrun.snoc (.answer (i := 2) rfl rfl rfl)
  exact ⟨_, hrun.snoc (.leave rfl)⟩

theorem nothing_late_answered : NothingLate answeredLabels := by
  obtain ⟨s, hrun⟩ := answered_run
  exact nothing_late (payments {}) hrun (by decide)

/-- The operation takes eleven seconds, with no retry and a timeout of ten. -/
def abandonedLabels : List Label :=
  [.began 0, .submitted 0, .started 0, .pass, .timedOut 0,
    .ended 0 (.error (payments { maxRetries := 0 }).timeoutError), .pass, .finished 0 (.ok (.str "paid"))]

theorem not_over_of_running {call : Nat} {submitted : ℚ} : ¬(Future.mk call submitted .running).Over := by
  rintro ⟨ending, hstatus⟩
  cases hstatus

theorem abandoned_run :
    ∃ s, Service.Run (payments { maxRetries := 0 }) (.fresh 0 .closed) abandonedLabels s := by
  have hrun := (Service.Run.nil (c := payments { maxRetries := 0 }) (.fresh 0 .closed)).snoc (.enter rfl)
  have hrun := hrun.snoc (.submit rfl)
  have hrun := hrun.snoc (.start (i := 0) rfl rfl (by simp) (by decide))
  have hrun := hrun.snoc (.pass (t := 10) (show (0 : ℚ) ≤ 10 by decide))
  have hlate : (0 : ℚ) + (payments { maxRetries := 0 }).config.timeoutS ≤ 10 := by
    rw [zero_add]
    rfl
  have hrun := hrun.snoc (.timeOut (i := 0) (f := ⟨0, 0, .running⟩) rfl rfl not_over_of_running hlate)
  have hrun := hrun.snoc (.leave rfl)
  have hrun := hrun.snoc (.pass (t := 11) (show (10 : ℚ) ≤ 11 by decide))
  exact ⟨_, hrun.snoc (.finish (i := 0) (f := ⟨0, 0, .running⟩) (e := .ok (.str "paid")) rfl rfl)⟩

/-- The call is reported as failed, and the payment is made a second later. -/
theorem paid_after_failure :
    (∃ s, Service.Run (payments { maxRetries := 0 }) (.fresh 0 .closed) abandonedLabels s) ∧
      ¬NothingLate abandonedLabels := by
  constructor
  · exact abandoned_run
  · intro h
    apply h (abandonedLabels.take 7) (.finished 0 (.ok (.str "paid"))) [] 0 rfl rfl
      (.error (payments { maxRetries := 0 }).timeoutError)
    simp [abandonedLabels]

end Connector

end Bass
