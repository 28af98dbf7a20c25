import Bass.Schedule

/-!
# Which schedules a tick fires

`tick` decides which schedules are due before it fires the first one, and it fires them in one loop. An
expression that cannot be parsed keeps every schedule of the minute from firing, and a firing that raises
keeps the later ones from it.
-/

namespace Bass

namespace Scheduler

variable {α : Type}

/-- The calls that `fire` has received. -/
abbrev Calls : Type := List (Schedule × Trigger)

/-- A function `fire` whose outcome may depend on every call it has received so far. -/
def recorded (fire : Calls → Except Exc α) (s : Schedule) (trigger : Trigger) :
    ExceptT Exc (StateM Calls) α :=
  fun calls => (fire (calls ++ [(s, trigger)]), calls ++ [(s, trigger)])

/-- The calls of `fire` that one tick makes. -/
def calls (rules : TextRules) (scheduler : Scheduler) (now : DateTime) (fire : Calls → Except Exc α) :
    Calls :=
  ((scheduler.tick rules now (recorded fire)).run []).2

/-- The calls that the schedules ask for: every enabled one whose expression matches, in list order. -/
def wanted (rules : TextRules) (scheduler : Scheduler) (now : DateTime) : Calls :=
  (scheduler.schedules.filter fun s =>
    s.enabled && (rules.cronMatches s.cron now).toOption.getD false).map fun s => (s, s.trigger now.slot)

/-- `fire` raises on none of the calls but possibly the last. -/
def Uninterrupted (fire : Calls → Except Exc α) (wanted : Calls) : Prop :=
  ∀ before call after, wanted = before ++ call :: after → after ≠ [] →
    ∃ run, fire (before ++ [call]) = .ok run

theorem calls_fireAll_cons (fire : Calls → Except Exc α) (slot : String) (s : Schedule)
    (schedules : List Schedule) (made : Calls) :
    ((fireAll (recorded fire) slot (s :: schedules)).run made).2 =
      match fire (made ++ [(s, s.trigger slot)]) with
      | .ok _ => ((fireAll (recorded fire) slot schedules).run (made ++ [(s, s.trigger slot)])).2
      | .error _ => made ++ [(s, s.trigger slot)] := by
  cases hfire : fire (made ++ [(s, s.trigger slot)]) with
  | error e =>
      simp only [fireAll, recorded, ExceptT.run, hfire, StateT.bind, ExceptT.bind, ExceptT.bindCont,
        ExceptT.mk, bind, pure]
      rfl
  | ok run =>
      simp only [fireAll, recorded, ExceptT.run, hfire, StateT.bind, ExceptT.bind, ExceptT.bindCont,
        ExceptT.mk, ExceptT.pure, bind, pure]
      rcases fireAll (recorded fire) slot schedules (made ++ [(s, s.trigger slot)]) with ⟨_ | _, _⟩
      · rfl
      · rfl

/-- The loop makes all of its calls iff none but the last one raises. -/
theorem calls_fireAll_eq_iff (fire : Calls → Except Exc α) (slot : String) (schedules : List Schedule)
    (made : Calls) :
    ((fireAll (recorded fire) slot schedules).run made).2 =
        made ++ schedules.map (fun s => (s, s.trigger slot)) ↔
      Uninterrupted (fun calls => fire (made ++ calls)) (schedules.map fun s => (s, s.trigger slot)) := by
  induction schedules generalizing made with
  | nil =>
      constructor
      · intro _ before call after hwanted _
        simp at hwanted
      · intro _
        exact (List.append_nil made).symm
  | cons s schedules ih =>
      rw [calls_fireAll_cons]
      cases hfire : fire (made ++ [(s, s.trigger slot)]) with
      | error e =>
          cases schedules with
          | nil =>
              constructor
              · intro _ before call after hwanted hafter
                cases before <;> simp_all
              · intro _
                rfl
          | cons t schedules =>
              constructor
              · intro heq
                simp at heq
              · intro h
                obtain ⟨run, hrun⟩ := h [] _ _ rfl (by simp)
                simp [hfire] at hrun
      | ok run =>
          have happend : made ++ (s :: schedules).map (fun s => (s, s.trigger slot)) =
              made ++ [(s, s.trigger slot)] ++ schedules.map fun s => (s, s.trigger slot) := by simp
          rw [happend]
          refine (ih _).trans ?_
          constructor
          · intro h before call after hwanted hafter
            cases before with
            | nil =>
                obtain ⟨rfl, -⟩ := List.cons.inj hwanted
                exact ⟨run, hfire⟩
            | cons first before =>
                obtain ⟨rfl, hrest⟩ := List.cons.inj hwanted
                obtain ⟨run, hrun⟩ := h before call after hrest hafter
                exact ⟨run, by simpa using hrun⟩
          · intro h before call after hwanted hafter
            obtain ⟨run, hrun⟩ := h ((s, s.trigger slot) :: before) call after (by simp [hwanted]) hafter
            exact ⟨run, by simpa using hrun⟩

/-! ### Which schedules are due -/

variable {rules : TextRules} {now : DateTime}

/-- No enabled schedule has an expression that raises at this minute. -/
def Readable (rules : TextRules) (now : DateTime) (schedules : List Schedule) : Prop :=
  ∀ s ∈ schedules, s.enabled → ∃ fires, rules.cronMatches s.cron now = .ok fires

theorem dueAmong_of_readable {schedules : List Schedule} (h : Readable rules now schedules) :
    dueAmong rules now schedules = .ok (schedules.filter fun s =>
      s.enabled && (rules.cronMatches s.cron now).toOption.getD false) := by
  induction schedules with
  | nil => rfl
  | cons s schedules ih =>
      have hrest := ih fun t ht => h t (List.mem_cons_of_mem _ ht)
      cases henabled : s.enabled with
      | false => simp [dueAmong, henabled, hrest, bind, pure, Except.bind, Except.pure]
      | true =>
          obtain ⟨fires, hfires⟩ := h s List.mem_cons_self henabled
          cases fires <;>
            simp [dueAmong, henabled, hfires, hrest, bind, pure, Except.bind, Except.pure, Except.toOption]

theorem dueAmong_of_not_readable {schedules : List Schedule} (h : ¬Readable rules now schedules) :
    ∃ e, dueAmong rules now schedules = .error e := by
  induction schedules with
  | nil => exact absurd (fun s hs => absurd hs List.not_mem_nil) h
  | cons s schedules ih =>
      by_cases hrest : Readable rules now schedules
      · have hs : s.enabled = true ∧ ∀ fires, rules.cronMatches s.cron now ≠ .ok fires := by
          by_contra hne
          apply h
          intro t ht henabled
          rcases List.mem_cons.mp ht with rfl | ht
          · by_contra hnone
            exact hne ⟨henabled, fun fires hfires => hnone ⟨fires, hfires⟩⟩
          · exact hrest t ht henabled
        cases hmatch : rules.cronMatches s.cron now with
        | ok fires => exact absurd hmatch (hs.2 fires)
        | error e => exact ⟨e, by simp [dueAmong, hs.1, hmatch, bind, Except.bind]⟩
      · obtain ⟨e, he⟩ := ih hrest
        cases hmatch : rules.cronMatches s.cron now <;> cases henabled : s.enabled <;>
          simp [dueAmong, henabled, hmatch, he, bind, pure, Except.bind, Except.pure]

/-- **What a tick fires.** The calls of `fire` are those of the enabled schedules whose expression matches,
once each and in list order, iff there is nothing to fire, or no enabled schedule's expression raises and
`fire` raises on none of these calls but possibly the last. -/
theorem calls_eq_wanted_iff (rules : TextRules) (scheduler : Scheduler) (now : DateTime)
    (fire : Calls → Except Exc α) :
    scheduler.calls rules now fire = scheduler.wanted rules now ↔
      scheduler.wanted rules now = [] ∨
        Readable rules now scheduler.schedules ∧ Uninterrupted fire (scheduler.wanted rules now) := by
  by_cases hreadable : Readable rules now scheduler.schedules
  · have hcalls : scheduler.calls rules now fire = ((fireAll (recorded fire) now.slot
        (scheduler.schedules.filter fun s =>
          s.enabled && (rules.cronMatches s.cron now).toOption.getD false)).run []).2 := by
      rw [calls, tick, due, dueAmong_of_readable hreadable]
    have hloop := calls_fireAll_eq_iff fire now.slot (scheduler.schedules.filter fun s =>
      s.enabled && (rules.cronMatches s.cron now).toOption.getD false) []
    rw [hcalls]
    refine hloop.trans ?_
    constructor
    · intro h
      exact Or.inr ⟨hreadable, h⟩
    · rintro (hnone | ⟨-, h⟩)
      · intro before call after hwanted _
        rw [← wanted, hnone] at hwanted
        simp at hwanted
      · exact h
  · obtain ⟨e, he⟩ := dueAmong_of_not_readable hreadable
    have hcalls : scheduler.calls rules now fire = [] := by
      rw [calls, tick, due, he]
      rfl
    rw [hcalls]
    constructor
    · intro h
      exact Or.inl h.symm
    · rintro (hnone | ⟨h, -⟩)
      · exact hnone.symm
      · exact absurd h hreadable

/-- Two tenants' schedules in one minute. -/
def twoTenants (cron cron' : String) : Scheduler :=
  ⟨[⟨"acme", "ap", cron, true, "1"⟩, ⟨"globex", "ap", cron', true, "2"⟩]⟩

/-- A malformed expression of one tenant keeps the other's schedule from firing, and so does a firing of one
tenant that raises. -/
theorem firing_suppressed :
    (twoTenants "x * * * *" "* * * * *").calls .ascii (.newYear 0) (fun _ => .ok ()) ≠
        (twoTenants "x * * * *" "* * * * *").wanted .ascii (.newYear 0) ∧
      (twoTenants "* * * * *" "* * * * *").calls .ascii (.newYear 0)
          (fun _ => (.error (.bass .toolError "unknown tool: ghost") : Except Exc Unit)) ≠
        (twoTenants "* * * * *" "* * * * *").wanted .ascii (.newYear 0) := by
  constructor
  · intro h
    have hlength := congrArg List.length h
    revert hlength
    decide +kernel
  · intro h
    have hlength := congrArg List.length h
    revert hlength
    decide +kernel

end Scheduler

end Bass
