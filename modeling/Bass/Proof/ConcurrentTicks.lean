import Bass.Data.Text
import Bass.Proof.ConcurrentFires
import Bass.Schedule

/-!
# Ticks of several replicas

The key of a firing is a text made of the schedule's id and the minute. From the year 1000 on the text of
a minute has a fixed length, so the key determines both, whatever characters the id has. The store lets
one run through for each key, and what every other firing gets back is that run.
-/

namespace Bass

open Interaction EngineM

/-! ### Keys -/

namespace DateTime

theorem padded_inj {m n : Nat} (hm : m < 100) (hn : n < 100) (h : padded m = padded n) : m = n := by
  have hchars := String.ofList_injective h
  simp only [List.cons.injEq, and_true] at hchars
  have htens := Text.digitChar_inj (by omega) (by omega) hchars.1
  have hones := Text.digitChar_inj (by omega) (by omega) hchars.2
  omega

theorem daysInMonth_le (year month : Nat) : daysInMonth year month ≤ 31 := by
  unfold daysInMonth
  split
  · split <;> omega
  all_goals omega

theorem length_padded (n : Nat) : (padded n).toList.length = 2 := by
  rw [padded, String.toList_ofList]
  rfl

theorem toList_slot (dt : DateTime) :
    dt.slot.toList = Nat.toDigits 10 dt.year ++ '-' :: ((padded dt.month).toList ++ '-' ::
      ((padded dt.day).toList ++ 'T' :: ((padded dt.hour).toList ++ ':' :: (padded dt.minute).toList))) := by
  simp [slot]

theorem length_year {dt : DateTime} (h : 1000 ≤ dt.year) : (Nat.toDigits 10 dt.year).length = 4 := by
  have hvalid := dt.year_valid
  have hmost : (Nat.toDigits 10 dt.year).length ≤ 4 := by
    rw [Nat.length_toDigits_le_iff (by decide) (by decide)]
    omega
  have hleast : ¬(Nat.toDigits 10 dt.year).length ≤ 3 := by
    rw [Nat.length_toDigits_le_iff (by decide) (by decide)]
    omega
  omega

theorem length_slot {dt : DateTime} (h : 1000 ≤ dt.year) : dt.slot.toList.length = 16 := by
  simp [toList_slot, length_year h, length_padded]

/-- From the year 1000 on the text of a minute determines it. -/
theorem calendarMinute_of_slot {dt dt' : DateTime} (h : 1000 ≤ dt.year) (h' : 1000 ≤ dt'.year)
    (hslot : dt.slot = dt'.slot) : dt.calendarMinute = dt'.calendarMinute := by
  have hpadded : ∀ {m n : Nat} {rest rest' : List Char}, m < 100 → n < 100 →
      (padded m).toList ++ rest = (padded n).toList ++ rest' → m = n ∧ rest = rest' := by
    intro m n rest rest' hm hn heq
    obtain ⟨htext, hrest⟩ := List.append_inj heq (by rw [length_padded, length_padded])
    exact ⟨padded_inj hm hn (String.toList_injective htext), hrest⟩
  have hday := dt.day_valid.2.trans (daysInMonth_le _ _)
  have hday' := dt'.day_valid.2.trans (daysInMonth_le _ _)
  have hmonth := dt.month_valid
  have hmonth' := dt'.month_valid
  have hhour := dt.hour_valid
  have hhour' := dt'.hour_valid
  have hminute := dt.minute_valid
  have hminute' := dt'.minute_valid
  have htext := congrArg String.toList hslot
  rw [toList_slot, toList_slot] at htext
  obtain ⟨hyears, htext⟩ := List.append_inj htext (by rw [length_year h, length_year h'])
  obtain ⟨hmonths, htext⟩ := hpadded (by omega) (by omega) (List.cons.inj htext).2
  obtain ⟨hdays, htext⟩ := hpadded (by omega) (by omega) (List.cons.inj htext).2
  obtain ⟨hhours, htext⟩ := hpadded (by omega) (by omega) (List.cons.inj htext).2
  have hminutes := padded_inj (by omega) (by omega) (String.toList_injective (List.cons.inj htext).2)
  unfold calendarMinute
  rw [Text.toDigits_injective hyears, hmonths, hdays, hhours, hminutes]

theorem slot_congr {dt dt' : DateTime} (h : dt.calendarMinute = dt'.calendarMinute) : dt.slot = dt'.slot := by
  simp only [calendarMinute, Prod.mk.injEq] at h
  obtain ⟨hyear, hmonth, hday, hhour, hminute⟩ := h
  unfold slot
  rw [hyear, hmonth, hday, hhour, hminute]

end DateTime

/-- The message id determines the schedule and the minute, whatever the ids are made of. -/
theorem Schedule.messageId_inj {s s' : Schedule} {now now' : DateTime} (h : 1000 ≤ now.year)
    (h' : 1000 ≤ now'.year) (heq : s.messageId now.slot = s'.messageId now'.slot) :
    s.id = s'.id ∧ now.calendarMinute = now'.calendarMinute := by
  have htext := congrArg String.toList heq
  simp only [messageId, String.toList_append] at htext
  obtain ⟨hid, hslot⟩ := List.append_inj' htext (by rw [DateTime.length_slot h, DateTime.length_slot h'])
  refine ⟨?_, DateTime.calendarMinute_of_slot h h' (String.toList_injective hslot)⟩
  exact String.toList_injective (List.append_cancel_left (List.append_cancel_right hid))

/-- A firing goes by its message id. -/
theorem deriveIdempotencyKey_trigger (builtins : Builtins) (s : Schedule) (slot : String) :
    deriveIdempotencyKey builtins (s.trigger slot) = s.messageId slot := by
  have hne : s.messageId slot ≠ "" := by
    intro heq
    have htext := congrArg String.toList heq
    simp [Schedule.messageId] at htext
  have hsource : (["idempotency_key", "message_id", "delivery_id", "id"].findSome? fun key =>
      ((s.trigger slot).get? key).filter Json.truthy) = some (.str (s.messageId slot)) := by
    simp [Schedule.trigger, List.findSome?, Dict.ofList, Dict.get?, Dict.set, Table.find?, Table.update,
      Table.insert, Table.empty, Option.filter, Json.truthy, hne]
  unfold deriveIdempotencyKey
  rw [hsource]
  rfl

/-- The key that the firings of a schedule in one minute share. -/
def Schedule.key (s : Schedule) (now : DateTime) : String × String := (s.tenantId, s.messageId now.slot)

/-! ### What a tick does -/

variable {rules : TextRules} {orchestrators : String → Deployment} {redact : Json → Json}

/-- The run that a firing would create. -/
def Tick.wanted (orchestrators : String → Deployment) (t : Tick) (s : Schedule) : Run :=
  Run.ofTrigger (orchestrators s.tenantId).builtins s.tenantId (t.runId s) (t.workflow s)
    (s.trigger t.now.slot)

theorem Tick.triggerKey_wanted (t : Tick) (s : Schedule) :
    (t.wanted orchestrators s).ident.triggerKey = s.key t.now :=
  congrArg (s.tenantId, ·) (deriveIdempotencyKey_trigger (orchestrators s.tenantId).builtins s t.now.slot)

/-- A firing as a request to the orchestrator of the schedule's tenant. -/
def Tick.request (t : Tick) (s : Schedule) : Request :=
  .orchestratorFire s.tenantId (t.runId s) (t.workflow s) (s.trigger t.now.slot) (t.buffer s)

theorem Tick.exec_fire (t : Tick) (s : Schedule) (m : Mem) :
    (t.fire orchestrators s (s.trigger t.now.slot)).exec m =
      (t.request s).creating (orchestrators s.tenantId) (t.wanted orchestrators s)
        ⟨t.wanted orchestrators s, t.buffer s⟩ :=
  exec_orchestratorFire (orchestrators s.tenantId) s.tenantId (t.runId s) (t.workflow s)
    (s.trigger t.now.slot) (t.buffer s)

section Loop

variable {db : DB}

theorem Tick.returned_fire (t : Tick) (s : Schedule) (m : Mem) (before : Trail) :
    Act.wp (confirmedSpec db) (t.fire orchestrators s (s.trigger t.now.slot))
      (fun run _ _ => Returned (t.wanted orchestrators s) run db) (fun _ _ _ => True) m before := by
  unfold Act.wp
  rw [Tick.exec_fire]
  apply Prog.wp_mono _ _ (wp_creating (d := orchestrators s.tenantId) rfl rfl before)
  intro out after hout
  obtain ⟨result, m'⟩ := out
  cases result with
  | ok run => exact hout run rfl
  | error e => trivial

/-- What the loop of a tick returns is stored, each run under the key of its schedule. -/
theorem Tick.returned_fireAll (t : Tick) (schedules : List Schedule) (m : Mem) (before : Trail) :
    Act.wp (confirmedSpec db) (Scheduler.fireAll (t.fire orchestrators) t.now.slot schedules)
      (fun runs _ _ =>
        List.Forall₂ (fun s run => Returned (t.wanted orchestrators s) run db) schedules runs)
      (fun _ _ _ => True) m before := by
  induction schedules generalizing m before with
  | nil => exact List.Forall₂.nil
  | cons s schedules ih =>
      unfold Scheduler.fireAll
      rw [Act.wp_bind]
      apply Act.wp_mono _ _ (fun _ _ _ _ => trivial) (t.returned_fire s m before)
      intro run m₁ after₁ hrun
      rw [Act.wp_bind]
      apply Act.wp_mono _ _ (fun _ _ _ _ => trivial) (ih m₁ after₁)
      intro runs m₂ after₂ hruns
      exact List.Forall₂.cons hrun hruns

end Loop

/-- What is due is what is enabled and matches. -/
theorem Scheduler.mem_dueAmong {now : DateTime} {schedules due : List Schedule}
    (h : Scheduler.dueAmong rules now schedules = .ok due) {s : Schedule} :
    s ∈ due ↔ s ∈ schedules ∧ s.enabled = true ∧ rules.cronMatches s.cron now = .ok true := by
  induction schedules generalizing due with
  | nil =>
      cases h
      simp
  | cons head schedules ih =>
      unfold Scheduler.dueAmong at h
      cases hothers : Scheduler.dueAmong rules now schedules with
      | error e =>
          rw [hothers] at h
          by_cases henabled : head.enabled = true
          · rw [if_pos henabled] at h
            cases hmatches : rules.cronMatches head.cron now <;> rw [hmatches] at h <;> cases h
          · rw [if_neg henabled] at h
            cases h
      | ok others =>
          rw [hothers] at h
          by_cases henabled : head.enabled = true
          · rw [if_pos henabled] at h
            cases hmatches : rules.cronMatches head.cron now with
            | error e =>
                rw [hmatches] at h
                cases h
            | ok fires =>
                rw [hmatches] at h
                cases fires <;> cases h <;> grind
          · rw [if_neg henabled] at h
            cases h
            grind

/-- The tick has fired `s` by the end of the trace, and has got `run` back. -/
def Tick.Yields (rules : TextRules) (orchestrators : String → Deployment) (t : Tick) (trace : Trail)
    (s : Schedule) (run : Run) : Prop :=
  ∃ due fired firings runs m, t.scheduler.due rules t.now = .ok due ∧ fired <+: due ∧ firings <+: trace ∧
    ((Scheduler.fireAll (t.fire orchestrators) t.now.slot fired).exec (Mem.request "" "" [])).Returns firings
      (.ok runs, m) ∧ (s, run) ∈ fired.zip runs

section Trace

variable {db : DB} {t : Tick} {trace : Trail}

theorem Tick.Yields.returned {s : Schedule} {run : Run} (h : t.Yields rules orchestrators trace s run)
    (hok : ∀ event ∈ trace, Confirmed db event.1 event.2) : Returned (t.wanted orchestrators s) run db := by
  obtain ⟨due, fired, firings, runs, m, -, -, hfirings, hreturns, hmem⟩ := h
  have hall := hreturns.history (fun event hevent => hok event (hfirings.subset hevent))
    (t.returned_fireAll fired (Mem.request "" "" []) [])
  exact (List.forall₂_iff_zip.mp hall).2 hmem

theorem Tick.Yields.mem {s : Schedule} {run : Run} (h : t.Yields rules orchestrators trace s run) :
    s ∈ t.scheduler.schedules := by
  obtain ⟨due, fired, firings, runs, m, hdue, hfired, -, -, hmem⟩ := h
  have hs : s ∈ due := hfired.subset (List.of_mem_zip hmem).1
  exact ((Scheduler.mem_dueAmong hdue).mp hs).1

/-- A tick that returns has fired everything that is due. -/
theorem Tick.yields_of_returns {runs : List Run} {m : Mem}
    (hreturns : ((t.code rules orchestrators).exec (Mem.request "" "" [])).Returns trace (.ok runs, m))
    (hok : ∀ event ∈ trace, Confirmed db event.1 event.2) {s : Schedule}
    (hs : s ∈ t.scheduler.schedules) (henabled : s.enabled = true)
    (hmatches : rules.cronMatches s.cron t.now = .ok true) :
    ∃ run, t.Yields rules orchestrators trace s run := by
  unfold Tick.code Scheduler.tick at hreturns
  split at hreturns
  · rename_i due hdue
    have hall := hreturns.history hok (t.returned_fireAll due (Mem.request "" "" []) [])
    have hmem : s ∈ due := (Scheduler.mem_dueAmong hdue).mpr ⟨hs, henabled, hmatches⟩
    obtain ⟨i, hi, rfl⟩ := List.mem_iff_getElem.mp hmem
    have hlength := hall.length_eq
    refine ⟨runs[i], due, due, trace, runs, m, hdue, List.prefix_rfl, List.prefix_rfl, hreturns, ?_⟩
    apply List.mem_iff_getElem.mpr
    exact ⟨i, by simpa using ⟨hi, hlength ▸ hi⟩, List.getElem_zip⟩
  · cases hreturns

/-- The call inserts no run but those that the tick wants for the schedules. -/
def Tick.Wants (orchestrators : String → Deployment) (t : Tick) (schedules : List Schedule) (call : Call) :
    Prop :=
  ∀ run, call.op = .insertRun run → ∃ s ∈ schedules, run = t.wanted orchestrators s

theorem Tick.wants_fire (t : Tick) {schedules : List Schedule} {s : Schedule} (hs : s ∈ schedules) (m : Mem) :
    Act.wp (.calls (t.Wants orchestrators schedules)) (t.fire orchestrators s (s.trigger t.now.slot))
      (fun _ _ _ => True) (fun _ _ _ => True) m () := by
  unfold Act.wp
  rw [Tick.exec_fire]
  intro _ _
  constructor
  · intro run heq
    cases heq
    exact ⟨s, hs, rfl⟩
  · intro inserted _ _
    cases inserted with
    | true =>
        have hdriving := inserts_driving (orchestrators s.tenantId) (t.request s)
          ⟨t.wanted orchestrators s, t.buffer s⟩ () trivial
        apply Prog.wp_calls_mono _ _ hdriving
        intro call hcall run heq
        exact absurd heq (hcall run)
    | false =>
        intro _ _
        constructor
        · intro run heq
          cases heq
        · intro answer _ _
          rcases answer with e | _ | existing <;> trivial

theorem Tick.wants_fireAll (t : Tick) {all schedules : List Schedule} (hsub : ∀ s ∈ schedules, s ∈ all)
    (m : Mem) :
    Act.wp (.calls (t.Wants orchestrators all))
      (Scheduler.fireAll (t.fire orchestrators) t.now.slot schedules) (fun _ _ _ => True)
      (fun _ _ _ => True) m () := by
  induction schedules generalizing m with
  | nil => trivial
  | cons s schedules ih =>
      obtain ⟨hs, hrest⟩ := List.forall_mem_cons.mp hsub
      unfold Scheduler.fireAll
      rw [Act.wp_bind]
      apply Act.wp_mono _ _ (fun _ _ _ _ => trivial) (t.wants_fire hs m)
      intro run m₁ _ _
      rw [Act.wp_bind]
      exact Act.wp_mono _ (fun _ _ _ _ => trivial) (fun _ _ _ _ => trivial) (ih hrest m₁)

/-- What a tick inserts is wanted by one of its firings. -/
theorem Tick.wanted_of_insertion {ok : (call : Call) → call.Res → Prop}
    (hpath : (t.program rules orchestrators).Path ok trace) {m : Mem} {run : Run} {inserted : Bool}
    (hmem : ⟨⟨m, .insertRun run⟩, inserted⟩ ∈ trace) :
    ∃ s ∈ t.scheduler.schedules, s.enabled = true ∧ rules.cronMatches s.cron t.now = .ok true ∧
      run = t.wanted orchestrators s := by
  have hcode : ((t.code rules orchestrators).exec (Mem.request "" "" [])).Path ok trace := hpath.of_map
  unfold Tick.code Scheduler.tick at hcode
  split at hcode
  · rename_i due hdue
    obtain ⟨s, hs, hrun⟩ := hcode.calls (t.wants_fireAll (fun _ hs => hs) _) _ hmem run rfl
    obtain ⟨hs, henabled, hmatches⟩ := (Scheduler.mem_dueAmong hdue).mp hs
    exact ⟨s, hs, henabled, hmatches, hrun⟩
  · cases hcode
    exact absurd hmem List.not_mem_nil

end Trace

/-! ### Once a minute -/

/-- Thread `i` is the tick `t`, which has fired `s` and has got `run` back. -/
structure Fired (rules : TextRules) (orchestrators : String → Deployment)
    (labels : List (Pool.Label Tick Call Call.Res)) (c : Replicas) (i : Nat) (t : Tick) (s : Schedule)
    (run : Run) : Prop where
  tag : (c.threads[i]?).map Prod.fst = some t
  yields : t.Yields rules orchestrators (Pool.trace i labels) s run

/-- Thread `i` is the tick `t`, which has returned. -/
structure Completed (rules : TextRules) (orchestrators : String → Deployment)
    (labels : List (Pool.Label Tick Call Call.Res)) (c : Replicas) (i : Nat) (t : Tick) : Prop where
  tag : (c.threads[i]?).map Prod.fst = some t
  returns : ∃ runs m, ((t.code rules orchestrators).exec (Mem.request "" "" [])).Returns
    (Pool.trace i labels) (.ok runs, m)

/-- Each schedule has had at most one run a minute, and one where it was due in a tick that returned. -/
structure OncePerMinute (rules : TextRules) (orchestrators : String → Deployment) (db : DB)
    (labels : List (Pool.Label Tick Call Call.Res)) (c : Replicas) : Prop where
  /-- Two firings yield one run exactly when they are of one schedule and one calendar minute. -/
  sameRun : ∀ i j t t' s s' run run', Fired rules orchestrators labels c i t s run →
    Fired rules orchestrators labels c j t' s' run' →
      (run.id = run'.id ↔ s.id = s'.id ∧ t.now.calendarMinute = t'.now.calendarMinute)
  atMostOne : ∀ (s : Schedule) (now : DateTime),
    (c.shared.runs.rows.filter fun row => row.triggerKey = s.key now).length ≤ 1
  exactlyOne : ∀ (i : Nat) (t : Tick) (s : Schedule), Completed rules orchestrators labels c i t → s ∈ t.scheduler.schedules →
    s.enabled = true → rules.cronMatches s.cron t.now = .ok true →
      ∃ row run, c.shared.runs.rows.filter (fun row => row.triggerKey = s.key t.now) = [row] ∧
        Fired rules orchestrators labels c i t s run ∧ run.id = row.id
  /-- Every run that was not there before is one of these. -/
  noOther : ∀ row ∈ c.shared.runs.rows, row.ident ∈ db.idents ∨
    ∃ (i : Nat) (t : Tick) (s : Schedule), (c.threads[i]?).map Prod.fst = some t ∧
      s ∈ t.scheduler.schedules ∧ s.enabled = true ∧ rules.cronMatches s.cron t.now = .ok true ∧
        row.triggerKey = s.key t.now

/-- However many replicas tick, whenever and however often they do, and however their calls interleave. -/
theorem once_per_minute {db : DB} {labels : List (Pool.Label Tick Call Call.Res)} {c : Replicas}
    (hrun : Replicas.Run rules orchestrators redact ⟨[], db⟩ labels c)
    (hids : ∀ t ∈ c.threads.map Prod.fst, ∀ t' ∈ c.threads.map Prod.fst, ∀ s ∈ t.scheduler.schedules,
      ∀ s' ∈ t'.scheduler.schedules, s.id = s'.id → s.tenantId = s'.tenantId)
    (hyear : ∀ t ∈ c.threads.map Prod.fst, 1000 ≤ t.now.year) :
    OncePerMinute rules orchestrators db labels c := by
  have hserves : Serves redact (Replicas.step orchestrators redact) := fun _ _ _ _ h => ⟨_, h⟩
  have hconfirmed : ∀ i, ∀ event ∈ Pool.trace i labels, Confirmed c.shared event.1 event.2 :=
    fun i event hevent => confirmed_of_run hserves hrun (Pool.mem_trace.mp hevent)
  have hticks : ∀ {i : Nat} {t : Tick}, (c.threads[i]?).map Prod.fst = some t →
      t ∈ c.threads.map Prod.fst := by
    intro i t htag
    rw [← List.getElem?_map] at htag
    exact List.mem_of_getElem? htag
  have hstored : ∀ {i t s run}, Fired rules orchestrators labels c i t s run →
      run.ident ∈ c.shared.idents ∧ run.ident.triggerKey = s.key t.now := by
    intro i t s run hfired
    obtain ⟨hmem, hkey⟩ := hfired.yields.returned (hconfirmed i)
    exact ⟨hmem, hkey.trans (t.triggerKey_wanted s)⟩
  constructor
  case sameRun =>
    intro i j t t' s s' run run' hi hj
    obtain ⟨hmem, hkey⟩ := hstored hi
    obtain ⟨hmem', hkey'⟩ := hstored hj
    constructor
    · intro hid
      have hident : run.ident = run'.ident := ident_eq_of_id hmem hmem' hid
      have hkeys : s.key t.now = s'.key t'.now := by rw [← hkey, ← hkey', hident]
      apply Schedule.messageId_inj (hyear t (hticks hi.tag)) (hyear t' (hticks hj.tag))
      exact congrArg Prod.snd hkeys
    · rintro ⟨hid, hminute⟩
      have htenant := hids t (hticks hi.tag) t' (hticks hj.tag) s hi.yields.mem s' hj.yields.mem hid
      have hkeys : s.key t.now = s'.key t'.now := by
        unfold Schedule.key Schedule.messageId
        rw [htenant, hid, DateTime.slot_congr hminute]
      have hident : run.ident = run'.ident :=
        ident_eq_of_triggerKey hmem hmem' (by rw [hkey, hkey', hkeys])
      exact congrArg RunIdent.id hident
  case atMostOne =>
    intro s now
    by_cases hnone : c.shared.runs.rows.filter (fun row => row.triggerKey = s.key now) = []
    · rw [hnone]
      exact Nat.zero_le 1
    · obtain ⟨row, hrow⟩ := List.exists_mem_of_ne_nil _ hnone
      obtain ⟨hrow, hkey⟩ := List.mem_filter.mp hrow
      obtain ⟨row', hrows, -⟩ := filter_triggerKey (List.mem_map_of_mem hrow) (of_decide_eq_true hkey)
      rw [hrows, List.length_singleton]
  case exactlyOne =>
    intro i t s hcompleted hs henabled hmatches
    obtain ⟨runs, m, hreturns⟩ := hcompleted.returns
    obtain ⟨run, hyields⟩ := Tick.yields_of_returns hreturns (hconfirmed i) hs henabled hmatches
    have hfired : Fired rules orchestrators labels c i t s run := ⟨hcompleted.tag, hyields⟩
    obtain ⟨hmem, hkey⟩ := hstored hfired
    obtain ⟨row, hrows, hid⟩ := filter_triggerKey hmem hkey
    exact ⟨row, run, hrows, hfired, hid.symm⟩
  case noOther =>
    intro row hrow
    rcases created_of_run hserves hrun (List.mem_map_of_mem hrow) with hold | ⟨i, m, run, hlabel, hident⟩
    · exact Or.inl hold
    · obtain ⟨t, htag⟩ := hrun.tag_of_mem hlabel
      have hpath := hrun.path_of_tag (Nat.zero_le i) htag
      obtain ⟨s, hs, henabled, hmatches, rfl⟩ :=
        Tick.wanted_of_insertion hpath (Pool.mem_trace.mpr hlabel)
      have hkey : row.triggerKey = s.key t.now := by
        rw [← t.triggerKey_wanted s, hident]
        rfl
      exact Or.inr ⟨i, t, s, htag, hs, henabled, hmatches, hkey⟩

/-! ### Two replicas -/

def hourlyReport : Schedule :=
  { tenantId := "acme"
    workflowName := "report"
    cron := "0 * * * *"
    id := "sched_1" }

/-- A tick in the first minute of an hour. -/
def hourlyTick (second : Fin 60) (runId : String) : Tick :=
  { scheduler := ⟨[hourlyReport]⟩
    now := .julyMorning second
    workflow := fun s => stopWorkflow s.workflowName
    runId := fun _ => runId
    buffer := fun _ => [] }

/-- Two replicas tick in one minute, their calls interleaved. -/
def twoTicks : List (Pool.Label Tick Call Call.Res) × Replicas :=
  Replicas.play .ascii (fun _ => payDeployment) id (.constant .null)
    ([.spawn (hourlyTick 5 "run-1"), .spawn (hourlyTick 40 "run-2"), .call 1, .call 0, .call 0] ++
      List.replicate 4 (.call 1)) ⟨[], DB.empty⟩

theorem once_per_minute_twoTicks :
    twoTicks.2.shared.runs.rows.map RunRow.id = ["run-2"] ∧
      OncePerMinute .ascii (fun _ => payDeployment) DB.empty twoTicks.1 twoTicks.2 := by
  have htags : twoTicks.2.threads.map Prod.fst = [hourlyTick 5 "run-1", hourlyTick 40 "run-2"] :=
    Pool.play_tags _ _
  refine ⟨by decide +kernel, once_per_minute (Replicas.play_run _ _ _ _ _ _) ?_ ?_⟩
  · rw [htags]
    simp [hourlyTick, DateTime.julyMorning]
  · rw [htags]
    simp [hourlyTick, DateTime.julyMorning]

end Bass
