import Bass.Proof.Bill
import Bass.Proof.Billing

/-!
# The cost of a run is what its calls were charged

The stored cost of a run is the total of the charges that its session has committed, so what it
includes can be read off the order of the calls.
-/

namespace Bass

open Interaction EngineM

variable {d : Deployment} {redact : Json → Json} {runId : String} {tools : ToolRegistry}

abbrev costBill (tools : ToolRegistry) (h : Session.History runId) : Bill Charge :=
  bill (Op.charge tools) h

/-- The committed charges and the pending ones. -/
def total (tools : ToolRegistry) (c₀ : ℚ) (h : Session.History runId) : ℚ :=
  c₀ + totalCost tools (costBill tools h).committed + totalCost tools (costBill tools h).pending

theorem total_of_rejected {c₀ : ℚ} {h h' : Session.History runId} {m : Mem} {op : Op}
    {answer : op.Res} (hrejected : op.accepted answer = false)
    (hh : h' = h ++ [.call ⟨m, op⟩ answer]) :
    total tools c₀ h' = total tools c₀ h + totalCost tools (op.charge tools answer) := by
  subst hh
  rw [total, total, costBill, bill_append_singleton, Bill.step_pending hrejected, totalCost_append,
    ← add_assoc]

theorem total_of_accepted {c₀ : ℚ} {h h' : Session.History runId} {m : Mem} {run : Run}
    {events : List Event} (hh : h' = h ++ [.call ⟨m, .checkpoint run events⟩ (.ok ())]) :
    total tools c₀ h' = total tools c₀ h ∧
      total tools c₀ h = c₀ + totalCost tools (costBill tools h').committed := by
  subst hh
  rw [total, total, costBill, bill_append_singleton, Bill.step_accepted rfl]
  simp [Op.charge, add_assoc]

theorem total_append_env (c₀ : ℚ) (h : Session.History runId) (events : List Outside) :
    total tools c₀ (h ++ events.map Serial.Label.env) = total tools c₀ h := by
  rw [total, total, costBill, bill_append_env]

/-- A call of a service is no checkpoint and is charged nothing. -/
theorem costBill_of_service {h h' : Session.History runId} {m : Mem} {op : Op} {answer : op.Res}
    (hh : h' = h ++ [.call ⟨m, op⟩ answer]) (hop : op.Service) :
    costBill tools h' = costBill tools h := by
  have hrejected : op.accepted answer = false := by
    cases op <;> first | rfl | exact hop.elim
  have hfree : op.charge tools answer = [] := by
    cases op <;> first | rfl | exact hop.elim
  rw [hh, costBill, bill_append_singleton, Bill.step_free hrejected hfree]

/-! ### The specification of an attempt -/

/-- What the driver's copy of the run should cost. -/
def spent (tools : ToolRegistry) (c₀ : ℚ) (_ : Mem) (x : DB × Session.History runId) : ℚ :=
  total tools c₀ x.2

/-- The stored cost is the total of the committed charges. -/
def Priced (tools : ToolRegistry) (c₀ : ℚ) (x : DB × Session.History runId) : Prop :=
  x.1.costOf runId = c₀ + totalCost tools (costBill tools x.2).committed

/-- A checkpoint commits all the charges so far. -/
def Charged (tools : ToolRegistry) (c₀ : ℚ) (x : DB × Session.History runId) (call : Call) : Prop :=
  match call.op with
  | .checkpoint run _ => run.id = runId ∧ (∃ row, x.1.runs.find? runId = some row) ∧
      run.costUsd = total tools c₀ x.2
  | .insertRun run => run.costUsd = 0
  | _ => True

def chargeSpec (d : Deployment) (redact : Json → Json) (runId : String) (c₀ : ℚ) :
    Spec Call Call.Res (DB × Session.History runId) :=
  { step := fun x call answer y => Priced d.engine.tools c₀ x ∧
      Serial.recorded (Call.step d.engine.policy redact) x call answer y
    rely := fun x y => Kept runId x.1 y.1 ∧
      ∃ events : List Outside, y.2 = x.2 ++ events.map Serial.Label.env
    guar := Charged d.engine.tools c₀ }

theorem charged_of_inner {c₀ : ℚ} {x : DB × Session.History runId} {m : Mem} {op : Op}
    (hop : op.Inner) : Charged tools c₀ x ⟨m, op⟩ := by
  cases op <;> trivial

theorem charge_meter (c₀ : ℚ) :
    Meter d.engine.tools (chargeSpec d redact runId c₀) (Holds runId)
      (spent d.engine.tools c₀) where
  memory := fun _ _ _ hsame hm => ⟨⟨hsame.id.trans hm.1, hm.2⟩, rfl⟩
  rely := by
    rintro m x y ⟨hm, row, hrow⟩ ⟨hkept, events, hh⟩
    obtain ⟨row', hrow', -⟩ := hkept.row row hrow
    exact ⟨⟨hm, row', hrow'⟩, by rw [spent, spent, hh, total_append_env]⟩
  guar := fun _ _ _ hop _ => charged_of_inner hop.inner
  free := by
    rintro m x op answer y hop ⟨hm, row, hrow⟩ ⟨-, hs, hh⟩ hfree
    refine ⟨⟨hm, row, find_of_inner hop.inner hs hrow⟩, ?_⟩
    rw [spent, spent, total_of_rejected (hop.inner.rejected _) hh, hfree, totalCost_nil, add_zero]
  paid := by
    rintro m x op answer y ev hop ⟨hm, row, hrow⟩ ⟨-, hs, hh⟩ - hcost
    refine ⟨⟨hm, row, find_of_inner hop.inner hs hrow⟩, ?_⟩
    rw [spent, spent, total_of_rejected (hop.inner.rejected _) hh, hcost]
  untyped := by
    rintro m x agent task scratch resp scratch' y ⟨hm, row, hrow⟩ ⟨-, hs, hh⟩ -
    have hop : (Op.respond agent task scratch).Inner := trivial
    refine ⟨⟨hm, row, find_of_inner hop hs hrow⟩, ?_⟩
    rw [spent, spent, total_of_rejected (hop.rejected _) hh]
    exact congrArg _ (totalCost_singleton _ _)

theorem charge_span (c₀ : ℚ) (step : Step) :
    Act.Keeps (chargeSpec d redact runId c₀) (Metered (Holds runId) (spent d.engine.tools c₀))
      (perform (.stepSpan step)) := by
  refine Act.keeps_perform ?_
  rintro m x ⟨⟨hm, row, hrow⟩, hcost⟩ x₁ ⟨hkept, events, hh₁⟩
  refine ⟨trivial, fun answer y hstep => ?_⟩
  obtain ⟨-, hs, hh⟩ := hstep
  obtain ⟨row₁, hrow₁, -⟩ := hkept.row row hrow
  have hop : (Op.stepSpan step).Inner := trivial
  refine ⟨⟨hm, row₁, find_of_inner hop hs hrow₁⟩, ?_⟩
  rw [hcost, spent, spent, total_of_rejected (hop.rejected _) hh, hh₁, total_append_env]
  simp [Op.charge]

theorem charge_checkpoint (c₀ : ℚ) :
    Act.Keeps (chargeSpec d redact runId c₀)
      (Metered (Holds runId) (spent d.engine.tools c₀)) EngineM.checkpoint := by
  rintro m x ⟨⟨hm, row, hrow⟩, hcost⟩
  refine wp_checkpoint.mpr fun x₁ ⟨hkept, events, hh₁⟩ => ?_
  obtain ⟨row₁, hrow₁, -⟩ := hkept.row row hrow
  have hcost₁ : m.run.costUsd = total d.engine.tools c₀ x₁.2 := by
    rw [hcost, spent, hh₁, total_append_env]
  refine ⟨⟨hm, ⟨row₁, hrow₁⟩, hcost₁⟩, fun answer y hstep => ?_⟩
  obtain ⟨-, hs, hh⟩ := hstep
  cases answer with
  | ok value =>
      subst hm
      obtain ⟨now, hrow'⟩ := row_of_checkpoint hs hrow₁
      refine ⟨⟨rfl, _, hrow'⟩, ?_⟩
      rw [hcost₁, spent, (total_of_accepted hh).1]
  | error e =>
      have hdb : y.1 = x₁.1 := same_of_checkpoint_error hs
      refine ⟨⟨hm, row₁, by rw [hdb]; exact hrow₁⟩, ?_⟩
      rw [hcost₁, spent, total_of_rejected rfl hh]
      simp [Op.charge]

/-! ### Sessions -/

/-- Nothing has been charged since the attempt started. -/
def Unspent (tools : ToolRegistry) (x : DB × Session.History runId) : Prop :=
  (costBill tools x.2).pending = []

theorem charge_entry (d : Deployment) (redact : Json → Json) (c₀ : ℚ) (attempt : Attempt runId) :
    Entry d (chargeSpec d redact runId c₀) (Unspent d.engine.tools)
      (Metered (Holds runId) (spent d.engine.tools c₀)) attempt.request where
  rely := by
    rintro x y hunspent ⟨-, events, hh⟩
    rw [Unspent, hh, costBill, bill_append_env]
    exact hunspent
  early := by
    rintro x m op answer y hunspent ⟨-, -, hh⟩ hop -
    rw [Unspent, costBill_of_service hh hop]
    exact hunspent
  service := by
    intro x m op hop hwanted
    cases op with
    | insertRun run => exact (wanted_ident (hwanted run rfl)).2.1
    | checkpoint run events => exact hop.elim
    | _ => trivial
  loaded := by
    rintro x m tenantId run y hunspent - ⟨hpriced, hload, hh⟩
    obtain ⟨hid, row, hrow, hrow', rfl⟩ := attempt.loaded hload
    refine ⟨⟨hid, row, hrow'⟩, ?_⟩
    rw [spent, total, costBill_of_service hh trivial, hunspent, totalCost_nil, add_zero, ← hpriced,
      DB.costOf_of_find hrow]
    rfl
  created := by
    rintro x m run y hunspent - hwanted ⟨hpriced, hs, hh⟩
    obtain ⟨-, hcost, -⟩ := wanted_ident hwanted
    obtain ⟨hid, hnone, now, hnew⟩ := attempt.inserted hwanted hs
    refine ⟨⟨hid, _, hnew⟩, ?_⟩
    rw [spent, total, costBill_of_service hh trivial, hunspent, totalCost_nil, add_zero, ← hpriced,
      DB.costOf_of_absent hnone]
    exact hcost
  resolve := by
    intro tenantId approvalId approved decidedBy note
    have hmeter : Meter d.engine.tools (chargeSpec d redact runId c₀) (Holds runId)
        (spent d.engine.tools c₀) := charge_meter c₀
    exact metered_perform hmeter trivial fun _ => rfl
  fired := by
    intro m x payload hm
    have hmeter : Meter d.engine.tools (chargeSpec d redact runId c₀) (Holds runId)
        (spent d.engine.tools c₀) := charge_meter c₀
    exact metered_quiet hmeter m _ x (quiet_emit rfl) hm
  resume := by
    rintro cfg wf m x hcfg - hm
    have hmeter : Meter cfg.tools (chargeSpec d redact runId c₀) (Holds runId)
        (spent d.engine.tools c₀) := by
      rcases hcfg with rfl | rfl <;> exact charge_meter c₀
    exact Act.wp_mono _ (fun _ _ _ _ => trivial) (fun _ _ _ _ => trivial)
      ((metered_engine hmeter wf (charge_span c₀) (charge_checkpoint c₀)).resume m x hm)

/-- Whatever a call does, the stored cost is the total of the committed charges. -/
theorem priced_of_step {c₀ : ℚ} {x y : DB × Session.History runId} {call : Call} {answer : call.Res}
    (h : Priced d.engine.tools c₀ x) (hcharged : Charged d.engine.tools c₀ x call)
    (hs : Serial.recorded (Call.step d.engine.policy redact) x call answer y) :
    Priced d.engine.tools c₀ y := by
  obtain ⟨m, op⟩ := call
  obtain ⟨hs, hh⟩ := hs
  have hnew : ∀ run, op = .insertRun run → run.costUsd = 0 := by
    rintro run rfl
    exact hcharged
  cases haccepted : op.accepted answer with
  | true =>
      obtain ⟨run, events, heq⟩ := Op.eq_checkpoint_of_accepted haccepted
      cases heq
      obtain ⟨rfl, ⟨row, hrow⟩, hcost⟩ := hcharged
      obtain ⟨now, hrow'⟩ := row_of_checkpoint hs hrow
      rw [Priced, DB.costOf_of_find hrow', ← (total_of_accepted hh).2]
      exact hcost
  | false =>
      rcases costOf_of_step hs hnew with hcost | ⟨run, events, heq, -, -⟩
      · rw [Priced, hcost, hh, costBill, bill_append_singleton, Bill.step_pending haccepted]
        exact h
      · cases heq
        cases haccepted

theorem charge_discipline (d : Deployment) (redact : Json → Json) (runId : String) (c₀ : ℚ) :
    Serial.Discipline (Call.step d.engine.policy redact)
      (fun attempt : Attempt runId => attempt.request.program d)
      (fun db (event : Outside) db' => event.step d.engine.policy redact runId db db')
      (fun _ _ => True) (Priced d.engine.tools c₀) (chargeSpec d redact runId c₀) (fun _ => True) where
  allowed := fun _ _ _ _ hpriced _ _ hrec => ⟨hpriced, hrec⟩
  refl := fun x _ => ⟨Kept.refl runId x.1, [], (List.append_nil _).symm⟩
  trans := by
    rintro x y z ⟨hkept, events, hh⟩ ⟨hkept', events', hh'⟩
    exact ⟨hkept.trans hkept', events ++ events', by rw [hh', hh, List.map_append, List.append_assoc]⟩
  stable := fun _ _ _ _ => trivial
  call := fun _ _ _ _ hpriced hcharged _ hrec => priced_of_step hpriced hcharged hrec
  env := by
    intro db h event db' hpriced _ henv
    have hkept := kept_of_outside henv
    have hbill : costBill d.engine.tools (h ++ [.env event]) = costBill d.engine.tools h :=
      bill_append_env _ h [event]
    refine ⟨?_, hkept, [event], rfl⟩
    rw [Priced, hkept.costOf, hbill]
    exact hpriced
  start := by
    intro db h attempt hpriced _
    have hbill : costBill d.engine.tools (h ++ [.start attempt]) =
        (costBill d.engine.tools h).step (Op.charge d.engine.tools) (.start attempt) :=
      bill_append_singleton _ _ _
    have hpriced' : Priced d.engine.tools c₀ (db, h ++ [.start attempt]) := by
      rw [Priced, hbill]
      exact hpriced
    exact ⟨hpriced', (charge_entry d redact c₀ attempt).program attempt.driver (by rw [Unspent, hbill]; rfl)⟩

/-- In every state that a session of a run reaches, the run costs what its committed calls were
charged. -/
theorem priced_of_run {db : DB} {labels : Session.History runId} {c : Session}
    (hrun : Session.Run d redact runId (Session.idle db) labels c) :
    c.shared.costOf runId =
      db.costOf runId + totalCost d.engine.tools (costBill d.engine.tools labels).committed := by
  have hpriced : Priced d.engine.tools (db.costOf runId) (db, ([] : Session.History runId)) := by
    simp [Priced]
  exact (hrun.good (charge_discipline d redact runId (db.costOf runId)) (fun _ _ _ _ => trivial)
    (.idle hpriced trivial)).inv

end Bass
