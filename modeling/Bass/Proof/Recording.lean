import Bass.Proof.Charges

/-!
# What a recorded effect adds to the cost

The ledger row of a tool step and its cost are committed by two calls. Where no crash separates them
and no step is recorded twice, every ledger row of the run stands for one committed charge.
-/

namespace Bass

open Interaction

variable {d : Deployment} {redact : Json → Json} {runId : String} {tools : ToolRegistry}

/-- The tool step whose effect a call records. -/
def Op.record? : Op → Option (String × String)
  | .recordEffect _ _ _ stepId tool _ => some (stepId, tool)
  | _ => none

/-- The call records an effect. -/
def Op.isRecord (op : Op) : Bool := op.record?.isSome

/-- The tool steps whose effects the attempts recorded, in order. -/
def Session.records (h : Session.History runId) : List (String × String) :=
  charges (fun op _ => op.record?.toList) h

theorem records_append_singleton (h : Session.History runId) (label : Session.Label runId) :
    Session.records (h ++ [label]) = Session.records h ++ Session.records [label] := by
  simp [Session.records, charges]

/-! ### The part of a bill that was recorded -/

/-- The tool step a charge is for, if it is for a recorded effect. -/
def Charge.record? : Charge → Option (String × String)
  | .recorded stepId name => some (stepId, name)
  | _ => none

theorem record?_charge (tools : ToolRegistry) (op : Op) (answer : op.Res) :
    op.record?.toList = (op.charge tools answer).filterMap Charge.record? := by
  cases op with
  | execute caller name args =>
      cases caller <;> cases answer <;> simp only [Op.charge] <;> try rfl
      split <;> rfl
  | respond agent task scratch => cases answer <;> rfl
  | _ => rfl

theorem count_record? (bill : List Charge) (stepId tool : String) :
    (bill.filterMap Charge.record?).count (stepId, tool) = bill.count (.recorded stepId tool) := by
  induction bill with
  | nil => rfl
  | cons charge bill ih =>
      cases charge with
      | recorded stepId' tool' =>
          by_cases heq : (stepId', tool') = (stepId, tool)
          · cases heq
            simp [Charge.record?, ih]
          · have hcharge : Charge.recorded stepId' tool' ≠ .recorded stepId tool := by
              rintro ⟨⟩
              exact heq rfl
            rw [List.filterMap_cons_some (by rfl), List.count_cons_of_ne heq,
              List.count_cons_of_ne hcharge, ih]
      | model cost =>
          have hcharge : Charge.model cost ≠ .recorded stepId tool := nofun
          rw [List.filterMap_cons_none (by rfl), List.count_cons_of_ne hcharge, ih]
      | called caller name =>
          have hcharge : Charge.called caller name ≠ .recorded stepId tool := nofun
          rw [List.filterMap_cons_none (by rfl), List.count_cons_of_ne hcharge, ih]

/-- A session that settles has committed a charge for every record. -/
theorem recorded_of_settled {labels : Session.History runId}
    (hsettled : Session.Settled Op.isRecord labels) :
    (costBill tools labels).committed.filterMap Charge.record? = Session.records labels := by
  have hfree : ∀ (op : Op) (_ : op.Res), op.isRecord = false → op.record?.toList = [] := by
    intro op _ h
    rw [Option.isSome_eq_false_iff.mp h |> Option.isNone_iff_eq_none.mp, Option.toList_none]
  rw [Session.records, ← committed_of_settled hfree hsettled,
    bill_part List.filterMap_nil (fun _ _ => List.filterMap_append) (record?_charge tools)]

/-! ### The ledger -/

/-- The ledger rows of the run were recorded by its attempts. -/
theorem records_of_run {h : Session.History runId} {c c' : Session} {labels : Session.History runId}
    (hrun : Session.Run d redact runId c labels c')
    (hledger : ∀ effect ∈ c.shared.toolEffects.rows, effect.runId = runId →
      ∃ stepId, effect.stepId = some stepId ∧ (stepId, effect.tool) ∈ Session.records h) :
    ∀ effect ∈ c'.shared.toolEffects.rows, effect.runId = runId →
      ∃ stepId, effect.stepId = some stepId ∧
        (stepId, effect.tool) ∈ Session.records (h ++ labels) := by
  induction hrun generalizing h with
  | nil c => simpa using hledger
  | @cons c c₁ c' label labels head _ ih =>
      rw [← List.singleton_append, ← List.append_assoc]
      refine ih fun effect heffect hid => ?_
      have hold : effect ∈ c.shared.toolEffects.rows → ∃ stepId, effect.stepId = some stepId ∧
          (stepId, effect.tool) ∈ Session.records (h ++ [label]) := by
        intro hmem
        obtain ⟨stepId, hstep, hrecord⟩ := hledger effect hmem hid
        refine ⟨stepId, hstep, ?_⟩
        rw [records_append_singleton]
        exact List.mem_append_left _ hrecord
      cases head with
      | start c attempt => exact hold heffect
      | @call call next s s' answer hstep =>
          rcases effects_of_step hstep with hsame | ⟨_, _, _, stepId, tool, _, _, hop, hinsert⟩
          · rw [hsame] at heffect
            exact hold heffect
          · change effect ∈ s'.toolEffects.rows at heffect
            rw [hinsert] at heffect
            rcases Table.mem_insert heffect with hmem | rfl
            · exact hold hmem
            · refine ⟨stepId, rfl, ?_⟩
              rw [records_append_singleton]
              refine List.mem_append_right _ ?_
              simp [Session.records, charges, hop, Op.record?]
      | @env p s s' event henv => exact hold ((kept_of_outside henv).effects effect heffect hid)

/-- **Billed exactly once.** In every state that a session reaches without a crash between a record of
an effect and its checkpoint, and in which no tool step was recorded twice, the run costs what the
committed charges add up to, and every effect recorded for it is one of them. -/
theorem recorded_once {db : DB} {labels : Session.History runId} {c : Session}
    (hledger : ∀ effect ∈ db.toolEffects.rows, effect.runId ≠ runId)
    (hrun : Session.Run d redact runId (Session.idle db) labels c)
    (hsettled : Session.Settled Op.isRecord labels) (hdistinct : (Session.records labels).Nodup) :
    c.shared.costOf runId =
        db.costOf runId + totalCost d.engine.tools (costBill d.engine.tools labels).committed ∧
      ∀ effect ∈ c.shared.toolEffects.rows, effect.runId = runId →
        ∃ stepId, effect.stepId = some stepId ∧
          (costBill d.engine.tools labels).committed.count (.recorded stepId effect.tool) = 1 := by
  refine ⟨priced_of_run hrun, fun effect heffect hid => ?_⟩
  have hold : ∀ effect ∈ db.toolEffects.rows, effect.runId = runId → ∃ stepId,
      effect.stepId = some stepId ∧ (stepId, effect.tool) ∈ Session.records ([] : Session.History runId) :=
    fun effect hmem heq => absurd heq (hledger effect hmem)
  obtain ⟨stepId, hstep, hmem⟩ := records_of_run hrun hold effect heffect hid
  refine ⟨stepId, hstep, ?_⟩
  rw [List.nil_append] at hmem
  calc
    (costBill d.engine.tools labels).committed.count (.recorded stepId effect.tool) =
        ((costBill d.engine.tools labels).committed.filterMap Charge.record?).count
          (stepId, effect.tool) := (count_record? _ _ _).symm
    _ = (Session.records labels).count (stepId, effect.tool) := by rw [recorded_of_settled hsettled]
    _ = 1 := List.count_eq_one_of_mem hdistinct hmem

/-! ### A charge that is lost -/

/-- The small deployment, with a price on the tool. -/
def pricedDeployment (price : ℚ) : Deployment :=
  { payDeployment with
    engine :=
      { payDeployment.engine with
        tools :=
          { tools := Dict.ofList [("pay", { payTool with costUsd := price })]
            connectors := ["bank"]
            named := fun entry h => by rw [List.mem_singleton.mp h]; rfl
            connected := fun entry h => by
              rw [List.mem_singleton.mp h]
              exact List.mem_singleton_self _ } } }

/-- The first attempt is abandoned after `n` calls, and the second one is not. -/
def pricedSession (price : ℚ) (n : Nat) : Session.History "run" × Session :=
  Session.play (pricedDeployment price) id (World.constant (.int 7))
    (.start (resumeAttempt "run") :: List.replicate n .call ++
      .start (resumeAttempt "run") :: List.replicate 7 .call)
    (Session.idle (DB.withRun "run" "payments"))

theorem pricedSession_run (price : ℚ) (n : Nat) : Session.Run (pricedDeployment price) id "run"
    (Session.idle (DB.withRun "run" "payments")) (pricedSession price n).1 (pricedSession price n).2 :=
  Session.play_run (pricedDeployment price) id _ _ (by simp) _

/-- Abandoned before the tool is executed, and so settled. -/
theorem recorded_once_retried :
    (pricedSession 1 4).2.shared.costOf "run" = (DB.withRun "run" "payments").costOf "run" +
        totalCost (pricedDeployment 1).engine.tools
          (costBill (pricedDeployment 1).engine.tools (pricedSession 1 4).1).committed ∧
      ∀ effect ∈ (pricedSession 1 4).2.shared.toolEffects.rows, effect.runId = "run" →
        ∃ stepId, effect.stepId = some stepId ∧
          (costBill (pricedDeployment 1).engine.tools (pricedSession 1 4).1).committed.count
            (.recorded stepId effect.tool) = 1 :=
  recorded_once nofun (pricedSession_run 1 4) (by decide) (by decide)

/-- Abandoned between the record of the effect and the checkpoint: the run succeeds and has cost
nothing. -/
theorem recorded_unbilled :
    Session.Run (pricedDeployment 1) id "run" (Session.idle (DB.withRun "run" "payments"))
        (pricedSession 1 6).1 (pricedSession 1 6).2 ∧
      (DB.withRun "run" "payments").costOf "run" = 0 ∧
      (∃ row, (pricedSession 1 6).2.shared.runs.find? "run" = some row ∧
        row.status = .succeeded ∧ row.costUsd = 0) ∧
      ∃ effect ∈ (pricedSession 1 6).2.shared.toolEffects.rows, effect.runId = "run" ∧
        effect.stepId = some "pay" ∧ effect.tool = "pay" ∧
          (pricedDeployment 1).engine.tools.cost effect.tool = 1 := by
  refine ⟨pricedSession_run 1 6, rfl, ⟨_, rfl, rfl, rfl⟩, ?_⟩
  exact ⟨_, List.mem_cons_self, rfl, rfl, rfl, rfl⟩

end Bass
