import Bass.Proof.EngineInvariant
import Bass.Proof.StoreLemmas

/-!
# Deduplication of triggers

A fire creates a run unless the store already has one for its tenant and key, and then returns that
one, whichever workflow it belongs to. The identity of a stored run never changes, so all fires with
one key return the run of the first of them.
-/

namespace Bass

open Interaction EngineM

variable {d : Deployment} {redact : Json → Json}

/-! ### Identities of stored runs -/

/-- The columns of `runs` that no update touches. -/
structure RunIdent where
  id : String
  workflowId : String
  triggerKey : String × String
  deriving DecidableEq

def RunRow.ident (row : RunRow) : RunIdent := ⟨row.id, row.workflowId, row.triggerKey⟩

def Run.ident (run : Run) : RunIdent := ⟨run.id, run.workflowId, run.tenantId, run.idempotencyKey⟩

def DB.idents (db : DB) : List RunIdent := db.runs.rows.map RunRow.ident

theorem idents_update {db : DB} {p : RunRow → Bool} {f : RunRow → RunRow}
    {hf : ∀ r, (f r).id = r.id} (hident : ∀ r, (f r).ident = r.ident) :
    (db.runs.update p f hf).rows.map RunRow.ident = db.idents := by
  unfold Table.update DB.idents
  rw [List.map_map]
  refine List.map_congr_left fun r _ => ?_
  by_cases hp : p r <;> simp [hp, hident]

theorem idents_of_runs_eq {db db' : DB} (h : db'.runs = db.runs) : db'.idents = db.idents := by
  rw [DB.idents, DB.idents, h]

/-- Only `insertRun` adds a run, and nothing changes the identity of one. -/
theorem idents_of_step {policy : PolicyEngine} {db db' : DB} {op : Op} {answer : op.Res}
    (h : op.step policy redact db answer db') (hop : ∀ run, op ≠ .insertRun run) :
    db'.idents = db.idents := by
  cases op with
  | insertRun run => exact absurd rfl (hop run)
  | checkpoint run events =>
      obtain ⟨now, hcommits⟩ := h
      rcases commits_map_cases hcommits with ⟨hcp, -⟩ | ⟨e, -, -, rfl⟩
      · rw [DB.idents, (DB.checkpoint_ok hcp).2.2.1]
        exact idents_update fun _ => rfl
      · rfl
  | cancelRun tenantId target =>
      obtain ⟨now, hcommits⟩ := h
      rcases hcommits.cases with ⟨canceled, htx, -⟩ | ⟨e, -, -, rfl⟩
      · rcases DB.cancelRun_ok htx with ⟨-, rfl⟩ | ⟨-, -, hruns, -⟩
        · rfl
        · rw [DB.idents, hruns]
          exact idents_update fun _ => rfl
      · rfl
  | createApproval tenantId runId stepId approvers =>
      obtain ⟨approvalId, now, hcommits⟩ := h
      rcases commits_map_cases hcommits with ⟨hca, -⟩ | ⟨e, -, -, rfl⟩
      · exact idents_of_runs_eq (DB.createApproval_ok hca).2.2.1
      · rfl
  | resolveApproval tenantId approvalId approved decidedBy note =>
      obtain ⟨now, hcommits⟩ := h
      rcases commits_map_cases hcommits with ⟨hra, -⟩ | ⟨e, -, -, rfl⟩
      · exact idents_of_runs_eq (DB.resolveApproval_ok hra).2.1
      · rfl
  | ensureTenant | recordEffect =>
      obtain ⟨now, rfl⟩ := h
      rfl
  | loadRun | loadRunByKey | getEffect | latestApproval | policyCheck | execute =>
      obtain ⟨-, rfl⟩ := h
      rfl
  | allowRequest | stepSpan | respond | approvalFn =>
      obtain rfl := h
      rfl

theorem idents_of_insertRun {db db' : DB} {run : Run} {now : ℕ → ℚ} {inserted : Bool}
    (h : (db', inserted) = db.insertRun run now) :
    (inserted = true ∧ db'.idents = db.idents ++ [run.ident] ∧
      ∀ ident ∈ db.idents, ident.triggerKey ≠ run.ident.triggerKey) ∨
      (inserted = false ∧ db' = db) := by
  unfold DB.insertRun at h
  split at h
  · rename_i hfree
    cases h
    refine Or.inl ⟨rfl, ?_, fun ident hmem => ?_⟩
    · rw [DB.idents, Table.insert_of_none (DB.find?_of_not_conflicts hfree), List.map_append]
      rfl
    · obtain ⟨row, hrow, rfl⟩ := List.mem_map.mp hmem
      exact DB.triggerKey_of_not_conflicts hfree row hrow
  · cases h
    exact Or.inr ⟨rfl, rfl⟩

/-- Run ids are unique, so a loaded run has the identity stored under its id. -/
theorem ident_of_loadRun {db : DB} {tenantId : String} {run : Run} {ident : RunIdent}
    (h : db.loadRun tenantId ident.id = .ok (some run)) (hmem : ident ∈ db.idents) :
    run.ident = ident := by
  unfold DB.loadRun at h
  split at h
  · rename_i row hrow
    unfold DB.rowToRun at h
    split at h
    · cases h
      obtain ⟨row', hrow', rfl⟩ := List.mem_map.mp hmem
      have hsame : row = row' := List.inj_on_of_nodup_map db.runs.nodup (Table.mem_of_find? hrow)
        hrow' (Table.key_of_find? hrow)
      subst hsame
      rfl
    · cases h
  · cases h

theorem ident_of_loadRunByKey {db : DB} {tenantId key : String} {run : Run}
    (h : db.loadRunByKey tenantId key = .ok (some run)) :
    run.ident ∈ db.idents ∧ run.ident.triggerKey = (tenantId, key) := by
  unfold DB.loadRunByKey at h
  split at h
  · rename_i row hrow
    unfold DB.rowToRun at h
    split at h
    · cases h
      have hkey : row.triggerKey = (tenantId, key) := by simpa using List.find?_some hrow
      exact ⟨List.mem_map_of_mem (List.mem_of_find?_eq_some hrow), hkey⟩
    · cases h
  · cases h

/-! ### One fire -/

/-- A fire runs with nobody interfering. -/
abbrev fireSpec (d : Deployment) (redact : Json → Json) : Spec Call Call.Res DB :=
  .sequential (Call.step d.engine.policy redact) fun _ _ => True

/-- What a fire that wanted to create `wanted` leaves behind. -/
def Registered (db : DB) (wanted : Run) (db' : DB) : Prop :=
  db'.idents = db.idents ∨ (db'.idents = db.idents ++ [wanted.ident] ∧
    ∀ ident ∈ db.idents, ident.triggerKey ≠ wanted.ident.triggerKey)

/-- What a fire that wanted to create `wanted` may return: a stored run under the same key. -/
def Returned (wanted run : Run) (db' : DB) : Prop :=
  run.ident ∈ db'.idents ∧ run.ident.triggerKey = wanted.ident.triggerKey

theorem wp_createOrGetRun_fire {run : Run} {Q : Run × Bool → Mem → DB → Prop}
    {E : Exc → Mem → DB → Prop} {m : Mem} {db : DB}
    (hnew : ∀ db', db'.idents = db.idents ++ [run.ident] →
      (∀ ident ∈ db.idents, ident.triggerKey ≠ run.ident.triggerKey) → Q (run, true) m db')
    (hold : ∀ existing, existing.ident ∈ db.idents →
      existing.ident.triggerKey = run.ident.triggerKey → Q (existing, false) m db)
    (hE : ∀ e, E e m db) :
    Act.wp (fireSpec d redact) (createOrGetRun run) Q E m db := by
  refine (Act.wp_perform_bind _ _).mpr ?_
  rintro _ rfl
  refine ⟨trivial, fun inserted db₁ ⟨now, hinsert⟩ => ?_⟩
  rcases idents_of_insertRun hinsert with ⟨rfl, hidents, hfree⟩ | ⟨rfl, rfl⟩
  · exact hnew db₁ hidents hfree
  · refine (Act.wp_perform_bind _ _).mpr ?_
    rintro _ rfl
    refine ⟨trivial, fun answer db₂ hs => ?_⟩
    obtain ⟨rfl, rfl⟩ := hs
    refine (Act.wp_ofExcept_bind _ _).mpr ?_
    split
    · rename_i found hfound
      cases found with
      | none => exact hE _
      | some existing =>
          obtain ⟨hmem, hkey⟩ := ident_of_loadRunByKey hfound
          exact hold existing hmem hkey
    · exact hE _

/-- The engine neither creates runs nor forgets which one it drives. -/
theorem engineInv_ident (cfg : EngineConfig) (wf : Workflow) (idents : List RunIdent)
    (ident : RunIdent) :
    EngineInv cfg wf (fireSpec d redact) fun m db => db.idents = idents ∧ m.run.ident = ident := by
  have hcall : ∀ op : Op, (∀ run, op ≠ .insertRun run) → ∀ m db,
      (db.idents = idents ∧ m.run.ident = ident) → ∀ db₁, (fireSpec d redact).rely db db₁ →
      (fireSpec d redact).guar db₁ ⟨m, op⟩ ∧ ∀ answer db', (fireSpec d redact).step db₁ ⟨m, op⟩
        answer db' → db'.idents = idents ∧ m.run.ident = ident := by
    rintro op hop m db ⟨hidents, hident⟩ _ rfl
    exact ⟨trivial, fun answer db' hs => ⟨(idents_of_step hs hop).trans hidents, hident⟩⟩
  have hmem : ∀ (m m' : Mem) (db : DB), SameIdent m m' →
      (db.idents = idents ∧ m.run.ident = ident) → db.idents = idents ∧ m'.run.ident = ident := by
    rintro m m' db hsame ⟨hidents, hident⟩
    refine ⟨hidents, ?_⟩
    rw [← hident, Run.ident, Run.ident, hsame.id, hsame.workflowId, hsame.tenantId,
      hsame.idempotencyKey]
  refine engineInv_of_calls hmem (fun _ _ hJ => hJ) (fun op hop => ?_) wf ?_
  · exact Act.keeps_perform fun m db hJ => hcall op hop.ne_insertRun m db hJ
  · refine keeps_checkpoint_call fun m db hJ db₁ hrely => ?_
    have hop : ∀ run, Op.checkpoint m.run m.buffer ≠ .insertRun run := fun _ h => nomatch h
    obtain ⟨hguar, hkept⟩ := hcall _ hop m db hJ db₁ hrely
    exact ⟨hguar, fun answer db' hs => ⟨hkept answer db' hs, hkept answer db' hs⟩⟩

section Fire

variable {db : DB} {run : Run}

/-- The engine drives the run that the fire has just created. -/
theorem fire_resume (cfg : EngineConfig) (wf : Workflow) {m : Mem} {db' : DB} (hstored : Registered db run db')
    (hnew : run.ident ∈ db'.idents) (hrun : m.run.ident = run.ident) :
    Act.wp (fireSpec d redact) (WorkflowEngine.resume cfg wf)
      (fun _ m db' => m.run.ident = run.ident ∧ Registered db run db' ∧ run.ident ∈ db'.idents)
      (fun _ m db' => m.run.ident = run.ident ∧ Registered db run db' ∧ run.ident ∈ db'.idents)
      m db' := by
  have hkept : ∀ (m' : Mem) (db₁ : DB), (db₁.idents = db'.idents ∧ m'.run.ident = run.ident) →
      m'.run.ident = run.ident ∧ Registered db run db₁ ∧ run.ident ∈ db₁.idents := by
    rintro m' db₁ ⟨hidents, hident⟩
    refine ⟨hident, ?_, hidents ▸ hnew⟩
    rw [Registered, hidents]
    exact hstored
  exact Act.wp_mono _ (fun _ m' db₁ h => hkept m' db₁ h) (fun _ m' db₁ h => hkept m' db₁ h)
    ((engineInv_ident cfg wf db'.idents run.ident).resume m db' ⟨rfl, hrun⟩)

theorem fire_safeResume (wf : Workflow) {m : Mem} {db' : DB} (hstored : Registered db run db')
    (hnew : run.ident ∈ db'.idents) (hrun : m.run.ident = run.ident) :
    Act.wp (fireSpec d redact) (ApiService.safeResume d wf)
      (fun result _ db' => Registered db run db' ∧ Returned run result db')
      (fun _ _ db' => Registered db run db') m db' := by
  have hreturned : ∀ (m' : Mem) (db₁ : DB), m'.run.ident = run.ident → run.ident ∈ db₁.idents →
      Returned run m'.run db₁ := by
    intro m' db₁ hident hmem
    rw [Returned, hident]
    exact ⟨hmem, rfl⟩
  refine (Act.wp_tryCatch _ _).mpr ((Act.wp_bind _ _).mpr ?_)
  refine Act.wp_mono _ ?_ ?_ (fire_resume _ wf hstored hnew hrun)
  · rintro - m' db₁ ⟨hident, hstored₁, hmem⟩
    exact ⟨hstored₁, hreturned m' db₁ hident hmem⟩
  · rintro e m' db₁ ⟨hident, hstored₁, hmem⟩
    split
    · refine (wp_getRun_bind _).mpr ((Act.wp_perform_bind _ _).mpr ?_)
      rintro _ rfl
      refine ⟨trivial, fun answer db₂ hs => ?_⟩
      obtain ⟨rfl, rfl⟩ := hs
      refine (Act.wp_ofExcept_bind _ _).mpr ?_
      split
      · rename_i found hfound
        cases found with
        | none => exact ⟨hstored₁, hreturned m' db₂ hident hmem⟩
        | some reloaded =>
            have hload : db₂.loadRun m'.run.tenantId run.ident.id = .ok (some reloaded) := by
              rw [← hident]
              exact hfound
            have hsame := ident_of_loadRun hload hmem
            refine ⟨hstored₁, ?_⟩
            rw [Returned, Option.getD_some, hsame]
            exact ⟨hmem, rfl⟩
      · exact hstored₁
    · exact hstored₁

/-- A fire returns a stored run with the key of the run it wanted, and creates that run only if no
run with the key was stored. -/
theorem fire_spec {request : Request} {wanted : Run} (hwanted : request.wanted d = some wanted)
    (db : DB) :
    Act.wp (fireSpec d redact) (request.code d)
      (fun result _ db' => Registered db wanted db' ∧ Returned wanted result db')
      (fun _ _ db' => Registered db wanted db') request.memory db := by
  have hnew : ∀ db' : DB, db'.idents = db.idents ++ [wanted.ident] →
      wanted.ident ∈ db'.idents := by
    intro db' hidents
    rw [hidents]
    exact List.mem_append_right _ (List.mem_singleton_self _)
  cases request with
  | orchestratorFire tenantId runId wf trigger buffer =>
      obtain rfl := Option.some.inj hwanted
      refine (wp_modifyRun_bind _ _).mpr ((wp_getRun_bind _).mpr ((Act.wp_bind _ _).mpr ?_))
      refine wp_createOrGetRun_fire (fun db' hidents hfree => ?_)
        (fun existing hmem hkey => ⟨Or.inl rfl, hmem, hkey⟩) fun _ => Or.inl rfl
      refine (wp_emit_bind _ _ _ _ _ _).mpr ((Act.wp_bind _ _).mpr ?_)
      refine Act.wp_mono _ ?_ (fun _ _ _ h => h.2.1)
        (fire_resume _ wf (Or.inr ⟨hidents, hfree⟩) (hnew db' hidents) rfl)
      rintro - m db₁ ⟨hident, hstored, hmem⟩
      refine ⟨hstored, ?_⟩
      rw [Returned, hident]
      exact ⟨hmem, rfl⟩
  | apiFire tenantId runId wfName trigger =>
      obtain ⟨wf, hwf, rfl⟩ := Option.map_eq_some_iff.mp hwanted
      refine (Act.wp_ofExcept_bind _ _).mpr ?_
      rw [hwf]
      refine (Act.wp_perform_bind _ _).mpr ?_
      rintro _ rfl
      refine ⟨trivial, fun allowed db₁ hs => ?_⟩
      obtain rfl : db₁ = db := hs
      cases allowed with
      | false => exact Or.inl rfl
      | true =>
          refine (Act.wp_perform_bind _ _).mpr ?_
          rintro _ rfl
          refine ⟨trivial, fun _ db₂ hs => ?_⟩
          have hsame : db₂.idents = db₁.idents := by
            obtain ⟨now, rfl⟩ := hs
            rfl
          refine (wp_modifyRun_bind _ _).mpr ((wp_getRun_bind _).mpr ((Act.wp_bind _ _).mpr ?_))
          refine wp_createOrGetRun_fire (fun db' hidents hfree => ?_)
            (fun existing hmem hkey => ⟨Or.inl hsame, hmem, hkey⟩) fun _ => Or.inl hsame
          rw [hsame] at hidents hfree
          exact (wp_emit_bind _ _ _ _ _ _).mpr
            (fire_safeResume wf (Or.inr ⟨hidents, hfree⟩) (hnew db' hidents) rfl)
  | orchestratorResume | runnerResume | apiResolve | apiCancel => cases hwanted

end Fire

/-! ### Sequences of fires -/

/-- The fires of `done` and the runs they have left in the store. -/
structure FiresGood (d : Deployment) (done : List (Request × Except Exc Run)) (db : DB) : Prop where
  /-- Every stored run was wanted by a fire before which no fire with its key returned a run. -/
  creator : ∀ ident ∈ db.idents, ∃ (j : Nat) (request : Request) (outcome : Except Exc Run)
    (wanted : Run), done[j]? = some (request, outcome) ∧ request.wanted d = some wanted ∧
      wanted.ident = ident ∧ ∀ k < j, ∀ request run other, done[k]? = some (request, .ok run) →
        request.wanted d = some other → other.ident.triggerKey ≠ wanted.ident.triggerKey
  /-- Every fire that returned a run returned a stored one with its own key. -/
  returned : ∀ (k : Nat) request run wanted, done[k]? = some (request, .ok run) →
    request.wanted d = some wanted → Returned wanted run db

theorem FiresGood.nil : FiresGood d [] DB.empty where
  creator := fun _ h => absurd h List.not_mem_nil
  returned := fun _ _ _ _ h _ => by simp at h

theorem getElem?_concat_cases {α : Type} {l : List α} {x y : α} {i : Nat}
    (h : (l ++ [x])[i]? = some y) : (i < l.length ∧ l[i]? = some y) ∨ (i = l.length ∧ x = y) := by
  rcases Nat.lt_trichotomy i l.length with hlt | rfl | hgt
  · rw [List.getElem?_append_left hlt] at h
    exact Or.inl ⟨hlt, h⟩
  · rw [List.getElem?_concat_length] at h
    exact Or.inr ⟨rfl, Option.some.inj h⟩
  · rw [List.getElem?_eq_none (by simp; omega)] at h
    cases h

theorem FiresGood.fire {done : List (Request × Except Exc Run)} {db db' : DB} {request : Request}
    {wanted : Run} {outcome : Except Exc Run} (h : FiresGood d done db)
    (hwanted : request.wanted d = some wanted) (hstored : Registered db wanted db')
    (hreturned : ∀ run, outcome = .ok run → Returned wanted run db') :
    FiresGood d (done ++ [(request, outcome)]) db' := by
  have hkept : ∀ ident ∈ db.idents, ident ∈ db'.idents := by
    intro ident hmem
    rcases hstored with hsame | ⟨hadded, -⟩
    · rwa [hsame]
    · rw [hadded]
      exact List.mem_append_left _ hmem
  constructor
  · intro ident hmem
    have hcase : ident ∈ db.idents ∨ (ident = wanted.ident ∧
        ∀ ident ∈ db.idents, ident.triggerKey ≠ wanted.ident.triggerKey) := by
      rcases hstored with hsame | ⟨hadded, hfree⟩
      · exact Or.inl (hsame ▸ hmem)
      · rw [hadded, List.mem_append, List.mem_singleton] at hmem
        exact hmem.imp_right fun heq => ⟨heq, hfree⟩
    rcases hcase with hold | ⟨rfl, hfree⟩
    · obtain ⟨j, request', outcome', wanted', hj, hwanted', hident, hfirst⟩ := h.creator ident hold
      obtain ⟨hlt, -⟩ := List.getElem?_eq_some_iff.mp hj
      refine ⟨j, request', outcome', wanted', ?_, hwanted', hident, fun k hk r run other hget => ?_⟩
      · rw [List.getElem?_append_left hlt]
        exact hj
      · rw [List.getElem?_append_left (by omega)] at hget
        exact hfirst k hk r run other hget
    · refine ⟨done.length, request, outcome, wanted, List.getElem?_concat_length, hwanted, rfl, ?_⟩
      intro k hk r run other hget hother
      rw [List.getElem?_append_left hk] at hget
      obtain ⟨hmem', hkey⟩ := h.returned k r run other hget hother
      rw [← hkey]
      exact hfree _ hmem'
  · intro k r run other hget hother
    rcases getElem?_concat_cases hget with ⟨-, hold⟩ | ⟨-, hnew⟩
    · exact (h.returned k r run other hold hother).imp_left (hkept _)
    · obtain ⟨rfl, rfl⟩ := Prod.mk.inj hnew
      obtain rfl : wanted = other := Option.some.inj (hwanted.symm.trans hother)
      exact hreturned run rfl

theorem Fires.good {done fires : List (Request × Except Exc Run)} {db db' : DB}
    (hfires : Fires d redact db fires db') (h : FiresGood d done db) :
    FiresGood d (done ++ fires) db' := by
  induction hfires generalizing done with
  | nil db => rwa [List.append_nil]
  | @cons db db₁ db' request wanted outcome m trace fires hwanted head tail ih =>
      have hspec := head.wp (fire_spec hwanted db)
      have hstored : Registered db wanted db₁ := by
        cases outcome with
        | ok run => exact hspec.1
        | error e => exact hspec
      have hreturned : ∀ run, outcome = .ok run → Returned wanted run db₁ := by
        rintro run rfl
        exact hspec.2
      have := ih (h.fire hwanted hstored hreturned)
      rwa [List.append_assoc] at this

/-- A fire that returns a run returns the run that the first fire with its tenant and key to return
or create one created, and so a run of that fire's workflow. -/
theorem fire_returns_first {fires : List (Request × Except Exc Run)} {db : DB}
    (hfires : Fires d redact DB.empty fires db) {i : Nat} {request : Request} {run wanted : Run}
    (hi : fires[i]? = some (request, .ok run)) (hwanted : request.wanted d = some wanted) :
    ∃ j ≤ i, ∃ (request' : Request) (outcome : Except Exc Run) (first : Run),
      fires[j]? = some (request', outcome) ∧ request'.wanted d = some first ∧
      (first.tenantId, first.idempotencyKey) = (wanted.tenantId, wanted.idempotencyKey) ∧
      run.id = first.id ∧ run.workflowId = first.workflowId ∧
      ∀ k < j, ∀ request run other, fires[k]? = some (request, .ok run) →
        request.wanted d = some other →
        (other.tenantId, other.idempotencyKey) ≠ (wanted.tenantId, wanted.idempotencyKey) := by
  have hgood : FiresGood d fires db := by simpa using hfires.good FiresGood.nil
  obtain ⟨hmem, hkey⟩ := hgood.returned i request run wanted hi hwanted
  obtain ⟨j, request', outcome, first, hj, hfirst, hident, hbefore⟩ := hgood.creator _ hmem
  have hsamekey : first.ident.triggerKey = wanted.ident.triggerKey := by rw [hident, hkey]
  have hle : j ≤ i := by
    by_contra hlt
    exact hbefore i (by omega) request run wanted hi hwanted hsamekey.symm
  refine ⟨j, hle, request', outcome, first, hj, hfirst, hsamekey, ?_, ?_, ?_⟩
  · exact (congrArg RunIdent.id hident).symm
  · exact (congrArg RunIdent.workflowId hident).symm
  · intro k hk r run' other hget hother heq
    exact hbefore k hk r run' other hget hother (heq.trans hsamekey.symm)

/-- A workflow that ends at once. -/
def stopWorkflow (name : String) : Workflow :=
  { name := name
    steps := Dict.ofList [("stop", { id := "stop", nodeType := .terminate })]
    start := "stop"
    id := name }

/-- A fire of such a workflow by one real-world event. -/
def stopFire (runId name : String) : Request :=
  .orchestratorFire "acme" runId (stopWorkflow name) (Dict.ofList [("id", .str "evt-1")]) []

/-- A complete fire in a world at a standstill. -/
def playFire (request : Request) (db : DB) : (Except Exc Run × Mem) × DB :=
  (((request.code payDeployment).exec request.memory).complete
    (fun db call => call.op.serve payDeployment.engine.policy id (.constant .null) db) db).2

theorem fires_cons_play {request : Request} {wanted : Run} {db db' : DB}
    {fires : List (Request × Except Exc Run)} (hwanted : request.wanted payDeployment = some wanted)
    (tail : Fires payDeployment id (playFire request db).2 fires db') :
    Fires payDeployment id db ((request, (playFire request db).1.1) :: fires) db' :=
  .cons hwanted (Prog.complete_exec
    (fun db call => call.op.serve_step payDeployment.engine.policy id _ db) _ db) tail

/-- Two workflows fired by one event. -/
def invoiceOutcome : (Except Exc Run × Mem) × DB :=
  playFire (stopFire "run-1" "invoice") DB.empty

def auditOutcome : (Except Exc Run × Mem) × DB :=
  playFire (stopFire "run-2" "audit") invoiceOutcome.2

def bothFires : List (Request × Except Exc Run) :=
  [(stopFire "run-1" "invoice", invoiceOutcome.1.1), (stopFire "run-2" "audit", auditOutcome.1.1)]

theorem bothFires_run : Fires payDeployment id DB.empty bothFires auditOutcome.2 :=
  fires_cons_play rfl (fires_cons_play rfl (.nil _))

theorem auditOutcome_ok : ∃ run, auditOutcome.1.1 = .ok run ∧ run.workflowId = "invoice" := by
  have hwf : auditOutcome.1.1.toOption.map (·.workflowId) = some "invoice" := by decide +kernel
  cases h : auditOutcome.1.1 with
  | ok run =>
      rw [h] at hwf
      exact ⟨run, rfl, Option.some.inj hwf⟩
  | error e =>
      rw [h] at hwf
      cases hwf

theorem fire_returns_first_bothFires :
    ∃ run, bothFires[1]? = some (stopFire "run-2" "audit", .ok run) ∧
      ∃ j ≤ 1, ∃ (request' : Request) (outcome : Except Exc Run) (first : Run),
        bothFires[j]? = some (request', outcome) ∧ request'.wanted payDeployment = some first ∧
        (first.tenantId, first.idempotencyKey) = ("acme", "evt-1") ∧
        run.id = first.id ∧ run.workflowId = first.workflowId ∧
        ∀ k < j, ∀ request run other, bothFires[k]? = some (request, .ok run) →
          request.wanted payDeployment = some other →
          (other.tenantId, other.idempotencyKey) ≠ ("acme", "evt-1") := by
  obtain ⟨run, hok, -⟩ := auditOutcome_ok
  have hi : bothFires[1]? = some (stopFire "run-2" "audit", .ok run) :=
    congrArg (fun outcome => some (stopFire "run-2" "audit", outcome)) hok
  exact ⟨run, hi, fire_returns_first bothFires_run hi rfl⟩

/-- The event triggers two workflows: the second fire returns the run of the first workflow. -/
theorem fire_returns_other_workflow :
    ∃ (fires : List (Request × Except Exc Run)) (db : DB) (request : Request) (run wanted : Run),
      Fires payDeployment id DB.empty fires db ∧ fires[1]? = some (request, .ok run) ∧
        request.wanted payDeployment = some wanted ∧ wanted.workflowId = "audit" ∧
        run.workflowId = "invoice" := by
  obtain ⟨run, hok, hwf⟩ := auditOutcome_ok
  have hi : bothFires[1]? = some (stopFire "run-2" "audit", .ok run) :=
    congrArg (fun outcome => some (stopFire "run-2" "audit", outcome)) hok
  exact ⟨bothFires, auditOutcome.2, stopFire "run-2" "audit", run, _, bothFires_run, hi, rfl, rfl, hwf⟩

end Bass
