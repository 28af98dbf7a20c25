import Bass.StorePostgres
import Bass.Proof.Isolation

/-!
# The two stores

Operation by operation the PostgreSQL store does what the SQLite store does, with a few exceptions: a query
for the latest approval that leaves ties open, a negative limit, sequence values that a failed checkpoint
has used up, and parameters that a column does not hold. Runs without them keep the two stores in the same
state, and there either may answer whatever the other may.
-/

namespace Bass

variable {redact : Json → Json} {now : ℕ → ℚ} {drawn : String} {db db' : DB}

/-! ### The SQLite store -/

theorem newestFirst_spec (rows : List RunRow) (limit : Int) :
    NewestFirst rows (if limit < 0 then none else some limit.toNat) (DB.newestFirst rows limit) := by
  have hperm : ((rows.mergeSort fun a b => decide (a.idempotencyKey ≤ b.idempotencyKey)).mergeSort
      fun a b => decide (b.startedAt ≤ a.startedAt)).Perm rows :=
    (List.mergeSort_perm _ _).trans (List.mergeSort_perm _ _)
  refine ⟨_, hperm, ?_, ?_⟩
  · have hsorted : ∀ indexed : List RunRow, (indexed.mergeSort fun a b => decide (b.startedAt ≤ a.startedAt)).Pairwise
        fun a b => decide (b.startedAt ≤ a.startedAt) = true := by
      intro indexed
      refine List.pairwise_mergeSort (fun a b c hab hbc => ?_) (fun a b => ?_) indexed
      · exact decide_eq_true ((of_decide_eq_true hbc).trans (of_decide_eq_true hab))
      · simpa using le_total b.startedAt a.startedAt
    exact (hsorted _).imp of_decide_eq_true
  · unfold DB.newestFirst
    split <;> rfl

/-- What the store may answer and do, it answers and does at some readings of the clock, drawing some id;
the database is there when it is asked for. -/
theorem exists_sqlite_of_step {op : StoreOp} {answer : op.Res} (h : op.step redact db answer db')
    (hup : (⟨op, answer⟩ : (op : StoreOp) × op.Res) ≠ ⟨.ping, false⟩) :
    ∃ now drawn, SQLiteStore.step redact now drawn db op (op.outcome answer) db' := by
  cases op with
  | ensureTenant | recordEffect =>
      obtain ⟨now, rfl⟩ := h
      exact ⟨now, "", rfl, rfl⟩
  | createOrGetRun | checkpoint | resolveApproval | cancelRun =>
      obtain ⟨now, hnow⟩ := h
      exact ⟨now, "", hnow⟩
  | createApproval =>
      obtain ⟨drawn, now, hnow⟩ := h
      exact ⟨now, drawn, hnow⟩
  | loadRun | listEvents | getEffect => exact ⟨fun _ => 0, "", h⟩
  | listRuns tenantId limit status =>
      obtain ⟨rfl, rfl⟩ := h
      exact ⟨fun _ => 0, "", ⟨_, newestFirst_spec _ limit, rfl⟩, rfl⟩
  | latestApproval =>
      obtain ⟨rfl, rfl⟩ := h
      exact ⟨fun _ => 0, "", rfl, rfl⟩
  | purgeEventPayloads tenantId before =>
      refine ⟨fun _ => 0, "", ?_, ?_⟩
      · exact congrArg (fun out => Except.ok out.2) h
      · exact congrArg Prod.fst h
  | ping =>
      obtain rfl := h
      cases answer with
      | true => exact ⟨fun _ => 0, "", rfl, rfl⟩
      | false => exact absurd rfl hup

/-! ### Statement by statement -/

namespace PostgresStore

theorem assertOwns_eq (db : DB) (tenantId runId : String) :
    assertOwns db tenantId runId = db.assertOwns tenantId runId := by
  unfold assertOwns DB.assertOwns
  cases db.runs.find? runId with
  | none => rfl
  | some row => by_cases h : row.tenantId = tenantId <;> simp [h]

theorem rowToRun_eq (row : RunRow) (tenantId : String) : rowToRun row tenantId = DB.rowToRun row tenantId := by
  unfold rowToRun DB.rowToRun
  by_cases h : row.tenantId = tenantId <;> simp [h]

theorem ensureTenant_eq (db : DB) (tenantId name : String) (settings : Json) (now : ℕ → ℚ) :
    ensureTenant db tenantId name settings now = db.ensureTenant tenantId name settings now := by
  unfold ensureTenant DB.ensureTenant
  cases hfind : db.tenants.find? tenantId with
  | none =>
      have hupdate : db.tenants.update (fun row => row.id = tenantId) (fun row => { row with name := name })
          (fun _ => rfl) = db.tenants := by
        apply Table.rows_injective
        refine (List.map_congr_left fun row hrow => ?_).trans (List.map_id _)
        exact if_neg (by simpa using Table.find?_eq_none.mp hfind row hrow)
      rw [hupdate]
  | some row =>
      have hfound := Table.find?_update db.tenants (fun row => row.id = tenantId)
        (fun row => { row with name := name }) (fun _ => rfl) tenantId
      rw [hfind, Option.map_some] at hfound
      exact (congrArg (fun tenants => { db with tenants := tenants })
        (Table.insert_of_some (r := ⟨tenantId, name, settings, now 0⟩) hfound)).symm

theorem insertRun_eq {run : Run} (hfresh : db.runs.find? run.id = none) (now : ℕ → ℚ) :
    insertRun db run now = .ok (db.insertRun run now) := by
  have hkey : keyTaken db run = db.conflicts run := by
    unfold keyTaken DB.conflicts
    rw [Bool.eq_iff_iff, List.any_eq_true, List.any_eq_true]
    refine exists_congr fun row => and_congr_right fun hrow => ?_
    simp [Table.find?_eq_none.mp hfresh row hrow]
  unfold insertRun DB.insertRun
  by_cases h : db.conflicts run = false
  · rw [dif_pos h, dif_pos (hkey.trans h), dif_pos hfresh]
  · rw [dif_neg h, dif_neg (by rwa [hkey])]

theorem loadRun_eq (db : DB) (tenantId runId : String) : loadRun db tenantId runId = db.loadRun tenantId runId := by
  unfold loadRun DB.loadRun
  cases db.runs.find? runId with
  | none => rfl
  | some row => simp only [rowToRun_eq]

theorem loadByKey_eq (db : DB) (tenantId key : String) :
    loadByKey db tenantId key = db.loadRunByKey tenantId key := by
  have hkey : (fun row : RunRow => decide (row.tenantId = tenantId ∧ row.idempotencyKey = key)) =
      fun row : RunRow => decide (row.triggerKey = (tenantId, key)) := by
    funext row
    simp [RunRow.triggerKey]
  unfold loadByKey DB.loadRunByKey
  rw [hkey]
  cases db.runs.rows.find? (fun row => row.triggerKey = (tenantId, key)) with
  | none => rfl
  | some row => simp only [rowToRun_eq]

theorem listEvents_eq (db : DB) (tenantId runId : String) :
    listEvents db tenantId runId = db.listEvents tenantId runId := by
  unfold listEvents DB.listEvents
  rw [assertOwns_eq]

theorem cancelRun_eq (db : DB) (tenantId runId : String) (now : ℕ → ℚ) :
    cancelRun db tenantId runId now = db.cancelRun tenantId runId now := by
  have hfilter : db.runs.rows.find? (fun row => row.id = runId ∧ row.tenantId = tenantId) =
      (db.runs.find? runId).filter fun row => row.tenantId = tenantId := by
    rw [← Table.find?_and]
    simp
  unfold cancelRun DB.cancelRun
  rw [hfilter, assertOwns_eq]
  unfold DB.assertOwns
  cases db.runs.find? runId with
  | none => rfl
  | some row =>
      by_cases htenant : row.tenantId = tenantId
      · simp only [Option.filter, htenant, decide_true, if_true]
        rfl
      · simp [Option.filter, htenant]

theorem getEffect_eq (db : DB) (tenantId key : String) : getEffect db tenantId key = db.getEffect tenantId key := by
  unfold getEffect DB.getEffect
  cases db.toolEffects.find? key with
  | none => rfl
  | some row => by_cases h : row.tenantId = tenantId <;> simp [h]

theorem recordEffect_eq (db : DB) (tenantId key runId : String) (stepId : Option String) (tool : String)
    (result : Json) (now : ℕ → ℚ) :
    recordEffect db tenantId key runId stepId tool result now =
      db.recordEffect tenantId key runId stepId tool result now := by
  unfold recordEffect DB.recordEffect
  cases hfind : db.toolEffects.find? key with
  | none => rfl
  | some row =>
      exact congrArg (fun effects => { db with toolEffects := effects })
        (Table.insert_of_some (r := ⟨key, runId, tenantId, stepId, tool, result, now 0⟩) hfind).symm

theorem createApproval_eq (hfresh : db.approvals.find? drawn = none) (tenantId runId stepId : String)
    (approvers : List String) (now : ℕ → ℚ) :
    createApproval db tenantId runId stepId approvers drawn now =
      db.createApproval tenantId runId stepId approvers drawn now := by
  unfold createApproval DB.createApproval
  rw [assertOwns_eq, hfresh]
  rfl

theorem resolveApproval_eq (db : DB) (tenantId approvalId : String) (approved : Bool) (decidedBy note : String)
    (now : ℕ → ℚ) :
    resolveApproval db tenantId approvalId approved decidedBy note now =
      db.resolveApproval tenantId approvalId approved decidedBy note now := by
  unfold resolveApproval DB.resolveApproval
  cases db.approvals.find? approvalId with
  | none => rfl
  | some row =>
      by_cases h : row.tenantId = tenantId
      · simp only [h, ne_eq, not_true_eq_false, if_false, if_true]
        rfl
      · simp [h]

theorem purgeEventPayloads_eq (db : DB) (tenantId : String) (before : ℚ) :
    purgeEventPayloads db tenantId before = db.purgeEventPayloads tenantId before := by
  unfold purgeEventPayloads DB.purgeEventPayloads
  rw [List.countP_eq_length_filter]
  rfl

/-- The run or the existing one, after the insertion that the SQLite store would have made. -/
theorem createOrGetRun_iff {run : Run} (hfresh : db.runs.find? run.id = none) {out : Except Exc (Run × Bool)} :
    Commits db (createOrGetRun db run now) out db' ↔ db' = (db.insertRun run now).1 ∧
      out = StoreOp.createdOrExisting run db' (db.insertRun run now).2 := by
  unfold createOrGetRun
  rw [insertRun_eq hfresh]
  by_cases h : db.conflicts run = false
  · rw [DB.insertRun, dif_pos h]
    exact and_comm
  · rw [DB.insertRun, dif_neg h]
    simp only [bind, Except.bind, Bool.false_eq_true, if_false, loadByKey_eq]
    refine Iff.trans ?_ (and_congr_right fun hsame => by rw [hsame])
    unfold StoreOp.createdOrExisting
    cases db.loadRunByKey run.tenantId run.idempotencyKey with
    | error e => exact and_comm
    | ok existing => cases existing <;> exact and_comm

/-! ### The events of a checkpoint -/

theorem insertEvents_eq (tenantId : String) (events : List Event) (now : ℕ → ℚ) (log : EventLog) :
    insertEvents redact tenantId events now log =
      ((events.takeWhile fun ev => ev.tenantId = tenantId).length,
        DB.appendEvents redact tenantId events now log) := by
  induction events generalizing now log with
  | nil => rfl
  | cons ev rest ih =>
      unfold insertEvents DB.appendEvents
      by_cases h : ev.tenantId = tenantId
      · have htake : ((ev :: rest).takeWhile fun ev => decide (ev.tenantId = tenantId)).length =
            (rest.takeWhile fun ev => decide (ev.tenantId = tenantId)).length + 1 := by simp [h]
        rw [if_neg (not_not.mpr h), if_pos h, ih, htake]
        rfl
      · rw [if_pos h, if_neg h]
        simp [h]

/-- A checkpoint that the store accepts or refuses before it has inserted an event. -/
def Unspent (db : DB) (run : Run) (events : List Event) : Prop :=
  db.assertOwns run.tenantId run.id = .ok () → (∀ ev ∈ events.head?, ev.tenantId = run.tenantId) →
    ∀ ev ∈ events, ev.tenantId = run.tenantId

theorem appendEvents_of_own {tenantId : String} {events : List Event} (h : ∀ ev ∈ events, ev.tenantId = tenantId)
    (now : ℕ → ℚ) (log : EventLog) : ∃ log', DB.appendEvents redact tenantId events now log = .ok log' := by
  induction events generalizing now log with
  | nil => exact ⟨log, rfl⟩
  | cons ev rest ih =>
      obtain ⟨hev, hrest⟩ := List.forall_mem_cons.mp h
      obtain ⟨log', hlog⟩ := ih hrest (fun i => now (i + 1)) (log.append (DB.Event.row redact ev (now 0)) fun _ => rfl)
      exact ⟨log', (if_pos hev).trans hlog⟩

theorem checkpoint_iff {run : Run} {events : List Event} (h : Unspent db run events) {out : Except Exc Unit} :
    (out, db') = checkpoint redact db run events now ↔
      Commits db ((·, ()) <$> db.checkpoint redact run events now) out db' := by
  unfold checkpoint DB.checkpoint
  rw [assertOwns_eq, insertEvents_eq]
  cases howns : db.assertOwns run.tenantId run.id with
  | error e => exact Prod.mk_inj
  | ok _ =>
      cases hlog : DB.appendEvents redact run.tenantId events (fun i => now (i + 1)) db.events with
      | ok log => exact Prod.mk_inj
      | error e =>
          have hforeign : ¬∀ ev ∈ events, ev.tenantId = run.tenantId := by
            intro hown
            have hok : ∃ log', DB.appendEvents redact run.tenantId events (fun i => now (i + 1)) db.events = .ok log' :=
              appendEvents_of_own hown _ _
            rw [hlog] at hok
            exact absurd hok (by simp)
          have hnone : events.takeWhile (fun ev => decide (ev.tenantId = run.tenantId)) = [] := by
            cases events with
            | nil => rfl
            | cons ev rest =>
                refine List.takeWhile_cons_of_neg fun hev => hforeign (h howns fun first hfirst => ?_)
                obtain rfl := Option.some.inj hfirst
                exact of_decide_eq_true hev
          rw [hnone]
          exact Prod.mk_inj

/-! ### The latest approval -/

/-- The approval that was created last was also requested last, and no other at the same time. -/
def LastRequested (rows : List ApprovalRow) : Prop :=
  ∀ before newest, rows = before ++ [newest] → ∀ row ∈ before, row.requestedAt < newest.requestedAt

theorem latest_of_lastRequested {rows : List ApprovalRow} (h : LastRequested rows) :
    DB.latest rows = rows.getLast? := by
  cases rows using List.reverseRecOn with
  | nil => rfl
  | append_singleton before newest =>
      rw [List.getLast?_concat]
      have hall : (DB.latest before).all (fun best => decide (best.requestedAt ≤ newest.requestedAt)) = true := by
        rw [Option.all_eq_true]
        intro best hbest
        exact decide_eq_true (h before newest rfl best (mem_of_latest hbest)).le
      rw [latest_concat, if_pos hall]

theorem latest_iff_of_lastRequested {rows : List ApprovalRow} (h : LastRequested rows)
    {latest : Option ApprovalRow} : Latest rows latest ↔ latest = rows.getLast? := by
  cases rows using List.reverseRecOn with
  | nil =>
      cases latest <;> simp [Latest]
  | append_singleton before newest =>
      rw [List.getLast?_concat]
      have hbefore := h before newest rfl
      constructor
      · intro hlatest
        cases latest with
        | none => exact absurd hlatest (by simp [Latest])
        | some row =>
            obtain ⟨hmem, hmax⟩ := hlatest
            rcases List.mem_append.mp hmem with hold | hnew
            · have hlt := hbefore row hold
              exact absurd (hmax newest (by simp)) (not_le.mpr hlt)
            · rw [List.mem_singleton.mp hnew]
      · rintro rfl
        refine ⟨by simp, fun other hother => ?_⟩
        rcases List.mem_append.mp hother with hold | hnew
        · exact (hbefore other hold).le
        · rw [List.mem_singleton.mp hnew]

end PostgresStore

/-- The approval of the step that was created last. -/
def DB.newestApproval (db : DB) (tenantId runId stepId : String) : Option (String × ApprovalStatus) :=
  (db.approvalsOf tenantId runId stepId).getLast?.map fun row => (row.id, row.status)

theorem latestApproval_of_lastRequested {tenantId runId stepId : String}
    (h : PostgresStore.LastRequested (db.approvalsOf tenantId runId stepId)) :
    db.latestApproval tenantId runId stepId = db.newestApproval tenantId runId stepId :=
  congrArg (Option.map fun row : ApprovalRow => (row.id, row.status)) (PostgresStore.latest_of_lastRequested h)

/-! ### One operation -/

namespace StoreOp

/-- The id that an operation gives a new row is not taken. -/
def Fresh (db : DB) (drawn : String) : StoreOp → Prop
  | createOrGetRun run => db.runs.find? run.id = none
  | createApproval .. => db.approvals.find? drawn = none
  | _ => True

/-- The stores have no reason to treat the operation differently. -/
def Uniform (db : DB) (op : StoreOp) : Prop :=
  op.Storable ∧ match op with
    | listRuns _ limit _ => 0 ≤ limit
    | checkpoint run events => PostgresStore.Unspent db run events
    | latestApproval tenantId runId stepId => PostgresStore.LastRequested (db.approvalsOf tenantId runId stepId)
    | _ => True

end StoreOp

open PostgresStore in
/-- What one store may answer and do, the other may. -/
theorem sqlite_iff_postgres {op : StoreOp} (hfresh : op.Fresh db drawn) (huniform : op.Uniform db)
    (out : Except Exc op.Value) (db' : DB) :
    SQLiteStore.step redact now drawn db op out db' ↔ PostgresStore.step redact now drawn db op out db' := by
  obtain ⟨hstorable, hop⟩ := huniform
  have hact : PostgresStore.step redact now drawn db op out db' ↔ act redact now drawn db op out db' :=
    or_iff_left fun hrefused => hrefused.1 hstorable
  rw [hact]
  cases op with
  | ensureTenant => exact and_congr_right fun _ => by rw [ensureTenant_eq]
  | createOrGetRun run => exact (createOrGetRun_iff hfresh).symm
  | loadRun => exact and_congr_left fun _ => by rw [loadRun_eq]
  | listRuns tenantId limit status =>
      refine and_congr_left fun _ => ?_
      have hlimit : ¬limit < 0 := not_lt.mpr hop
      rw [if_neg hlimit, if_neg hlimit]
      simp only [rowToRun_eq]
  | checkpoint run events => exact (checkpoint_iff hop).symm
  | listEvents => exact and_congr_left fun _ => by rw [listEvents_eq]
  | getEffect => exact and_congr_left fun _ => by rw [PostgresStore.getEffect_eq]
  | recordEffect => exact and_congr_right fun _ => by rw [recordEffect_eq]
  | createApproval tenantId runId stepId approvers =>
      have hsame := createApproval_eq hfresh tenantId runId stepId approvers now
      exact iff_of_eq (congrArg (fun tx => Commits db ((·, drawn) <$> tx) out db') hsame.symm)
  | resolveApproval tenantId approvalId approved decidedBy note =>
      have hsame := resolveApproval_eq db tenantId approvalId approved decidedBy note now
      exact iff_of_eq (congrArg (fun tx => Commits db ((·, ()) <$> tx) out db') hsame.symm)
  | latestApproval tenantId runId stepId =>
      refine and_congr_left fun _ => ?_
      rw [latestApproval_of_lastRequested hop]
      simp only [latest_iff_of_lastRequested hop, exists_eq_left]
      rfl
  | cancelRun tenantId runId =>
      exact iff_of_eq (congrArg (fun tx => Commits db tx out db') (cancelRun_eq db tenantId runId now).symm)
  | purgeEventPayloads tenantId before =>
      have hsame := purgeEventPayloads_eq db tenantId before
      exact iff_of_eq (congrArg (fun purged : DB × Nat => out = .ok purged.2 ∧ db' = purged.1) hsame.symm)
  | ping => rfl

/-! ### Runs of both -/

/-- A use of a store: the readings of the clock and the id drawn go with the operation. -/
structure StoreCall where
  op : StoreOp
  now : ℕ → ℚ
  drawn : String := ""

/-- Both stores carry out the same uses, each of which brings new ids and is uniform when it comes; either
answers whatever it may. -/
inductive Lockstep (redact : Json → Json) : DB → DB → List StoreCall → DB → DB → Prop where
  | nil (sq pg : DB) : Lockstep redact sq pg [] sq pg
  | cons {sq sq₁ sq' pg pg₁ pg' : DB} {call : StoreCall} {out out' : Except Exc call.op.Value}
      {rest : List StoreCall} (fresh : call.op.Fresh sq call.drawn) (uniform : call.op.Uniform sq)
      (sqlite : SQLiteStore.step redact call.now call.drawn sq call.op out sq₁)
      (postgres : PostgresStore.step redact call.now call.drawn pg call.op out' pg₁)
      (tail : Lockstep redact sq₁ pg₁ rest sq' pg') : Lockstep redact sq pg (call :: rest) sq' pg'

theorem Commits.db_unique {α : Type} {transaction : Except Exc (DB × α)} {out out' : Except Exc α} {db₁ db₂ : DB}
    (h : Commits db transaction out db₁) (h' : Commits db transaction out' db₂) : db₁ = db₂ := by
  cases transaction <;> exact h.2.trans h'.2.symm

/-- The answer of an operation has no part in what it does to the database. -/
theorem sqlite_db_unique {op : StoreOp} {out out' : Except Exc op.Value} {db₁ db₂ : DB}
    (h : SQLiteStore.step redact now drawn db op out db₁) (h' : SQLiteStore.step redact now drawn db op out' db₂) :
    db₁ = db₂ := by
  cases op with
  | ensureTenant | recordEffect | purgeEventPayloads => exact h.2.trans h'.2.symm
  | createOrGetRun => exact h.1.trans h'.1.symm
  | loadRun | listRuns | listEvents | getEffect | latestApproval | ping => exact h.2.trans h'.2.symm
  | checkpoint | createApproval | resolveApproval | cancelRun => exact h.db_unique h'

/-- Uniform uses keep two stores alike. -/
theorem Lockstep.alike {sq sq' pg pg' : DB} {calls : List StoreCall}
    (h : Lockstep redact sq pg calls sq' pg') (hsame : sq = pg) : sq' = pg' := by
  induction h with
  | nil sq pg => exact hsame
  | cons fresh uniform sqlite postgres tail ih =>
      subst hsame
      exact ih (sqlite_db_unique sqlite ((sqlite_iff_postgres fresh uniform _ _).mpr postgres))

/-- After any uniform uses of two new stores, whatever one may answer to the next the other may, and both
answer the approval that was created last when they are asked for the latest one. -/
theorem stores_alike {calls : List StoreCall} {sq pg : DB}
    (h : Lockstep redact DB.empty DB.empty calls sq pg) :
    sq = pg ∧
      (∀ call : StoreCall, call.op.Fresh sq call.drawn → call.op.Uniform sq → ∀ out db',
        SQLiteStore.step redact call.now call.drawn sq call.op out db' ↔
          PostgresStore.step redact call.now call.drawn pg call.op out db') ∧
      ∀ tenantId runId stepId, (StoreOp.latestApproval tenantId runId stepId).Uniform sq → ∀ now drawn out db',
        (SQLiteStore.step redact now drawn sq (.latestApproval tenantId runId stepId) out db' ∨
          PostgresStore.step redact now drawn pg (.latestApproval tenantId runId stepId) out db') →
        out = .ok (sq.newestApproval tenantId runId stepId) := by
  obtain rfl := h.alike rfl
  refine ⟨rfl, fun call hfresh huniform => sqlite_iff_postgres hfresh huniform, ?_⟩
  intro tenantId runId stepId huniform now drawn out db' hanswer
  have hfresh : (StoreOp.latestApproval tenantId runId stepId).Fresh sq drawn := trivial
  have hsqlite : SQLiteStore.step redact now drawn sq (.latestApproval tenantId runId stepId) out db' :=
    hanswer.elim id (sqlite_iff_postgres hfresh huniform out db').mpr
  rw [hsqlite.1, latestApproval_of_lastRequested huniform.2]

/-! ### Approvals that are requested again -/

/-- The step asks for an approval at the time `t`. -/
def askCall (approvalId : String) (t : ℚ) : StoreCall :=
  { op := .createApproval "acme" "run_1" "gate" ["boss"]
    now := fun _ => t
    drawn := approvalId }

def askedRow (approvalId : String) (t : ℚ) : ApprovalRow :=
  { id := approvalId
    runId := "run_1"
    tenantId := "acme"
    stepId := "gate"
    status := .pending
    approvers := ["boss"]
    decidedBy := none
    note := none
    requestedAt := t
    decidedAt := none }

/-- The step has asked twice. -/
def DB.asked (first second : ℚ) : DB :=
  { DB.empty with
    approvals := ⟨[askedRow "appr_1" first, askedRow "appr_2" second], by simp [askedRow]⟩ }

theorem storable_ask : (StoreOp.createApproval "acme" "run_1" "gate" ["boss"]).Storable :=
  ⟨by decide, by decide⟩

/-- One more request on both stores. -/
theorem lockstep_ask {approvals : Table ApprovalRow.id} {approvalId : String} {t : ℚ} {rest : List StoreCall}
    {sq pg : DB} (hnone : approvals.find? approvalId = none)
    (tail : Lockstep id { DB.empty with approvals := approvals.insert (askedRow approvalId t) }
      { DB.empty with approvals := approvals.insert (askedRow approvalId t) } rest sq pg) :
    Lockstep id { DB.empty with approvals := approvals } { DB.empty with approvals := approvals }
      (askCall approvalId t :: rest) sq pg := by
  have hsqlite : SQLiteStore.step id (askCall approvalId t).now approvalId { DB.empty with approvals := approvals }
      (askCall approvalId t).op (.ok approvalId)
      { DB.empty with approvals := approvals.insert (askedRow approvalId t) } := by
    have hcreated : ({ DB.empty with approvals := approvals } : DB).createApproval "acme" "run_1" "gate" ["boss"]
        approvalId (fun _ => t) =
          .ok { DB.empty with approvals := approvals.insert (askedRow approvalId t) } := by
      unfold DB.createApproval
      rw [hnone]
      rfl
    refine (iff_of_eq (congrArg (fun tx => Commits _ ((·, approvalId) <$> tx) _ _) hcreated)).mpr ?_
    exact ⟨rfl, rfl⟩
  have hfresh : (askCall approvalId t).op.Fresh { DB.empty with approvals := approvals } approvalId := hnone
  have huniform : (askCall approvalId t).op.Uniform { DB.empty with approvals := approvals } :=
    ⟨storable_ask, trivial⟩
  exact .cons hfresh huniform hsqlite ((sqlite_iff_postgres hfresh huniform _ _).mp hsqlite) tail

theorem lockstep_asked (first second : ℚ) :
    Lockstep id DB.empty DB.empty [askCall "appr_1" first, askCall "appr_2" second] (DB.asked first second)
      (DB.asked first second) := by
  have hfirst : (Table.empty : Table ApprovalRow.id).find? "appr_1" = none := rfl
  exact lockstep_ask hfirst (lockstep_ask rfl (.nil _ _))

theorem newestApproval_asked (first second : ℚ) :
    (DB.asked first second).newestApproval "acme" "run_1" "gate" = some ("appr_2", .pending) := rfl

theorem latestApproval_asked (first second : ℚ) :
    (DB.asked first second).latestApproval "acme" "run_1" "gate" =
      some (if first ≤ second then "appr_2" else "appr_1", .pending) := by
  have hlatest : (DB.asked first second).latestApproval "acme" "run_1" "gate" =
      (if first ≤ second then some (askedRow "appr_2" second) else some (askedRow "appr_1" first)).map
        fun row => (row.id, row.status) := rfl
  rw [hlatest]
  split <;> rfl

/-- Unless it was requested earlier, the PostgreSQL store may answer the first approval. -/
theorem postgres_first {first second : ℚ} (h : second ≤ first) :
    PostgresStore.step id (fun _ => 2) "" (DB.asked first second) (.latestApproval "acme" "run_1" "gate")
      (.ok (some ("appr_1", .pending))) (DB.asked first second) := by
  have hrows : (DB.asked first second).approvalsOf "acme" "run_1" "gate" =
      [askedRow "appr_1" first, askedRow "appr_2" second] := rfl
  refine .inl ⟨⟨some (askedRow "appr_1" first), ?_, rfl⟩, rfl⟩
  rw [hrows]
  exact ⟨List.mem_cons_self, by simpa [askedRow] using h⟩

theorem stores_alike_asked :
    (DB.asked 0 1).newestApproval "acme" "run_1" "gate" = some ("appr_2", .pending) ∧
      SQLiteStore.step id (fun _ => 2) "" (DB.asked 0 1) (.latestApproval "acme" "run_1" "gate")
        (.ok (some ("appr_2", .pending))) (DB.asked 0 1) ∧
      PostgresStore.step id (fun _ => 2) "" (DB.asked 0 1) (.latestApproval "acme" "run_1" "gate")
        (.ok (some ("appr_2", .pending))) (DB.asked 0 1) := by
  have huniform : (StoreOp.latestApproval "acme" "run_1" "gate").Uniform (DB.asked 0 1) := by
    refine ⟨⟨by decide, by decide⟩, fun before newest heq row hrow => ?_⟩
    have hrows : [askedRow "appr_1" 0] ++ [askedRow "appr_2" 1] = before ++ [newest] := heq
    obtain ⟨rfl, hnewest⟩ := List.append_inj' hrows rfl
    obtain rfl := List.mem_singleton.mp hrow
    obtain rfl := List.singleton_inj.mp hnewest
    exact zero_lt_one
  have hsqlite : SQLiteStore.step id (fun _ => 2) "" (DB.asked 0 1) (.latestApproval "acme" "run_1" "gate")
      (.ok (some ("appr_2", .pending))) (DB.asked 0 1) := by
    refine ⟨congrArg Except.ok ?_, rfl⟩
    rw [latestApproval_asked, if_pos zero_le_one]
  obtain ⟨-, hiff, hlatest⟩ := stores_alike (lockstep_asked 0 1)
  refine ⟨?_, hsqlite, ?_⟩
  · have hanswer := hlatest "acme" "run_1" "gate" huniform (fun _ => 2) "" _ _ (.inl hsqlite)
    exact (Except.ok.inj hanswer).symm
  · exact (hiff ⟨.latestApproval "acme" "run_1" "gate", fun _ => 2, ""⟩ trivial huniform _ _).mp hsqlite

/-- At equal readings the PostgreSQL store may answer the first approval, the SQLite store may not; at
decreasing readings both do. A negative limit is an error in one of them. -/
theorem stores_differ :
    Lockstep id DB.empty DB.empty [askCall "appr_1" 0, askCall "appr_2" 0] (DB.asked 0 0) (DB.asked 0 0) ∧
      (DB.asked 0 0).newestApproval "acme" "run_1" "gate" = some ("appr_2", .pending) ∧
      PostgresStore.step id (fun _ => 2) "" (DB.asked 0 0) (.latestApproval "acme" "run_1" "gate")
        (.ok (some ("appr_1", .pending))) (DB.asked 0 0) ∧
      ¬SQLiteStore.step id (fun _ => 2) "" (DB.asked 0 0) (.latestApproval "acme" "run_1" "gate")
        (.ok (some ("appr_1", .pending))) (DB.asked 0 0) ∧
      Lockstep id DB.empty DB.empty [askCall "appr_1" 1, askCall "appr_2" 0] (DB.asked 1 0) (DB.asked 1 0) ∧
      (DB.asked 1 0).newestApproval "acme" "run_1" "gate" = some ("appr_2", .pending) ∧
      SQLiteStore.step id (fun _ => 2) "" (DB.asked 1 0) (.latestApproval "acme" "run_1" "gate")
        (.ok (some ("appr_1", .pending))) (DB.asked 1 0) ∧
      PostgresStore.step id (fun _ => 2) "" (DB.asked 1 0) (.latestApproval "acme" "run_1" "gate")
        (.ok (some ("appr_1", .pending))) (DB.asked 1 0) ∧
      SQLiteStore.step id (fun _ => 2) "" DB.empty (.listRuns "acme" (-1) none) (.ok []) DB.empty ∧
      PostgresStore.step id (fun _ => 2) "" DB.empty (.listRuns "acme" (-1) none)
        (.error PostgresStore.limitNegative) DB.empty := by
  have hlimit : NewestFirst (DB.empty.runsWhere "acme" none) none [] := ⟨[], .refl _, .nil, rfl⟩
  refine ⟨lockstep_asked 0 0, newestApproval_asked 0 0, postgres_first le_rfl, ?_, lockstep_asked 1 0,
    newestApproval_asked 1 0, ?_, postgres_first zero_le_one, ⟨⟨[], hlimit, rfl⟩, rfl⟩, .inl ⟨rfl, rfl⟩⟩
  · intro hsqlite
    have hanswer := Except.ok.inj hsqlite.1
    rw [latestApproval_asked, if_pos le_rfl] at hanswer
    exact absurd hanswer (by decide)
  · refine ⟨congrArg Except.ok ?_, rfl⟩
    rw [latestApproval_asked, if_neg (by norm_num)]

end Bass
