import Bass.Migrate

/-!
# Failed migrations

A migration that fails leaves none of its statements behind if its script ran in the transaction of its
ledger row. That is so on PostgreSQL. SQLite runs a script in autocommit, and there what the script did
before the failure stays.
-/

namespace Bass.Migrator

open Interaction

variable {Schema : Type}

/-! ### The calls of a driver -/

section Calls

abbrev MigratorSpec (Schema σ : Type) : Type :=
  Spec (Site (Op Schema) (Connection Schema)) (fun site => site.op.Res) σ

variable {σ : Type} {S : MigratorSpec Schema σ} {tx : Connection Schema} {s : σ}
  {E : Exc → Connection Schema → σ → Prop}

theorem call_congr {op : Op Schema} {X Y : op.Res → σ → Prop} (h : ∀ answer s', X answer s' ↔ Y answer s') :
    (∀ s₁, S.rely s s₁ → S.guar s₁ ⟨tx, op⟩ ∧
        ∀ answer s', S.step s₁ ⟨tx, op⟩ answer s' → X answer s') ↔
      ∀ s₁, S.rely s s₁ → S.guar s₁ ⟨tx, op⟩ ∧
        ∀ answer s', S.step s₁ ⟨tx, op⟩ answer s' → Y answer s' := by
  simp only [h]

theorem wp_connect {Q : Unit → Connection Schema → σ → Prop} :
    Act.wp S connect Q E tx s ↔ ∀ s₁, S.rely s s₁ → S.guar s₁ ⟨tx, .connect⟩ ∧
      ∀ (answer : Except Exc Unit) s', S.step s₁ ⟨tx, .connect⟩ answer s' →
        match answer with
        | .ok _ => Q () tx s'
        | .error e => E e tx s' := by
  apply call_congr
  intro answer s'
  cases answer <;> rfl

theorem wp_createLedger {Q : Unit → Connection Schema → σ → Prop} :
    Act.wp S createLedger Q E tx s ↔ ∀ s₁, S.rely s s₁ → S.guar s₁ ⟨tx, .createLedger⟩ ∧
      ∀ (answer : Except Exc Unit) s', S.step s₁ ⟨tx, .createLedger⟩ answer s' →
        match answer with
        | .ok _ => Q () tx s'
        | .error e => E e tx s' := by
  apply call_congr
  intro answer s'
  cases answer <;> rfl

theorem wp_execute {sql : List (Statement Schema)} {Q : Unit → Connection Schema → σ → Prop} :
    Act.wp S (execute sql) Q E tx s ↔ ∀ s₁, S.rely s s₁ → S.guar s₁ ⟨tx, .execute sql⟩ ∧
      ∀ (answer : Except Exc Unit) s', S.step s₁ ⟨tx, .execute sql⟩ answer s' →
        match answer with
        | .ok _ => Q () (tx ++ sql.map Work.statement) s'
        | .error e => E e tx s' := by
  apply call_congr
  intro answer s'
  cases answer <;> rfl

theorem wp_executescript {sql : List (Statement Schema)} {Q : Unit → Connection Schema → σ → Prop} :
    Act.wp S (executescript sql) Q E tx s ↔ ∀ s₁, S.rely s s₁ → S.guar s₁ ⟨tx, .executescript sql⟩ ∧
      ∀ (answer : Except Exc Unit) s', S.step s₁ ⟨tx, .executescript sql⟩ answer s' →
        match answer with
        | .ok _ => Q () [] s'
        | .error e => E e [] s' := by
  apply call_congr
  intro answer s'
  cases answer <;> rfl

theorem wp_insertRow {id : String} {Q : Unit → Connection Schema → σ → Prop} :
    Act.wp S (insertRow id) Q E tx s ↔ ∀ s₁, S.rely s s₁ → S.guar s₁ ⟨tx, .insertRow id⟩ ∧
      ∀ (answer : Except Exc Unit) s', S.step s₁ ⟨tx, .insertRow id⟩ answer s' →
        match answer with
        | .ok _ => Q () (tx ++ [.row id]) s'
        | .error e => E e tx s' := by
  apply call_congr
  intro answer s'
  cases answer <;> rfl

theorem wp_selectIds {Q : List String → Connection Schema → σ → Prop} :
    Act.wp S selectIds Q E tx s ↔ ∀ s₁, S.rely s s₁ → S.guar s₁ ⟨tx, .selectIds⟩ ∧
      ∀ (answer : Except Exc (List String)) s', S.step s₁ ⟨tx, .selectIds⟩ answer s' →
        match answer with
        | .ok value => Q value tx s'
        | .error e => E e tx s' := by
  apply call_congr
  intro answer s'
  cases answer <;> rfl

theorem wp_commit {Q : Unit → Connection Schema → σ → Prop} :
    Act.wp S commit Q E tx s ↔ ∀ s₁, S.rely s s₁ → S.guar s₁ ⟨tx, .commit⟩ ∧
      ∀ (answer : Except Exc Unit) s', S.step s₁ ⟨tx, .commit⟩ answer s' →
        match answer with
        | .ok _ => Q () [] s'
        | .error e => E e [] s' := by
  apply call_congr
  intro answer s'
  cases answer <;> rfl

theorem wp_rollback {Q : Unit → Connection Schema → σ → Prop} :
    Act.wp S rollback Q E tx s ↔ ∀ s₁, S.rely s s₁ → S.guar s₁ ⟨tx, .rollback⟩ ∧
      ∀ (answer : Except Exc Unit) s', S.step s₁ ⟨tx, .rollback⟩ answer s' →
        match answer with
        | .ok _ => Q () [] s'
        | .error e => E e [] s' := by
  apply call_congr
  intro answer s'
  cases answer <;> rfl

theorem wp_close {Q : Unit → Connection Schema → σ → Prop} :
    Act.wp S close Q E tx s ↔ ∀ s₁, S.rely s s₁ → S.guar s₁ ⟨tx, .close⟩ ∧
      ∀ (answer : Unit) s', S.step s₁ ⟨tx, .close⟩ answer s' → Q answer tx s' := Iff.rfl

theorem wp_report {out : Except Exc (List String)} {Q : Unit → Connection Schema → σ → Prop} :
    Act.wp S (report out) Q E tx s ↔ ∀ s₁, S.rely s s₁ → S.guar s₁ ⟨tx, .report out⟩ ∧
      ∀ (answer : Unit) s', S.step s₁ ⟨tx, .report out⟩ answer s' → Q answer tx s' := Iff.rfl

end Calls

/-! ### A database that fails -/

/-- Where the database fails beside the statements that it refuses: inserting a ledger row raises, or
committing it does, with or without having taken effect. -/
structure Faults where
  row : String → Bool
  commit : String → Option Bool

def databaseError : Exc := .python "DatabaseError" ""

/-- A call that raises if not `p`. -/
def okIf (p : Prop) [Decidable p] : Except Exc Unit := if p then .ok () else .error databaseError

section Database

variable (base : Schema) (faults : Faults)

/-- The answers of a database that runs scripts as the drivers document it. -/
def serve (db : Database Schema) (site : Site (Op Schema) (Connection Schema)) :
    site.op.Res × Database Schema :=
  match site with
  | ⟨_, .connect⟩ => (.ok (), db)
  | ⟨_, .createLedger⟩ => (.ok (), db)
  | ⟨tx, .execute sql⟩ =>
      (okIf ((accepted sql (Database.schema base (db ++ tx))).length = sql.length), db)
  | ⟨tx, .executescript sql⟩ =>
      let ran := accepted sql (Database.schema base (db ++ tx))
      (okIf (ran.length = sql.length), db ++ tx ++ ran.map Work.statement)
  | ⟨tx, .insertRow id⟩ =>
      (okIf (faults.row id = false ∧ id ∉ Database.ledger (db ++ tx)), db)
  | ⟨_, .selectIds⟩ => (.ok db.ledger, db)
  | ⟨tx, .commit⟩ =>
      let fault := (Database.ledger tx).findSome? faults.commit
      (okIf (fault = none), if fault = some false then db else db ++ tx)
  | ⟨_, .rollback⟩ => (.ok (), db)
  | ⟨_, .close⟩ => ((), db)
  | ⟨_, .report _⟩ => ((), db)

/-- The schema that the migrations with these ids produce, applied in this order. -/
def produced (migrations : List (Migration Schema)) (ids : List String) : Schema :=
  runAll (ids.flatMap fun id => ((migrations.find? fun m => m.id == id).map Migration.sql).getD []) base

/-- The schema is that of the migrations in the ledger. -/
def Consistent (migrations : List (Migration Schema)) (db : Database Schema) : Prop :=
  db.schema base = produced base migrations db.ledger

/-- The first of the migrations to fail leaves the schema as it was although its script ran. -/
def Spared : Schema → List (Migration Schema) → Prop
  | _, [] => True
  | schema, m :: migrations =>
      if (accepted m.sql schema).length ≠ m.sql.length ∨ faults.row m.id = true ∨ faults.commit m.id = some false then
        runAll (accepted m.sql schema) schema = schema
      else faults.commit m.id = none → Spared (runAll m.sql schema) migrations

end Database

section Schemas

variable {base : Schema} {faults : Faults} {db : Database Schema} {migrations : List (Migration Schema)}

theorem isPrefix_accepted (sql : List (Statement Schema)) (schema : Schema) : accepted sql schema <+: sql := by
  induction sql generalizing schema with
  | nil => exact List.prefix_rfl
  | cons run sql ih =>
      rw [accepted]
      cases run schema with
      | none => exact List.nil_prefix
      | some schema' => exact List.cons_prefix_cons.mpr ⟨rfl, ih schema'⟩

theorem accepted_eq {sql : List (Statement Schema)} {schema : Schema}
    (h : (accepted sql schema).length = sql.length) : accepted sql schema = sql :=
  (isPrefix_accepted sql schema).eq_of_length h

theorem filterMap_statement (sql : List (Statement Schema)) :
    (sql.map Work.statement).filterMap Work.statement? = sql := by
  induction sql with
  | nil => rfl
  | cons run sql ih =>
      have hrun : Work.statement? (.statement run) = some run := rfl
      rw [List.map_cons, List.filterMap_cons_some hrun, ih]

theorem filterMap_id (sql : List (Statement Schema)) :
    (sql.map Work.statement).filterMap Work.id? = [] := by
  induction sql with
  | nil => rfl
  | cons run sql ih =>
      have hrun : Work.id? (.statement run) = none := rfl
      rw [List.map_cons, List.filterMap_cons_none hrun, ih]

theorem schema_append_statements (sql : List (Statement Schema)) :
    Database.schema base (db ++ sql.map Work.statement) = runAll sql (Database.schema base db) := by
  rw [Database.schema, List.filterMap_append, filterMap_statement, runAll, List.foldl_append]
  rfl

theorem ledger_append_statements (sql : List (Statement Schema)) :
    Database.ledger (db ++ sql.map Work.statement) = db.ledger := by
  rw [Database.ledger, List.filterMap_append, filterMap_id, List.append_nil]
  rfl

theorem schema_append_row (id : String) :
    Database.schema base (db ++ [.row id]) = Database.schema base db := by
  rw [Database.schema, List.filterMap_append]
  exact congrArg (runAll · base) (List.append_nil _)

theorem ledger_append_row (id : String) : Database.ledger (db ++ [.row id]) = db.ledger ++ [id] := by
  rw [Database.ledger, List.filterMap_append]
  rfl

theorem produced_append (ids : List String) {m : Migration Schema} (hids : (migrations.map Migration.id).Nodup)
    (hm : m ∈ migrations) :
    produced base migrations (ids ++ [m.id]) = runAll m.sql (produced base migrations ids) := by
  have hfind : migrations.find? (fun other => other.id == m.id) = some m := by
    cases hfound : migrations.find? fun other => other.id == m.id with
    | none => exact absurd (beq_self_eq_true m.id) (List.find?_eq_none.mp hfound m hm)
    | some other =>
        have hid : other.id = m.id := by
          have hbeq := List.find?_some hfound
          exact beq_iff_eq.mp hbeq
        rw [List.inj_on_of_nodup_map hids (List.mem_of_find?_eq_some hfound) hm hid]
  rw [produced, List.flatMap_append, runAll, List.foldl_append, List.flatMap_singleton, hfind]
  rfl

/-- A migration that is applied with its row keeps the schema consistent. -/
theorem Consistent.applied (h : Consistent base migrations db)
    (hids : (migrations.map Migration.id).Nodup) {m : Migration Schema} (hm : m ∈ migrations) :
    Consistent base migrations (db ++ m.sql.map Work.statement ++ [.row m.id]) := by
  rw [Consistent, schema_append_row, schema_append_statements, ledger_append_row, ledger_append_statements,
    produced_append _ hids hm, h]

/-- Statements without a row keep it consistent just if they change nothing. -/
theorem Consistent.append_statements_iff (h : Consistent base migrations db) (sql : List (Statement Schema)) :
    Consistent base migrations (db ++ sql.map Work.statement) ↔
      runAll sql (Database.schema base db) = Database.schema base db := by
  rw [Consistent, schema_append_statements, ledger_append_statements, ← h]

end Schemas

section Runs

/-- The specification of the database as it is served. -/
def served (base : Schema) (faults : Faults) : MigratorSpec Schema (Database Schema) :=
  .sequential (fun db site answer db' => serve base faults db site = (answer, db')) (fun _ _ => True)

variable {base : Schema} {faults : Faults} {db : Database Schema} {tx : Connection Schema}
  {migrations : List (Migration Schema)} {E : Exc → Connection Schema → Database Schema → Prop}

/-- A call is answered as the database serves it. -/
theorem served_call {op : Op Schema} {X : op.Res → Database Schema → Prop}
    (h : X (serve base faults db ⟨tx, op⟩).1 (serve base faults db ⟨tx, op⟩).2) :
    ∀ s₁, (served base faults).rely db s₁ → (served base faults).guar s₁ ⟨tx, op⟩ ∧
      ∀ answer s', (served base faults).step s₁ ⟨tx, op⟩ answer s' → X answer s' := by
  rintro s₁ rfl
  constructor
  · trivial
  · intro answer s' hserve
    obtain ⟨rfl, rfl⟩ := Prod.mk.inj hserve
    exact h

theorem okIf_cases {p : Prop} [Decidable p] {A : Prop} {B : Exc → Prop} (hok : p → A)
    (herror : ¬ p → B databaseError) :
    match okIf p with
    | .ok _ => A
    | .error e => B e := by
  unfold okIf
  by_cases h : p
  · rw [if_pos h]
    exact hok h
  · rw [if_neg h]
    exact herror h

theorem served_execute {sql : List (Statement Schema)} {Q : Unit → Connection Schema → Database Schema → Prop}
    (hok : (accepted sql (Database.schema base (db ++ tx))).length = sql.length →
      Q () (tx ++ sql.map Work.statement) db)
    (herror : E databaseError tx db) : Act.wp (served base faults) (execute sql) Q E tx db := by
  apply wp_execute.mpr
  apply served_call
  exact okIf_cases hok fun _ => herror

theorem served_executescript {sql : List (Statement Schema)}
    {Q : Unit → Connection Schema → Database Schema → Prop}
    (hok : (accepted sql (Database.schema base (db ++ tx))).length = sql.length →
      Q () [] (db ++ tx ++ sql.map Work.statement))
    (herror : (accepted sql (Database.schema base (db ++ tx))).length ≠ sql.length →
      E databaseError [] (db ++ tx ++ (accepted sql (Database.schema base (db ++ tx))).map Work.statement)) :
    Act.wp (served base faults) (executescript sql) Q E tx db := by
  apply wp_executescript.mpr
  apply served_call
  refine okIf_cases (fun hlength => ?_) herror
  have hran := hok hlength
  rw [← accepted_eq hlength] at hran
  exact hran

theorem served_insertRow {id : String} {Q : Unit → Connection Schema → Database Schema → Prop}
    (hok : faults.row id = false → id ∉ Database.ledger (db ++ tx) → Q () (tx ++ [.row id]) db)
    (herror : ¬ (faults.row id = false ∧ id ∉ Database.ledger (db ++ tx)) → E databaseError tx db) :
    Act.wp (served base faults) (insertRow id) Q E tx db := by
  apply wp_insertRow.mpr
  apply served_call
  exact okIf_cases (fun h => hok h.1 h.2) herror

theorem served_commit {Q : Unit → Connection Schema → Database Schema → Prop}
    (hok : (Database.ledger tx).findSome? faults.commit = none → Q () [] (db ++ tx))
    (herror : ∀ tookEffect, (Database.ledger tx).findSome? faults.commit = some tookEffect →
      E databaseError [] (if tookEffect then db ++ tx else db)) :
    Act.wp (served base faults) commit Q E tx db := by
  apply wp_commit.mpr
  apply served_call
  have hafter : (serve base faults db ⟨tx, .commit⟩).2 =
      if (Database.ledger tx).findSome? faults.commit = some false then db else db ++ tx := rfl
  refine okIf_cases (fun hnone => ?_) fun hsome => ?_
  · have hdone : (Database.ledger tx).findSome? faults.commit ≠ some false := by
      rw [hnone]
      exact nofun
    rw [hafter, if_neg hdone]
    exact hok hnone
  · obtain ⟨tookEffect, hfault⟩ := Option.ne_none_iff_exists'.mp hsome
    have hraised := herror tookEffect hfault
    cases tookEffect with
    | true =>
        rw [hafter, if_neg (by rw [hfault]; exact nofun)]
        exact hraised
    | false =>
        rw [hafter, if_pos hfault]
        exact hraised

theorem served_rollback {Q : Unit → Connection Schema → Database Schema → Prop} (hok : Q () [] db) :
    Act.wp (served base faults) rollback Q E tx db := by
  apply wp_rollback.mpr
  apply served_call
  exact hok

/-- After a failure the transaction is rolled back, and the exception goes on. -/
theorem served_reraise {α : Type} {e : Exc} {Q : α → Connection Schema → Database Schema → Prop}
    (h : E e [] db) :
    Act.wp (served base faults) rollback
      (fun _ tx db => Act.wp (served base faults) (throw e : MigratorM Schema α) Q E tx db) E tx db :=
  served_rollback h

theorem findSome?_row (id : String) (commit : String → Option Bool) (sql : List (Statement Schema)) :
    (Database.ledger (sql.map Work.statement ++ [.row id])).findSome? commit = commit id := by
  have hledger := @ledger_append_row Schema (sql.map Work.statement) id
  have hsql := @ledger_append_statements Schema [] sql
  rw [List.nil_append] at hsql
  rw [hledger, hsql]
  change [id].findSome? commit = commit id
  rw [List.findSome?_singleton]

/-- On PostgreSQL the script and its row are committed together, or not at all. -/
theorem consistent_apply_postgres (hids : (migrations.map Migration.id).Nodup)
    (h : Consistent base migrations db) {m : Migration Schema} (hm : m ∈ migrations) :
    Act.wp (served base faults) (apply .postgres m)
      (fun _ tx db' => tx = [] ∧ Consistent base migrations db' ∧ db'.ledger = db.ledger ++ [m.id])
      (fun _ _ db' => Consistent base migrations db') [] db := by
  have happlied := h.applied hids hm
  simp only [apply, execDdl, Act.wp_tryCatch, Act.wp_bind]
  apply served_execute
  · intro _
    apply served_insertRow
    · intro _ _
      apply served_commit
      · intro _
        refine ⟨rfl, ?_, ?_⟩
        · rw [List.nil_append, ← List.append_assoc]
          exact happlied
        · rw [List.nil_append, ← List.append_assoc, ledger_append_row, ledger_append_statements]
      · intro tookEffect _
        apply served_reraise
        cases tookEffect with
        | true =>
            rw [if_pos rfl, List.nil_append, ← List.append_assoc]
            exact happlied
        | false => exact h
    · intro _
      exact served_reraise h
  · exact served_reraise h

/-- What becomes of a migration that SQLite is to apply. -/
theorem apply_sqlite (hids : (migrations.map Migration.id).Nodup) (h : Consistent base migrations db)
    {m : Migration Schema} (hm : m ∈ migrations) (hfresh : m.id ∉ db.ledger) (rest : List (Migration Schema)) :
    Act.wp (served base faults) (apply .sqlite m)
      (fun _ tx db' => tx = [] ∧ Consistent base migrations db' ∧ db'.ledger = db.ledger ++ [m.id] ∧
        (Spared faults (db.schema base) (m :: rest) ↔ Spared faults (db'.schema base) rest))
      (fun _ _ db' => Consistent base migrations db' ↔ Spared faults (db.schema base) (m :: rest)) [] db := by
  have happlied := h.applied hids hm
  simp only [apply, execDdl, Act.wp_tryCatch, Act.wp_bind]
  apply served_executescript
  · intro hlength
    rw [List.append_nil] at hlength ⊢
    have hrun := accepted_eq hlength
    apply served_insertRow
    · intro hrow _
      apply served_commit
      · intro hcommit
        have hcommit' : faults.commit m.id = none := by
          have hfind := @findSome?_row Schema m.id faults.commit []
          exact hfind.symm.trans hcommit
        refine ⟨rfl, happlied, ?_, ?_⟩
        · rw [List.nil_append, ledger_append_row, ledger_append_statements]
        · rw [List.nil_append, schema_append_row, schema_append_statements]
          simp [Spared, hlength, hrow, hcommit']
      · intro tookEffect hcommit
        apply served_reraise
        have hcommit' : faults.commit m.id = some tookEffect := by
          have hfind := @findSome?_row Schema m.id faults.commit []
          exact hfind.symm.trans hcommit
        cases tookEffect with
        | true =>
            rw [if_pos rfl]
            simp only [Spared, hlength, hrow, hcommit']
            simpa using happlied
        | false =>
            rw [if_neg Bool.false_ne_true, h.append_statements_iff]
            simp [Spared, hrun, hcommit']
    · intro hrow
      apply served_reraise
      have hfault : faults.row m.id = true := by
        by_contra hnone
        apply hrow
        refine ⟨eq_false_of_ne_true hnone, ?_⟩
        rw [List.append_nil, ledger_append_statements]
        exact hfresh
      rw [h.append_statements_iff]
      simp [Spared, hrun, hfault]
  · intro hlength
    rw [List.append_nil] at hlength ⊢
    apply served_reraise
    rw [h.append_statements_iff]
    simp [Spared, hlength]

/-- The migrations that are still to be applied. -/
def pending (done : List String) (migrations : List (Migration Schema)) : List (Migration Schema) :=
  migrations.filter fun m => m.id ∉ done

theorem pending_cons_of_mem {done : List String} {m : Migration Schema} (h : m.id ∈ done)
    (rest : List (Migration Schema)) : pending done (m :: rest) = pending done rest :=
  List.filter_cons_of_neg (by simpa using h)

theorem pending_cons_of_notMem {done : List String} {m : Migration Schema} (h : m.id ∉ done)
    (rest : List (Migration Schema)) : pending done (m :: rest) = m :: pending done rest :=
  List.filter_cons_of_pos (by simpa using h)

theorem applyPending_postgres (hids : (migrations.map Migration.id).Nodup) (done : List String)
    {rest : List (Migration Schema)} (hrest : ∀ m ∈ rest, m ∈ migrations) (h : Consistent base migrations db) :
    Act.wp (served base faults) (applyPending .postgres done rest) (fun _ _ _ => True)
      (fun _ _ db' => Consistent base migrations db') [] db := by
  induction rest generalizing db with
  | nil => trivial
  | cons m rest ih =>
      have hlater : ∀ m ∈ rest, m ∈ migrations := fun m hm => hrest m (List.mem_cons_of_mem _ hm)
      rw [applyPending]
      by_cases hm : m.id ∈ done
      · rw [if_pos hm]
        exact ih hlater h
      · rw [if_neg hm, Act.wp_bind]
        have hstep := @consistent_apply_postgres Schema base faults db migrations hids h m
          (hrest m List.mem_cons_self)
        apply Act.wp_mono _ _ (fun _ _ _ h => h) hstep
        rintro _ tx db' ⟨rfl, hconsistent, -⟩
        rw [Act.wp_bind]
        exact ih hlater hconsistent

/-- The loop of `run`, by induction on the migrations that are left: it ends well, or the schema is that
of the ledger just if the first migration to fail was spared. -/
theorem applyPending_sqlite (hids : (migrations.map Migration.id).Nodup) (done : List String)
    {rest : List (Migration Schema)} (hrest : ∀ m ∈ rest, m ∈ migrations) (hnodup : (rest.map Migration.id).Nodup)
    (h : Consistent base migrations db) (hdone : ∀ m ∈ rest, m.id ∉ done → m.id ∉ db.ledger) :
    Act.wp (served base faults) (applyPending .sqlite done rest)
      (fun _ _ _ => Spared faults (db.schema base) (pending done rest))
      (fun _ _ db' => Consistent base migrations db' ↔ Spared faults (db.schema base) (pending done rest))
      [] db := by
  induction rest generalizing db with
  | nil => trivial
  | cons m rest ih =>
      have hlater : ∀ m ∈ rest, m ∈ migrations := fun m hm => hrest m (List.mem_cons_of_mem _ hm)
      obtain ⟨hnew, hnodup'⟩ := List.nodup_cons.mp hnodup
      rw [applyPending]
      by_cases hm : m.id ∈ done
      · rw [if_pos hm, pending_cons_of_mem hm]
        apply ih hlater hnodup' h
        intro other hother
        exact hdone other (List.mem_cons_of_mem _ hother)
      · rw [if_neg hm, Act.wp_bind, pending_cons_of_notMem hm]
        have hstep := @apply_sqlite Schema base faults db migrations hids h m (hrest m List.mem_cons_self)
          (hdone m List.mem_cons_self hm) (pending done rest)
        apply Act.wp_mono _ _ (fun _ _ _ h => h) hstep
        rintro _ tx db' ⟨rfl, hconsistent, hledger, hspared⟩
        rw [Act.wp_bind]
        have hnext := ih hlater hnodup' hconsistent (by
          intro other hother hout
          rw [hledger, List.mem_append, List.mem_singleton]
          rintro (hin | hsame)
          · exact hdone other (List.mem_cons_of_mem _ hother) hout hin
          · exact hnew (hsame ▸ List.mem_map_of_mem hother))
        rw [← hspared] at hnext
        exact hnext

theorem served_connect {Q : Unit → Connection Schema → Database Schema → Prop} (h : Q () tx db) :
    Act.wp (served base faults) connect Q E tx db := by
  apply wp_connect.mpr
  apply served_call
  exact h

theorem served_createLedger {Q : Unit → Connection Schema → Database Schema → Prop} (h : Q () tx db) :
    Act.wp (served base faults) createLedger Q E tx db := by
  apply wp_createLedger.mpr
  apply served_call
  exact h

theorem served_selectIds {Q : List String → Connection Schema → Database Schema → Prop}
    (h : Q db.ledger tx db) : Act.wp (served base faults) selectIds Q E tx db := by
  apply wp_selectIds.mpr
  apply served_call
  exact h

theorem served_close {Q : Unit → Connection Schema → Database Schema → Prop} (h : Q () tx db) :
    Act.wp (served base faults) close Q E tx db := by
  apply wp_close.mpr
  apply served_call
  exact h

/-- The calls that `run` makes before and after it applies migrations change nothing. -/
theorem wp_run {dialect : Dialect} {Q : List String → Connection Schema → Database Schema → Prop}
    (h : Act.wp (served base faults) (applyPending dialect db.ledger migrations) Q E [] db) :
    Act.wp (served base faults) (run dialect migrations) Q E [] db := by
  simp only [run, applied, Act.wp_bind, Act.wp_tryCatch]
  apply served_connect
  apply served_createLedger
  apply served_commit
  · intro _
    rw [List.append_nil]
    apply served_selectIds
    apply Act.wp_mono _ _ _ h
    · intro newly tx db' hQ
      exact served_close hQ
    · intro e tx db' hE
      exact served_close hE
  · intro _ hfault
    cases hfault

/-- The result of `run` on a database. -/
def outcome (base : Schema) (faults : Faults) (dialect : Dialect) (migrations : List (Migration Schema))
    (db : Database Schema) : Except Exc (List String) × Database Schema :=
  let out := ((run dialect migrations).exec []).complete (serve base faults) db
  (out.2.1.1, out.2.2)

theorem outcome_of_wp {dialect : Dialect} {Q : List String → Connection Schema → Database Schema → Prop}
    (h : Act.wp (served base faults) (run dialect migrations) Q E [] db) :
    match (outcome base faults dialect migrations db).1 with
    | .ok newly => ∃ tx, Q newly tx (outcome base faults dialect migrations db).2
    | .error e => ∃ tx, E e tx (outcome base faults dialect migrations db).2 := by
  have hserve : ∀ db site, (served base faults).step db site (serve base faults db site).1
      (serve base faults db site).2 := fun _ _ => rfl
  have hexec := Prog.complete_exec hserve ((run dialect migrations).exec []) db
  obtain ⟨trace, ⟨result, tx⟩, db', hout⟩ : ∃ trace out db',
      ((run dialect migrations).exec []).complete (serve base faults) db = (trace, out, db') :=
    ⟨_, _, _, rfl⟩
  rw [hout] at hexec
  simp only [outcome, hout]
  cases result with
  | ok newly => exact ⟨tx, Act.wp_of_exec hexec h⟩
  | error e => exact ⟨tx, Act.wp_of_exec hexec h⟩

/-- After `run` has raised the schema is the one of the migrations in the ledger, just if the database is
PostgreSQL or the first migration to fail was spared. -/
theorem raised_consistent_iff (base : Schema) (faults : Faults) (dialect : Dialect)
    (migrations : List (Migration Schema)) (db : Database Schema)
    (hids : (migrations.map Migration.id).Nodup) (h : Consistent base migrations db) :
    (∀ e, (outcome base faults dialect migrations db).1 = .error e →
        Consistent base migrations (outcome base faults dialect migrations db).2) ↔
      dialect = .postgres ∨ Spared faults (db.schema base) (pending db.ledger migrations) := by
  have hself : ∀ m ∈ migrations, m ∈ migrations := fun _ hm => hm
  cases dialect with
  | postgres =>
      have hend := outcome_of_wp (wp_run (@applyPending_postgres Schema base faults db migrations hids
        db.ledger migrations hself h))
      constructor
      · intro _
        exact Or.inl rfl
      · intro _ e he
        rw [he] at hend
        obtain ⟨-, hconsistent⟩ := hend
        exact hconsistent
  | sqlite =>
      have hdone : ∀ m ∈ migrations, m.id ∉ db.ledger → m.id ∉ db.ledger := fun _ _ hout => hout
      have hend := outcome_of_wp (wp_run (@applyPending_sqlite Schema base faults db migrations hids
        db.ledger migrations hself hids h hdone))
      cases hout : (outcome base faults .sqlite migrations db).1 with
      | ok newly =>
          rw [hout] at hend
          obtain ⟨-, hspared⟩ := hend
          constructor
          · intro _
            exact Or.inr hspared
          · exact fun _ e he => nomatch he
      | error e =>
          rw [hout] at hend
          obtain ⟨-, hiff⟩ := hend
          constructor
          · intro hconsistent
            exact Or.inr (hiff.mp (hconsistent e rfl))
          · rintro (hpostgres | hspared) e' _
            · exact absurd hpostgres nofun
            · exact hiff.mpr hspared

end Runs

/-! ### A script that fails half-way -/

/-- `CREATE TABLE`, on schemas that are lists of tables. -/
def createTable (name : String) : Statement (List String) := fun tables =>
  if name ∈ tables then none else some (tables ++ [name])

def faultless : Faults := ⟨fun _ => false, fun _ => none⟩

/-- The second statement is refused. -/
def twice : List (Migration (List String)) :=
  [⟨"0001_a", "create t1 twice", [createTable "t1", createTable "t1"]⟩]

/-- The table that the first statement created stays, and the ledger is empty. -/
theorem first_statement_stays :
    (outcome [] faultless .sqlite twice []).1 = .error databaseError ∧
      ¬ Consistent [] twice (outcome [] faultless .sqlite twice []).2 := by
  constructor
  · rfl
  · unfold Consistent
    decide +kernel

/-- The second migration is refused by its first statement. -/
def again : List (Migration (List String)) :=
  [⟨"0001_a", "create t1", [createTable "t1", createTable "t2"]⟩, ⟨"0002_b", "create t1 again", [createTable "t1"]⟩]

/-- PostgreSQL undoes the first statement with the second one, and SQLite has nothing to undo. -/
theorem raised_consistent_twice :
    ((outcome [] faultless .postgres twice []).1 = .error databaseError ∧
        Consistent [] twice (outcome [] faultless .postgres twice []).2) ∧
      (outcome [] faultless .sqlite again []).1 = .error databaseError ∧
        Consistent [] again (outcome [] faultless .sqlite again []).2 := by
  have hspared : Spared faultless (Database.schema [] []) (pending [] again) := by
    simp [Spared, again, pending, Database.schema, faultless, runAll, accepted, createTable]
  exact ⟨⟨rfl, (raised_consistent_iff [] faultless .postgres twice [] (by decide) rfl).mpr (Or.inl rfl) _ rfl⟩,
    rfl, (raised_consistent_iff [] faultless .sqlite again [] (by decide) rfl).mpr (Or.inr hspared) _ rfl⟩

end Bass.Migrator
