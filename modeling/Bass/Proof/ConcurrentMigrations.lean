import Bass.Interaction.Pool
import Bass.Proof.Migrations

/-!
# Concurrent migrations on PostgreSQL

Any number of calls of `run`, with lists that are beginnings of one list, each stopped or failing
anywhere. A call works from the ledger that it read first. What it commits is one script with its row,
and when it does so every earlier migration of the list has its row; since the ids in the ledger are
unique, a commit that succeeds extends the ledger by the next migration of the list.
-/

namespace Bass.Migrator

open Interaction

variable {Schema : Type}

/-- PostgreSQL: a commit puts the transaction into the database as a whole, or not at all, and an error
leaves open which; ids are unique. Every other call may raise too. -/
def Postgres.step (db : Database Schema) (site : Site (Op Schema) (Connection Schema))
    (answer : site.op.Res) (db' : Database Schema) : Prop :=
  match site, answer with
  | ⟨tx, .commit⟩, .ok _ => (Database.ledger (db ++ tx)).Nodup ∧ db' = db ++ tx
  | ⟨tx, .commit⟩, .error _ => db' = db ∨ (Database.ledger (db ++ tx)).Nodup ∧ db' = db ++ tx
  | ⟨_, .selectIds⟩, .ok ids => (∀ id, id ∈ ids ↔ id ∈ db.ledger) ∧ db' = db
  | _, _ => db' = db

/-- The lists that calls of `run` are made with: beginnings of the list as it will be in the end. -/
abbrev Release (master : List (Migration Schema)) : Type := { migrations // migrations <+: master }

/-- A call of `run` from its connection on. -/
def caller {master : List (Migration Schema)} (release : Release master) :
    Prog (Site (Op Schema) (Connection Schema)) (fun site => site.op.Res) Unit := do
  let _ ← (call .postgres release.1).exec []
  return

/-- The work of migrations that are applied one after the other, each script with its row. -/
def workOf (migrations : List (Migration Schema)) : List (Work Schema) :=
  migrations.flatMap fun m => m.sql.map Work.statement ++ [.row m.id]

/-- Some migrations that follow the ones in the ledger at the start have been applied, in order. -/
def Progressed (master old : List (Migration Schema)) (db₀ db : Database Schema) : Prop :=
  ∃ new, old ++ new <+: master ∧ db = db₀ ++ workOf new

def Grows (db db' : Database Schema) : Prop := ∃ more, db' = db ++ more

/-- What a call of `run` owes: it commits nothing, or one migration with its row when those before it are
in the ledger; and it returns when all of its list is. -/
def callGuar {master : List (Migration Schema)} (release : Release master) (db : Database Schema)
    (site : Site (Op Schema) (Connection Schema)) : Prop :=
  match site with
  | ⟨tx, .commit⟩ => tx = [] ∨ ∃ before m, before ++ [m] <+: master ∧ tx = workOf [m] ∧
      ∀ x ∈ before, x.id ∈ db.ledger
  | ⟨_, .report (.ok _)⟩ => ∀ m ∈ release.1, m.id ∈ db.ledger
  | _ => True

/-- What a call owes that finds its whole list in the ledger: it runs nothing and returns no id. -/
def Idle (site : Site (Op Schema) (Connection Schema)) : Prop :=
  match site with
  | ⟨_, .execute _⟩ | ⟨_, .executescript _⟩ | ⟨_, .insertRow _⟩ => False
  | ⟨tx, .commit⟩ => tx = []
  | ⟨_, .report (.ok newly)⟩ => newly = []
  | _ => True

/-- Whatever others do, the database only grows. -/
def growing (guar : Database Schema → Site (Op Schema) (Connection Schema) → Prop) :
    MigratorSpec Schema (Database Schema) :=
  { step := Postgres.step
    rely := Grows
    guar := guar }

/-! ### The database grows -/

section Growth

variable {db db' db₁ : Database Schema} {site : Site (Op Schema) (Connection Schema)} {answer : site.op.Res}

theorem Grows.refl (db : Database Schema) : Grows db db := ⟨[], (List.append_nil db).symm⟩

theorem Grows.trans (h : Grows db db₁) (h' : Grows db₁ db') : Grows db db' := by
  obtain ⟨more, rfl⟩ := h
  obtain ⟨more', rfl⟩ := h'
  exact ⟨more ++ more', List.append_assoc db more more'⟩

theorem Grows.mem_ledger (h : Grows db db') {id : String} (hmem : id ∈ db.ledger) : id ∈ db'.ledger := by
  obtain ⟨more, rfl⟩ := h
  rw [Database.ledger, List.filterMap_append]
  exact List.mem_append_left _ hmem

/-- A call leaves the database as it is, or commits the transaction. -/
theorem Postgres.step_cases (h : Postgres.step db site answer db') :
    db' = db ∨ site.op = .commit ∧ (Database.ledger (db ++ site.mem)).Nodup ∧ db' = db ++ site.mem := by
  obtain ⟨tx, op⟩ := site
  cases op with
  | commit =>
      cases answer with
      | ok _ => exact Or.inr ⟨rfl, h⟩
      | error e =>
          rcases h with rfl | hcommitted
          · exact Or.inl rfl
          · exact Or.inr ⟨rfl, hcommitted⟩
  | selectIds =>
      cases answer with
      | ok ids => exact Or.inl h.2
      | error e => exact Or.inl h
  | connect => cases answer <;> exact Or.inl h
  | createLedger => cases answer <;> exact Or.inl h
  | execute sql => cases answer <;> exact Or.inl h
  | executescript sql => cases answer <;> exact Or.inl h
  | insertRow id => cases answer <;> exact Or.inl h
  | rollback => cases answer <;> exact Or.inl h
  | close => exact Or.inl h
  | report out => exact Or.inl h

theorem grows_of_step (h : Postgres.step db site answer db') : Grows db db' := by
  rcases Postgres.step_cases h with rfl | ⟨-, -, rfl⟩
  · exact Grows.refl db'
  · exact ⟨site.mem, rfl⟩

end Growth

/-! ### One commit after the other -/

section Progress

variable {master old before : List (Migration Schema)} {db₀ db db' : Database Schema}
  {m : Migration Schema}

theorem ledger_append (db db' : Database Schema) :
    Database.ledger (db ++ db') = db.ledger ++ Database.ledger db' := List.filterMap_append

theorem ledger_workOf (migrations : List (Migration Schema)) :
    Database.ledger (workOf migrations) = migrations.map Migration.id := by
  induction migrations with
  | nil => rfl
  | cons m migrations ih =>
      have hcons : workOf (m :: migrations) =
          [] ++ m.sql.map Work.statement ++ [.row m.id] ++ workOf migrations := List.flatMap_cons
      rw [hcons, ledger_append, ih, ledger_append_row, ledger_append_statements]
      rfl

theorem workOf_append (migrations more : List (Migration Schema)) :
    workOf (migrations ++ more) = workOf migrations ++ workOf more := List.flatMap_append

/-- A list of migrations has only one next migration that is not applied yet, if all before it are. -/
theorem eq_of_isPrefix {applied : List (Migration Schema)} (hids : (master.map Migration.id).Nodup)
    (hbefore : before ++ [m] <+: master) (happlied : applied <+: master)
    (hdone : ∀ x ∈ before, x.id ∈ applied.map Migration.id) (hnew : m.id ∉ applied.map Migration.id) :
    before = applied := by
  have hbefore' : before <+: master := (List.prefix_append before [m]).trans hbefore
  rcases List.prefix_or_prefix_of_prefix hbefore' happlied with ⟨rest, rfl⟩ | ⟨rest, rfl⟩
  · cases rest with
    | nil => exact (List.append_nil before).symm
    | cons y rest =>
        exfalso
        have hsame : m = y := by
          obtain ⟨after, hafter⟩ := hbefore
          obtain ⟨after', hafter'⟩ := happlied
          rw [← hafter', List.append_assoc, List.append_assoc] at hafter
          exact (List.cons.inj (List.append_cancel_left hafter)).1
        apply hnew
        rw [hsame]
        exact List.mem_map_of_mem (List.mem_append_right _ List.mem_cons_self)
  · cases rest with
    | nil => exact List.append_nil applied
    | cons y rest =>
        exfalso
        have hnodup : ((applied ++ y :: rest).map Migration.id).Nodup :=
          hids.sublist (hbefore'.sublist.map Migration.id)
        rw [List.map_append, List.nodup_append] at hnodup
        have hy := hdone y (List.mem_append_right _ List.mem_cons_self)
        exact hnodup.2.2 _ hy _ (List.mem_map_of_mem List.mem_cons_self) rfl

/-- A guaranteed commit that succeeds applies the next migration of the list. -/
theorem Progressed.step {release : Release master} {site : Site (Op Schema) (Connection Schema)}
    {answer : site.op.Res} (hids : (master.map Migration.id).Nodup)
    (hstart : db₀.ledger = old.map Migration.id) (h : Progressed master old db₀ db)
    (howed : callGuar release db site) (hstep : Postgres.step db site answer db') :
    Progressed master old db₀ db' := by
  rcases Postgres.step_cases hstep with rfl | ⟨hcommit, hnodup, rfl⟩
  · exact h
  · obtain ⟨tx, op⟩ := site
    obtain rfl : op = .commit := hcommit
    rcases howed with rfl | ⟨before, m, hbefore, rfl, hdone⟩
    · rw [List.append_nil]
      exact h
    · obtain ⟨new, hnew, rfl⟩ := h
      have hledger : Database.ledger (db₀ ++ workOf new) = (old ++ new).map Migration.id := by
        rw [ledger_append, hstart, ledger_workOf, List.map_append]
      have hfresh : m.id ∉ (old ++ new).map Migration.id := by
        rw [ledger_append, hledger, ledger_workOf, List.nodup_append] at hnodup
        intro hmem
        exact hnodup.2.2 _ hmem _ List.mem_cons_self rfl
      rw [hledger] at hdone
      obtain rfl := eq_of_isPrefix hids hbefore hnew hdone hfresh
      refine ⟨new ++ [m], ?_, ?_⟩
      · rw [← List.append_assoc]
        exact hbefore
      · rw [workOf_append, List.append_assoc]

end Progress

/-! ### Calls while the database grows -/

section Growing

variable {guar : Database Schema → Site (Op Schema) (Connection Schema) → Prop} {db : Database Schema}
  {tx : Connection Schema} {E : Exc → Connection Schema → Database Schema → Prop}

/-- A call made while the database grows, which it still does afterwards. -/
theorem growing_call {op : Op Schema} {X : op.Res → Database Schema → Prop}
    (hguar : ∀ db', Grows db db' → guar db' ⟨tx, op⟩)
    (h : ∀ answer db₁ db', Postgres.step db₁ ⟨tx, op⟩ answer db' → Grows db db' → X answer db') :
    ∀ db₁, (growing guar).rely db db₁ → (growing guar).guar db₁ ⟨tx, op⟩ ∧
      ∀ answer db', (growing guar).step db₁ ⟨tx, op⟩ answer db' → X answer db' := by
  intro db₁ hrely
  constructor
  · exact hguar db₁ hrely
  · intro answer db' hstep
    exact h answer db₁ db' hstep (hrely.trans (grows_of_step hstep))

theorem growing_connect {Q : Unit → Connection Schema → Database Schema → Prop}
    (hguar : ∀ db', Grows db db' → guar db' ⟨tx, .connect⟩) (hok : ∀ db', Grows db db' → Q () tx db')
    (herror : ∀ e db', Grows db db' → E e tx db') : Act.wp (growing guar) connect Q E tx db := by
  apply wp_connect.mpr
  apply growing_call hguar
  intro answer db₁ db' _ hgrows
  cases answer with
  | ok _ => exact hok db' hgrows
  | error e => exact herror e db' hgrows

theorem growing_createLedger {Q : Unit → Connection Schema → Database Schema → Prop}
    (hguar : ∀ db', Grows db db' → guar db' ⟨tx, .createLedger⟩) (hok : ∀ db', Grows db db' → Q () tx db')
    (herror : ∀ e db', Grows db db' → E e tx db') : Act.wp (growing guar) createLedger Q E tx db := by
  apply wp_createLedger.mpr
  apply growing_call hguar
  intro answer db₁ db' _ hgrows
  cases answer with
  | ok _ => exact hok db' hgrows
  | error e => exact herror e db' hgrows

theorem growing_execute {sql : List (Statement Schema)} {Q : Unit → Connection Schema → Database Schema → Prop}
    (hguar : ∀ db', Grows db db' → guar db' ⟨tx, .execute sql⟩) (hok : ∀ db', Grows db db' → Q () (tx ++ sql.map Work.statement) db')
    (herror : ∀ e db', Grows db db' → E e tx db') : Act.wp (growing guar) (execute sql) Q E tx db := by
  apply wp_execute.mpr
  apply growing_call hguar
  intro answer db₁ db' _ hgrows
  cases answer with
  | ok _ => exact hok db' hgrows
  | error e => exact herror e db' hgrows

theorem growing_insertRow {id : String} {Q : Unit → Connection Schema → Database Schema → Prop}
    (hguar : ∀ db', Grows db db' → guar db' ⟨tx, .insertRow id⟩) (hok : ∀ db', Grows db db' → Q () (tx ++ [.row id]) db')
    (herror : ∀ e db', Grows db db' → E e tx db') : Act.wp (growing guar) (insertRow id) Q E tx db := by
  apply wp_insertRow.mpr
  apply growing_call hguar
  intro answer db₁ db' _ hgrows
  cases answer with
  | ok _ => exact hok db' hgrows
  | error e => exact herror e db' hgrows

theorem growing_rollback {Q : Unit → Connection Schema → Database Schema → Prop}
    (hguar : ∀ db', Grows db db' → guar db' ⟨tx, .rollback⟩) (hok : ∀ db', Grows db db' → Q () [] db')
    (herror : ∀ e db', Grows db db' → E e [] db') : Act.wp (growing guar) rollback Q E tx db := by
  apply wp_rollback.mpr
  apply growing_call hguar
  intro answer db₁ db' _ hgrows
  cases answer with
  | ok _ => exact hok db' hgrows
  | error e => exact herror e db' hgrows

theorem growing_commit {Q : Unit → Connection Schema → Database Schema → Prop}
    (hguar : ∀ db', Grows db db' → guar db' ⟨tx, .commit⟩)
    (hok : ∀ db', Grows db db' → (∀ id ∈ Database.ledger tx, id ∈ db'.ledger) → Q () [] db')
    (herror : ∀ e db', Grows db db' → E e [] db') : Act.wp (growing guar) commit Q E tx db := by
  apply wp_commit.mpr
  apply growing_call hguar
  intro answer db₁ db' hstep hgrows
  cases answer with
  | ok _ =>
      apply hok db' hgrows
      obtain ⟨-, rfl⟩ := hstep
      intro id hid
      rw [ledger_append]
      exact List.mem_append_right _ hid
  | error e => exact herror e db' hgrows

theorem growing_selectIds {Q : List String → Connection Schema → Database Schema → Prop}
    (hguar : ∀ db', Grows db db' → guar db' ⟨tx, .selectIds⟩)
    (hok : ∀ ids db', Grows db db' → (∀ id, id ∈ ids ↔ id ∈ db'.ledger) → Q ids tx db')
    (herror : ∀ e db', Grows db db' → E e tx db') : Act.wp (growing guar) selectIds Q E tx db := by
  apply wp_selectIds.mpr
  apply growing_call hguar
  intro answer db₁ db' hstep hgrows
  cases answer with
  | ok ids =>
      apply hok ids db' hgrows
      obtain ⟨hids, rfl⟩ := hstep
      exact hids
  | error e => exact herror e db' hgrows

theorem growing_close {Q : Unit → Connection Schema → Database Schema → Prop}
    (hguar : ∀ db', Grows db db' → guar db' ⟨tx, .close⟩) (h : ∀ db', Grows db db' → Q () tx db') :
    Act.wp (growing guar) close Q E tx db := by
  apply wp_close.mpr
  apply growing_call hguar
  exact fun _ _ db' _ hgrows => h db' hgrows

theorem growing_report {out : Except Exc (List String)} {Q : Unit → Connection Schema → Database Schema → Prop}
    (hguar : ∀ db', Grows db db' → guar db' ⟨tx, .report out⟩) (h : ∀ db', Grows db db' → Q () tx db') :
    Act.wp (growing guar) (report out) Q E tx db := by
  apply wp_report.mpr
  apply growing_call hguar
  exact fun _ _ db' _ hgrows => h db' hgrows

end Growing

/-! ### What a call guarantees -/

section Calls

variable {master : List (Migration Schema)} {release : Release master} {db : Database Schema}

/-- A migration is committed with its row, after those before it. -/
theorem wp_apply {before : List (Migration Schema)} {m : Migration Schema}
    (hbefore : before ++ [m] <+: master) (hdone : ∀ x ∈ before, x.id ∈ db.ledger) :
    Act.wp (growing (callGuar release)) (apply .postgres m)
      (fun _ tx db' => tx = [] ∧ m.id ∈ db'.ledger ∧ Grows db db') (fun _ _ _ => True) [] db := by
  have hraise : ∀ (e : Exc) (tx : Connection Schema) (db' : Database Schema),
      Act.wp (growing (callGuar release)) rollback
        (fun _ tx db' => Act.wp (growing (callGuar release)) (throw e : MigratorM Schema Unit)
          (fun _ tx db' => tx = [] ∧ m.id ∈ db'.ledger ∧ Grows db db') (fun _ _ _ => True) tx db')
        (fun _ _ _ => True) tx db' := by
    intro e tx db'
    exact growing_rollback (fun _ _ => trivial) (fun _ _ => trivial) (fun _ _ _ => trivial)
  simp only [apply, execDdl, Act.wp_tryCatch, Act.wp_bind]
  apply growing_execute
  · exact fun _ _ => trivial
  · intro db₁ hgrows₁
    apply growing_insertRow
    · exact fun _ _ => trivial
    · intro db₂ hgrows₂
      have hwork : [] ++ m.sql.map Work.statement ++ [.row m.id] = workOf [m] := by
        rw [workOf, List.flatMap_singleton, List.nil_append]
      rw [hwork]
      apply growing_commit
      · intro db₃ hgrows₃
        right
        refine ⟨before, m, hbefore, rfl, fun x hx => ?_⟩
        exact ((hgrows₁.trans hgrows₂).trans hgrows₃).mem_ledger (hdone x hx)
      · intro db₃ hgrows₃ hrow
        refine ⟨rfl, hrow m.id ?_, (hgrows₁.trans hgrows₂).trans hgrows₃⟩
        rw [ledger_workOf]
        exact List.mem_cons_self
      · exact fun e _ _ => hraise e _ _
    · exact fun e _ _ => hraise e _ _
  · exact fun e _ _ => hraise e _ _

/-- The loop of `run`, by induction on the migrations that are left. -/
theorem wp_applyPending {done : List String} {before rest : List (Migration Schema)}
    (hmaster : before ++ rest <+: master) (hbefore : ∀ x ∈ before, x.id ∈ db.ledger)
    (hdone : ∀ id ∈ done, id ∈ db.ledger) :
    Act.wp (growing (callGuar release)) (applyPending .postgres done rest)
      (fun _ tx db' => tx = [] ∧ ∀ x ∈ before ++ rest, x.id ∈ db'.ledger) (fun _ _ _ => True) [] db := by
  induction rest generalizing before db with
  | nil =>
      refine ⟨rfl, ?_⟩
      rw [List.append_nil]
      exact hbefore
  | cons m rest ih =>
      have hmaster' : before ++ [m] ++ rest <+: master := by
        rw [List.append_assoc]
        exact hmaster
      have hnext : before ++ [m] <+: master := (List.prefix_append _ rest).trans hmaster'
      have hsplit : before ++ m :: rest = before ++ [m] ++ rest := by rw [List.append_assoc]; rfl
      rw [applyPending, hsplit]
      by_cases hm : m.id ∈ done
      · rw [if_pos hm]
        apply ih hmaster' _ hdone
        intro x hx
        rcases List.mem_append.mp hx with hx | hx
        · exact hbefore x hx
        · obtain rfl := List.mem_singleton.mp hx
          exact hdone _ hm
      · rw [if_neg hm, Act.wp_bind]
        apply Act.wp_mono _ _ (fun _ _ _ h => h) (wp_apply hnext hbefore)
        rintro _ tx db' ⟨rfl, happlied, hgrows⟩
        rw [Act.wp_bind]
        apply ih hmaster'
        · intro x hx
          rcases List.mem_append.mp hx with hx | hx
          · exact hgrows.mem_ledger (hbefore x hx)
          · obtain rfl := List.mem_singleton.mp hx
            exact happlied
        · intro id hid
          exact hgrows.mem_ledger (hdone id hid)

/-- Reading the ledger, what is left to do, and closing the connection however that ends. -/
theorem growing_run {guar : Database Schema → Site (Op Schema) (Connection Schema) → Prop}
    {migrations : List (Migration Schema)} {Q : List String → Database Schema → Prop}
    (hfree : ∀ (op : Op Schema) tx db', op = .connect ∨ op = .createLedger ∨ op = .selectIds ∨ op = .close →
      guar db' ⟨tx, op⟩)
    (hempty : ∀ db', guar db' ⟨[], .commit⟩)
    (hpending : ∀ done db', Grows db db' → (∀ id, id ∈ done ↔ id ∈ db'.ledger) →
      Act.wp (growing guar) (applyPending .postgres done migrations) (fun newly _ db' => Q newly db')
        (fun _ _ _ => True) [] db')
    (hstable : ∀ newly db₁ db', Q newly db₁ → Grows db₁ db' → Q newly db') :
    Act.wp (growing guar) (run .postgres migrations) (fun newly _ db' => Q newly db') (fun _ _ _ => True)
      [] db := by
  have hraise : ∀ (e : Exc) (tx : Connection Schema) (db' : Database Schema)
      (Q : List String → Connection Schema → Database Schema → Prop),
      Act.wp (growing guar) close
        (fun _ tx db' => Act.wp (growing guar) (throw e : MigratorM Schema (List String)) Q
          (fun _ _ _ => True) tx db') (fun _ _ _ => True) tx db' := by
    intro e tx db' Q
    apply growing_close
    · exact fun db₁ _ => hfree .close tx db₁ (by simp)
    · exact fun _ _ => trivial
  simp only [run, applied, Act.wp_bind, Act.wp_tryCatch]
  apply growing_connect
  · exact fun db₁ _ => hfree .connect [] db₁ (by simp)
  · intro db₁ hgrows₁
    apply growing_createLedger
    · exact fun db₂ _ => hfree .createLedger [] db₂ (by simp)
    · intro db₂ hgrows₂
      apply growing_commit
      · exact fun db₃ _ => hempty db₃
      · intro db₃ hgrows₃ _
        apply growing_selectIds
        · exact fun db₄ _ => hfree .selectIds [] db₄ (by simp)
        · intro done db₄ hgrows₄ hdone
          have hgrows := ((hgrows₁.trans hgrows₂).trans hgrows₃).trans hgrows₄
          apply Act.wp_mono _ _ _ (hpending done db₄ hgrows hdone)
          · intro newly tx db₅ hQ
            apply growing_close
            · exact fun db₆ _ => hfree .close tx db₆ (by simp)
            · exact fun db₆ hgrows₆ => hstable newly db₅ db₆ hQ hgrows₆
          · exact fun e tx db₅ _ => hraise e tx db₅ _
        · exact fun e _ _ => hraise e _ _ _
      · exact fun e _ _ => hraise e _ _ _
    · exact fun e _ _ => hraise e _ _ _
  · exact fun _ _ _ => trivial

theorem wp_call (db : Database Schema) :
    Act.wp (growing (callGuar release)) (call .postgres release.1) (fun _ _ _ => True)
      (fun _ _ _ => True) [] db := by
  have hrun : Act.wp (growing (callGuar release)) (run .postgres release.1)
      (fun _ _ db' => ∀ m ∈ release.1, m.id ∈ db'.ledger) (fun _ _ _ => True) [] db := by
    apply growing_run
    · rintro op tx db' (rfl | rfl | rfl | rfl) <;> trivial
    · exact fun _ => Or.inl rfl
    · intro done db₁ _ hdone
      have hpending := @wp_applyPending Schema master release db₁ done [] release.1 release.2
        (fun _ hx => absurd hx List.not_mem_nil) fun id hid => (hdone id).mp hid
      exact Act.wp_mono _ (fun _ _ _ h => h.2) (fun _ _ _ _ => trivial) hpending
    · intro _ db₁ db' hall hgrows m hm
      exact hgrows.mem_ledger (hall m hm)
  simp only [call, Act.wp_bind, Act.wp_tryCatch]
  apply Act.wp_mono _ _ _ hrun
  · intro newly tx db₁ hall
    apply growing_report
    · exact fun db₂ hgrows m hm => hgrows.mem_ledger (hall m hm)
    · exact fun _ _ => trivial
  · intro e tx db₁ _
    exact growing_report (fun _ _ => trivial) (fun _ _ => trivial)

theorem applyPending_done {S : MigratorSpec Schema (Database Schema)} {done : List String}
    {migrations : List (Migration Schema)} {E : Exc → Connection Schema → Database Schema → Prop}
    (h : ∀ m ∈ migrations, m.id ∈ done) (tx : Connection Schema) (db : Database Schema) :
    Act.wp S (applyPending .postgres done migrations) (fun newly _ db' => newly = [] ∧ db' = db) E tx db := by
  induction migrations with
  | nil => exact ⟨rfl, rfl⟩
  | cons m migrations ih =>
      rw [applyPending, if_pos (h m List.mem_cons_self)]
      exact ih fun x hx => h x (List.mem_cons_of_mem _ hx)

/-- A call whose list is in the ledger already has nothing to do. -/
theorem wp_call_idle {ids : List String} (hrelease : ∀ m ∈ release.1, m.id ∈ ids)
    (hids : ∀ id ∈ ids, id ∈ db.ledger) :
    Act.wp (growing fun db site => callGuar release db site ∧ Idle site) (call .postgres release.1)
      (fun _ _ _ => True) (fun _ _ _ => True) [] db := by
  have hledger : ∀ db', Grows db db' → ∀ m ∈ release.1, m.id ∈ db'.ledger := by
    intro db' hgrows m hm
    exact hgrows.mem_ledger (hids _ (hrelease m hm))
  have hrun : Act.wp (growing fun db site => callGuar release db site ∧ Idle site) (run .postgres release.1)
      (fun newly _ db' => newly = [] ∧ ∀ m ∈ release.1, m.id ∈ db'.ledger) (fun _ _ _ => True) [] db := by
    apply growing_run
    · rintro op tx db' (rfl | rfl | rfl | rfl) <;> exact ⟨trivial, trivial⟩
    · exact fun _ => ⟨Or.inl rfl, rfl⟩
    · intro done db₁ hgrows hdone
      have hall := hledger db₁ hgrows
      apply Act.wp_mono _ _ (fun _ _ _ h => h)
        (applyPending_done (fun m hm => (hdone m.id).mpr (hall m hm)) [] db₁)
      rintro _ _ _ ⟨rfl, rfl⟩
      exact ⟨rfl, hall⟩
    · intro newly db₁ db' hnewly hgrows
      exact ⟨hnewly.1, fun m hm => hgrows.mem_ledger (hnewly.2 m hm)⟩
  simp only [call, Act.wp_bind, Act.wp_tryCatch]
  apply Act.wp_mono _ _ _ hrun
  · rintro newly tx db₁ ⟨hnewly, hall⟩
    apply growing_report
    · exact fun db₂ hgrows => ⟨fun m hm => hgrows.mem_ledger (hall m hm), hnewly⟩
    · exact fun _ _ => trivial
  · intro e tx db₁ _
    exact growing_report (fun _ _ => ⟨trivial, trivial⟩) (fun _ _ => trivial)

end Calls

/-! ### Any interleaving -/

section Interleavings

variable {master old : List (Migration Schema)} {db₀ : Database Schema}

abbrev Callers (master : List (Migration Schema)) : Type :=
  Pool (Release master) (Site (Op Schema) (Connection Schema)) (fun site => site.op.Res) (Database Schema)

abbrev CallerLabel (master : List (Migration Schema)) : Type :=
  Pool.Label (Release master) (Site (Op Schema) (Connection Schema)) (fun site => site.op.Res)

/-- Interleavings of calls of `run`, nobody else writing. -/
abbrev Interleaving (master : List (Migration Schema)) :
    Callers master → List (CallerLabel master) → Callers master → Prop :=
  Pool.Run Postgres.step caller fun _ _ => False

/-- Calls keep the rules, and those that `quiet` picks out have nothing to do. -/
def quietSpec (quiet : Nat → Release master → Prop) (i : Nat) (release : Release master) :
    MigratorSpec Schema (Database Schema) :=
  growing fun db site => callGuar release db site ∧ (quiet i release → Idle site)

/-- If the ids that the idle calls find in the ledger stay there, all calls keep each other's rules. -/
theorem discipline {quiet : Nat → Release master → Prop} {ids : List String}
    (hids : (master.map Migration.id).Nodup) (hstart : db₀.ledger = old.map Migration.id)
    (hquiet : ∀ i release, quiet i release → ∀ m ∈ release.1, m.id ∈ ids) :
    Pool.Discipline Postgres.step caller (fun _ _ => False) (fun _ _ _ => True)
      (fun db => Progressed master old db₀ db ∧ ∀ id ∈ ids, id ∈ db.ledger) (quietSpec quiet) where
  allowed := fun _ _ _ _ _ _ _ _ hstep => hstep
  refl := fun _ _ db _ => Grows.refl db
  trans := fun _ _ _ _ _ h h' => Grows.trans h h'
  call := by
    intro i release db site answer db' hinv howed _ hstep
    have hgrows := grows_of_step hstep
    refine ⟨⟨hinv.1.step hids hstart howed.1 hstep, ?_⟩, fun _ _ => hgrows⟩
    intro id hid
    exact hgrows.mem_ledger (hinv.2 id hid)
  env := fun _ _ _ h => h.elim
  start := by
    intro i release db hinv
    rw [caller, Prog.wp_bind]
    by_cases hidle : quiet i release
    · have hcall := wp_call_idle (hquiet i release hidle) hinv.2
      apply Prog.wp_weaken _ _ _ _ (Prog.wp_mono (fun out db _ => trivial) _ hcall)
      · exact fun _ _ h => h
      · exact fun _ _ h => ⟨h.1, fun _ => h.2⟩
      · exact fun _ _ _ _ h => h
    · have hcall := @wp_call Schema master release db
      apply Prog.wp_weaken _ _ _ _ (Prog.wp_mono (fun out db _ => trivial) _ hcall)
      · exact fun _ _ h => h
      · exact fun _ _ h => ⟨h, fun hquiet => absurd hquiet hidle⟩
      · exact fun _ _ _ _ h => h

/-- However calls are interleaved, stopped and failing: scripts are committed one after the other in the
order of the list, each with its row, and only those not in the ledger at the start; a call that returns
leaves its whole list applied; and a call that begins later runs nothing and returns no id. -/
theorem migrations_applied_once (hids : (master.map Migration.id).Nodup) (hold : old <+: master)
    (hstart : db₀.ledger = old.map Migration.id) {labels : List (CallerLabel master)} {c : Callers master}
    (hrun : Interleaving master ⟨[], db₀⟩ labels c) :
    (∃ new, old ++ new <+: master ∧ c.shared = db₀ ++ workOf new ∧
        c.shared.ledger = (old ++ new).map Migration.id) ∧
      (∀ i tx newly answer, .call i ⟨tx, .report (.ok newly)⟩ answer ∈ labels →
        ∃ release, (c.threads[i]?).map Prod.fst = some release ∧
          ∀ m ∈ release.1, m.id ∈ c.shared.ledger) ∧
      ∀ (release : Release master) after c', (∀ m ∈ release.1, m.id ∈ c.shared.ledger) →
        Interleaving master c (.spawn release :: after) c' →
        ∀ site answer, .call c.threads.length site answer ∈ after → Idle site := by
  have hfirst := @discipline Schema master old db₀ (fun _ _ => False) [] hids hstart
    (fun _ _ hquiet => hquiet.elim)
  have hbegin : Progressed master old db₀ db₀ := by
    refine ⟨[], ?_, (List.append_nil db₀).symm⟩
    rw [List.append_nil]
    exact hold
  have hempty : ∀ id ∈ ([] : List String), id ∈ db₀.ledger := fun _ hid => absurd hid List.not_mem_nil
  have hgood := hrun.good hfirst (fun _ _ _ _ => trivial) (Pool.Good.empty ⟨hbegin, hempty⟩)
  obtain ⟨new, hnew, hshared⟩ := hgood.inv.1
  refine ⟨⟨new, hnew, hshared, ?_⟩, ?_, ?_⟩
  · rw [hshared, ledger_append, hstart, ledger_workOf, List.map_append]
  · intro i tx newly answer hmem
    obtain ⟨before, after, hlabels⟩ := List.append_of_mem hmem
    obtain ⟨c₁, release, hrest, -, htag, hguar⟩ := hrun.guaranteed_at hfirst (fun _ _ _ _ => trivial)
      (Pool.Good.empty ⟨hbegin, hempty⟩) hlabels
    have hgrows : Grows c₁.shared c.shared := hrest.shared Grows.refl (fun _ _ _ h h' => h.trans h')
      (fun _ _ _ _ hstep => grows_of_step hstep) (fun _ _ h => h.elim)
    exact ⟨release, htag, fun m hm => hgrows.mem_ledger (hguar.1 m hm)⟩
  · intro release after c' happlied hlater site answer hmem
    let quiet (i : Nat) (other : Release master) : Prop :=
      i = c.threads.length ∧ ∀ m ∈ other.1, m.id ∈ c.shared.ledger
    have hsecond := @discipline Schema master old db₀ quiet c.shared.ledger hids hstart
      (fun _ _ hquiet => hquiet.2)
    -- the calls in flight keep the rules; only the one that is about to begin is expected to be idle
    have hgood' : Pool.Good (fun db => Progressed master old db₀ db ∧ ∀ id ∈ c.shared.ledger, id ∈ db.ledger)
        (quietSpec quiet) c := by
      refine ⟨⟨hgood.inv.1, fun _ hid => hid⟩, fun j t ht => ?_⟩
      have hlt : j < c.threads.length := (List.getElem?_eq_some_iff.mp ht).1
      apply Prog.wp_weaken _ _ _ _ (hgood.threads j t ht)
      · exact fun _ _ h => h
      · exact fun _ _ h => ⟨h.1, fun hquiet => absurd hquiet.1 (Nat.ne_of_lt hlt)⟩
      · exact fun _ _ _ _ h => h
    obtain ⟨before, rest, hlabels⟩ := List.append_of_mem (List.mem_cons_of_mem (.spawn release) hmem)
    obtain ⟨c₁, tag, -, -, htag, hguar⟩ := hlater.guaranteed_at hsecond (fun _ _ _ _ => trivial) hgood' hlabels
    have hrelease : (c'.threads[c.threads.length]?).map Prod.fst = some release := by
      cases hlater with
      | cons head tail =>
          cases head with
          | spawn threads shared _ =>
              apply tail.tag
              rw [List.getElem?_concat_length, Option.map_some]
    obtain rfl := Option.some.inj (htag.symm.trans hrelease)
    exact hguar.2 ⟨rfl, happlied⟩

end Interleavings

/-! ### Two calls at once -/

/-- A database that fails only where it has to. -/
def Postgres.serve (db : Database Schema) (site : Site (Op Schema) (Connection Schema)) :
    site.op.Res × Database Schema :=
  match site with
  | ⟨_, .connect⟩ => (.ok (), db)
  | ⟨_, .createLedger⟩ => (.ok (), db)
  | ⟨_, .execute _⟩ => (.ok (), db)
  | ⟨_, .executescript _⟩ => (.ok (), db)
  | ⟨_, .insertRow _⟩ => (.ok (), db)
  | ⟨_, .selectIds⟩ => (.ok db.ledger, db)
  | ⟨tx, .commit⟩ =>
      if (Database.ledger (db ++ tx)).Nodup then (.ok (), db ++ tx) else (.error databaseError, db)
  | ⟨_, .rollback⟩ => (.ok (), db)
  | ⟨_, .close⟩ => ((), db)
  | ⟨_, .report _⟩ => ((), db)

theorem Postgres.step_serve (db : Database Schema) (site : Site (Op Schema) (Connection Schema)) :
    Postgres.step db site (Postgres.serve db site).1 (Postgres.serve db site).2 := by
  obtain ⟨tx, op⟩ := site
  cases op with
  | commit =>
      by_cases hnodup : (Database.ledger (db ++ tx)).Nodup
      · simp only [Postgres.serve, if_pos hnodup]
        exact ⟨hnodup, rfl⟩
      · simp only [Postgres.serve, if_neg hnodup]
        exact Or.inl rfl
  | selectIds => exact ⟨fun _ => Iff.rfl, rfl⟩
  | _ => rfl

def twoTables : List (Migration (List String)) :=
  [⟨"0001_a", "create t1", [createTable "t1"]⟩, ⟨"0002_b", "create t2", [createTable "t2"]⟩]

def allTables : Release twoTables := ⟨twoTables, List.prefix_rfl⟩

/-- Two calls that read an empty ledger, and then take turns. -/
def turns : List (CallerLabel twoTables) × Callers twoTables :=
  Pool.play Postgres.serve caller
    ([.spawn allTables, .spawn allTables] ++ (List.replicate 12 [.call 0, .call 1]).flatten) ⟨[], []⟩

/-- A third call, when the first two are over. -/
def third : List (CallerLabel twoTables) × Callers twoTables :=
  Pool.play Postgres.serve caller (.spawn allTables :: List.replicate 6 (.call 2)) turns.2

/-- The label is the return of a call, with these ids. -/
def returns (i : Nat) (ids : List String) : CallerLabel twoTables → Bool
  | .call j ⟨_, .report (.ok newly)⟩ _ => i = j && newly = ids
  | _ => false

theorem exists_report {i : Nat} {ids : List String} {labels : List (CallerLabel twoTables)}
    (h : labels.any (returns i ids) = true) : ∃ tx, .call i ⟨tx, .report (.ok ids)⟩ () ∈ labels := by
  obtain ⟨label, hmem, hreturns⟩ := List.any_eq_true.mp h
  match label, hreturns with
  | .call j ⟨tx, .report (.ok newly)⟩ _, hreturns =>
      simp only [returns, Bool.and_eq_true, decide_eq_true_eq] at hreturns
      obtain ⟨rfl, rfl⟩ := hreturns
      exact ⟨tx, hmem⟩

/-- The first call applies both migrations, the second one fails, and the third one has nothing to do. -/
theorem migrations_applied_once_turns :
    (∃ new, new <+: twoTables ∧ turns.2.shared = workOf new ∧ turns.2.shared.ledger = new.map Migration.id) ∧
      (∃ tx, .call 0 ⟨tx, .report (.ok ["0001_a", "0002_b"])⟩ () ∈ turns.1 ∧
        ∀ m ∈ twoTables, m.id ∈ turns.2.shared.ledger) ∧
      (∃ tx, .call 2 ⟨tx, .report (.ok [])⟩ () ∈ third.1) ∧
        ∀ site answer, .call 2 site answer ∈ third.1 → Idle site := by
  obtain ⟨⟨new, hprefix, hshared, hledger⟩, hreported, hlater⟩ :=
    migrations_applied_once (by decide) List.nil_prefix rfl
      (show Interleaving twoTables ⟨[], []⟩ turns.1 turns.2 from Pool.play_run Postgres.step_serve _ ⟨[], []⟩)
  obtain ⟨tx, hreport⟩ := @exists_report 0 ["0001_a", "0002_b"] turns.1 (by decide +kernel)
  obtain ⟨release, hrelease, happlied⟩ := hreported 0 tx _ () hreport
  have htags : turns.2.threads.map Prod.fst = [allTables, allTables] := Pool.play_tags _ _
  rw [← List.getElem?_map, htags] at hrelease
  obtain rfl : allTables = release := Option.some.inj hrelease
  refine ⟨⟨new, hprefix, hshared, hledger⟩, ⟨tx, hreport, happlied⟩, exists_report (by decide +kernel), ?_⟩
  intro site answer hmem
  have hthird : Interleaving twoTables turns.2 third.1 third.2 :=
    Pool.play_run Postgres.step_serve (.spawn allTables :: List.replicate 6 (.call 2)) turns.2
  have hcall : .call 2 site answer ∈ third.1.tail := by
    rcases List.mem_cons.mp hmem with heq | hrest
    · cases heq
    · exact hrest
  have hlength : turns.2.threads.length = 2 := by
    rw [← List.length_map Prod.fst, htags]
    rfl
  rw [← hlength] at hcall
  exact hlater allTables third.1.tail third.2 happlied hthird site answer hcall

end Bass.Migrator
