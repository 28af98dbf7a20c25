import Bass.Interaction.Act
import Bass.Models

/-!
# Schema migrations

`Migrator` of `migrate.py`. A connection is a program that calls its driver; its private state is the
transaction that is open on it. What the database holds is what has been committed to it, in order:
the statements that were run and the rows of `schema_migrations`. The statements of a script are partial
functions on the schema, undefined where the database refuses them.
-/

namespace Bass

open Interaction

inductive Dialect where
  | postgres
  | sqlite
  deriving DecidableEq

abbrev Statement (Schema : Type) : Type := Schema → Option Schema

structure Migration (Schema : Type) where
  id : String
  description : String
  sql : List (Statement Schema)

namespace Migrator

/-- What a transaction does. -/
inductive Work (Schema : Type) where
  | statement (run : Statement Schema)
  | row (id : String)

/-- The calls of a driver. `report` is what the caller of `run` learns in the end. -/
inductive Op (Schema : Type) where
  | connect
  | createLedger
  | execute (sql : List (Statement Schema))
  | executescript (sql : List (Statement Schema))
  | insertRow (id : String)
  | selectIds
  | commit
  | rollback
  | close
  | report (out : Except Exc (List String))

variable {Schema : Type}

/-- Every call of a driver may raise. -/
def Op.Res : Op Schema → Type
  | .selectIds => Except Exc (List String)
  | .close => Unit
  | .report _ => Unit
  | _ => Except Exc Unit

/-- The open transaction. -/
abbrev Connection (Schema : Type) : Type := List (Work Schema)

end Migrator

abbrev MigratorM (Schema : Type) (α : Type) : Type :=
  Act (Migrator.Op Schema) Migrator.Op.Res (Migrator.Connection Schema) Exc α

namespace Migrator

variable {Schema : Type}

def connect : MigratorM Schema Unit := do
  let answer ← Act.perform Op.connect
  Act.ofExcept answer

/-- `CREATE TABLE IF NOT EXISTS schema_migrations`, which leaves the migrated schema alone. -/
def createLedger : MigratorM Schema Unit := do
  let answer ← Act.perform Op.createLedger
  Act.ofExcept answer

/-- psycopg runs a script inside the open transaction. -/
def execute (sql : List (Statement Schema)) : MigratorM Schema Unit := do
  let answer ← Act.perform (Op.execute sql)
  Act.ofExcept answer
  modify fun transaction => transaction ++ sql.map Work.statement

/-- sqlite3 commits the open transaction and runs a script in autocommit. -/
def executescript (sql : List (Statement Schema)) : MigratorM Schema Unit := do
  let answer ← Act.perform (Op.executescript sql)
  set ([] : Connection Schema)
  Act.ofExcept answer

def insertRow (id : String) : MigratorM Schema Unit := do
  let answer ← Act.perform (Op.insertRow id)
  Act.ofExcept answer
  modify fun transaction => transaction ++ [.row id]

def selectIds : MigratorM Schema (List String) := do
  let answer ← Act.perform Op.selectIds
  Act.ofExcept answer

def commit : MigratorM Schema Unit := do
  let answer ← Act.perform Op.commit
  set ([] : Connection Schema)
  Act.ofExcept answer

def rollback : MigratorM Schema Unit := do
  let answer ← Act.perform Op.rollback
  set ([] : Connection Schema)
  Act.ofExcept answer

def close : MigratorM Schema Unit := Act.perform Op.close

def report (out : Except Exc (List String)) : MigratorM Schema Unit := Act.perform (Op.report out)

variable (dialect : Dialect)

/-- `_exec_ddl`. -/
def execDdl (sql : List (Statement Schema)) : MigratorM Schema Unit :=
  match dialect with
  | .postgres => execute sql
  | .sqlite => executescript sql

def applied : MigratorM Schema (List String) := do
  createLedger
  commit
  selectIds

/-- A script and its row in the ledger. -/
def apply (m : Migration Schema) : MigratorM Schema Unit :=
  tryCatch
    (do
      execDdl dialect m.sql
      insertRow m.id
      commit)
    fun e => do
      rollback
      throw e

/-- The loop of `run` over the migrations that are left; it returns the ids newly applied. -/
def applyPending (done : List String) : List (Migration Schema) → MigratorM Schema (List String)
  | [] => return []
  | m :: migrations => do
      if m.id ∈ done then applyPending done migrations
      else
        apply dialect m
        let newly ← applyPending done migrations
        return m.id :: newly

def run (migrations : List (Migration Schema)) : MigratorM Schema (List String) := do
  connect
  let newly ← tryCatch
    (do
      let done ← applied
      applyPending dialect done migrations)
    fun e => do
      close
      throw e
  close
  return newly

/-- A call of `run` and what its caller learns. -/
def call (migrations : List (Migration Schema)) : MigratorM Schema Unit :=
  tryCatch
    (do
      let newly ← run dialect migrations
      report (.ok newly))
    fun e => report (.error e)

/-! ### The database -/

/-- What has been committed, in order. -/
abbrev Database (Schema : Type) : Type := List (Work Schema)

def Work.id? : Work Schema → Option String
  | .statement _ => none
  | .row id => some id

def Work.statement? : Work Schema → Option (Statement Schema)
  | .statement run => some run
  | .row _ => none

/-- The ids in `schema_migrations`. -/
def Database.ledger (db : Database Schema) : List String := db.filterMap Work.id?

/-- The schema after statements, one after the other; a statement that is refused changes nothing. -/
def runAll (sql : List (Statement Schema)) (schema : Schema) : Schema :=
  sql.foldl (fun schema statement => (statement schema).getD schema) schema

/-- The schema that the database has come to from the schema `base`. -/
def Database.schema (base : Schema) (db : Database Schema) : Schema :=
  runAll (db.filterMap Work.statement?) base

/-- The statements of a script that are run before one is refused. -/
def accepted : List (Statement Schema) → Schema → List (Statement Schema)
  | [], _ => []
  | statement :: sql, schema =>
      match statement schema with
      | some schema' => statement :: accepted sql schema'
      | none => []

end Migrator

end Bass
