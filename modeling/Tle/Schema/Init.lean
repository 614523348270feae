import Mathlib.Data.List.Basic
import Tle.Lib.Prog
import Tle.Lib.Scan

/-!
# `db_init` of `db.c`

One operation is one SQL statement or one look at the metadata of a column. Waits for the lock of the
database file succeed. A connection keeps the layout of the tables in a cache: a statement compares it with
the file and reads it again when it is an old one, a look at the metadata takes it as it is.
-/

namespace Tle.Schema
open Tle.Lib

inductive TableName where
  | tasks
  | users
  | submissions
  | sessions
  | bookmarks
  | gradingJobs
  | subtaskGroups
  deriving DecidableEq

structure Column where
  name : Text
  definition : Text

def column (name definition : String) : Column := ⟨name.toList, definition.toList⟩

/-- A table, with the cells of each row by column; `none` is NULL. -/
structure Relation where
  columns : List Column
  rows : List (Text → Option Text) := []
  blank : ∀ row ∈ rows, ∀ c, c ∉ columns.map (·.name) → row c = none

namespace Relation

def names (r : Relation) : List Text := r.columns.map (·.name)

def has (r : Relation) (c : Text) : Bool := c ∈ r.names

/-- `ADD COLUMN`, NULL in the rows that are there. -/
def addColumn (r : Relation) (col : Column) : Relation where
  columns := r.columns ++ [col]
  rows := r.rows
  blank row hrow c hc := r.blank row hrow c fun h => hc (by
    rw [List.map_append]
    exact List.mem_append_left _ h)

def dropColumn (r : Relation) (c : Text) : Relation where
  columns := r.columns.filter (·.name ≠ c)
  rows := r.rows.map fun row x => if x = c then none else row x
  blank row hrow x hx := by
    obtain ⟨old, hold, rfl⟩ := List.mem_map.mp hrow
    dsimp only
    split_ifs with heq
    · rfl
    · refine r.blank old hold x fun h => hx ?_
      obtain ⟨col, hcol, rfl⟩ := List.mem_map.mp h
      exact List.mem_map.mpr ⟨col, List.mem_filter.mpr ⟨hcol, by simpa using heq⟩, rfl⟩

end Relation

/-- The columns of `CREATE TABLE`. -/
def createColumns : TableName → List Column
  | .tasks =>
      [column "task_pk" "INTEGER PRIMARY KEY", column "name" "TEXT NOT NULL",
        column "desc_path" "TEXT NOT NULL", column "memory_limit" "INTEGER NOT NULL",
        column "time_limit" "INTEGER NOT NULL", column "max_score" "REAL NOT NULL",
        column "count_cases" "INTEGER NOT NULL", column "comparison" "TEXT NOT NULL",
        column "is_hidden" "INTEGER NOT NULL DEFAULT 0"]
  | .users =>
      [column "user_id" "INTEGER PRIMARY KEY AUTOINCREMENT", column "username" "TEXT NOT NULL UNIQUE",
        column "hashed_password" "TEXT NOT NULL",
        column "registration_time" "TEXT DEFAULT CURRENT_TIMESTAMP"]
  | .submissions =>
      [column "submission_id" "INTEGER PRIMARY KEY AUTOINCREMENT", column "user_id" "INTEGER",
        column "task_pk" "INTEGER NOT NULL REFERENCES tasks(task_pk)", column "result" "TEXT",
        column "time_used" "INTEGER", column "memory_used" "INTEGER", column "score" "REAL",
        column "code" "TEXT", column "verdict" "TEXT", column "failed_case" "INTEGER",
        column "verdict_message" "TEXT", column "compiler_output" "TEXT",
        column "submission_time" "TEXT DEFAULT CURRENT_TIMESTAMP",
        column "is_public" "INTEGER NOT NULL DEFAULT 0"]
  | .sessions =>
      [column "token" "TEXT PRIMARY KEY",
        column "user_id" "INTEGER NOT NULL REFERENCES users(user_id) ON DELETE CASCADE",
        column "csrf_token" "TEXT NOT NULL", column "created_at" "TEXT DEFAULT CURRENT_TIMESTAMP"]
  | .bookmarks =>
      [column "user_id" "INTEGER NOT NULL REFERENCES users(user_id) ON DELETE CASCADE",
        column "task_pk" "INTEGER NOT NULL REFERENCES tasks(task_pk) ON DELETE CASCADE",
        column "created_at" "TEXT DEFAULT CURRENT_TIMESTAMP"]
  | .gradingJobs =>
      [column "submission_id"
          "INTEGER PRIMARY KEY REFERENCES submissions(submission_id) ON DELETE CASCADE",
        column "status"
          "TEXT NOT NULL DEFAULT 'queued' CHECK(status IN ('queued','grading','finished'))",
        column "claimed_at" "TEXT", column "claim_token" "TEXT",
        column "attempts" "INTEGER NOT NULL DEFAULT 0",
        column "created_at" "TEXT DEFAULT CURRENT_TIMESTAMP"]
  | .subtaskGroups =>
      [column "task_pk" "INTEGER NOT NULL REFERENCES tasks(task_pk)",
        column "group_idx" "INTEGER NOT NULL", column "score" "REAL NOT NULL",
        column "case_start" "INTEGER NOT NULL", column "case_count" "INTEGER NOT NULL"]

def created (t : TableName) : Relation where
  columns := createColumns t
  blank := by simp

/-- The database file: the tables that exist, the rows of `schema_version` when that table exists, and
the index `grading_jobs_queue_idx`. -/
@[ext]
structure Database where
  tables : TableName → Option Relation := fun _ => none
  versions : Option (List Int) := none
  queueIndex : Bool := false

def Database.setTable (d : Database) (t : TableName) (r : Relation) : Database :=
  { d with tables := Function.update d.tables t (some r) }

@[simp] theorem Database.tables_setTable_self (d : Database) (t : TableName) (r : Relation) :
    (d.setTable t r).tables t = some r := by
  simp only [setTable, Function.update_self]

theorem Database.tables_setTable_of_ne (d : Database) {t t' : TableName} (h : t' ≠ t) (r : Relation) :
    (d.setTable t r).tables t' = d.tables t' := by
  simp only [setTable, Function.update_of_ne h]

/-! ## The operations -/

inductive Statement where
  | pragma (setting : String)
  | createVersionTable
  | insertFirstVersion
  | selectVersion
  | deleteVersions
  | insertVersion (version : Int)
  | createTable (t : TableName)
  | createQueueIndex
  | addColumn (t : TableName) (col : Column)
  | dropColumn (t : TableName) (c : Text)

/-- `COALESCE(MAX(version),0)` -/
def maxVersion (versions : List Int) : Int := versions.max?.getD 0

/-- The database after a statement that SQLite carries out, and the number it answers. A table or a
column that is missing, or that is there already, is an error. -/
def Statement.exec : Statement → Database → Option (Database × Int)
  | pragma _, d => some (d, 0)
  | createVersionTable, d => some ({ d with versions := some (d.versions.getD []) }, 0)
  | insertFirstVersion, d => d.versions.map fun versions =>
      ({ d with versions := some (if versions = [] then [0] else versions) }, 0)
  | selectVersion, d => d.versions.map fun versions => (d, maxVersion versions)
  | deleteVersions, d => d.versions.map fun _ => ({ d with versions := some [] }, 0)
  | insertVersion version, d => d.versions.map fun versions =>
      ({ d with versions := some (versions ++ [version]) }, 0)
  | createTable t, d => some (if (d.tables t).isSome then d else d.setTable t (created t), 0)
  | createQueueIndex, d => (d.tables .gradingJobs).bind fun r =>
      if r.has "status".toList && r.has "submission_id".toList then some ({ d with queueIndex := true }, 0)
      else none
  | addColumn t col, d => (d.tables t).bind fun r =>
      if r.has col.name then none else some (d.setTable t (r.addColumn col), 0)
  | dropColumn t c, d => (d.tables t).bind fun r =>
      if r.has c then some (d.setTable t (r.dropColumn c), 0) else none

/-- The names of the columns of each table. -/
abbrev Layout := TableName → Option (List Text)

def Database.layout (d : Database) : Layout := fun t => (d.tables t).map Relation.names

def Layout.has (l : Layout) (t : TableName) (c : Text) : Bool := (l t).any (c ∈ ·)

/-- The file, and the layout in the cache of the connection once it has read one. -/
abbrev Connection := Database × Option Layout

inductive Operation where
  | sql (s : Statement)
  | columnMetadata (t : TableName) (c : Text)

/-- What is in the cache after a statement. What a setting does with it does not matter: other statements stand
between the settings and the first look at the metadata. -/
def Statement.cached (s : Statement) (old : Option Layout) (d : Database) : Option Layout :=
  match s with
  | pragma _ => old
  | _ => some d.layout

/-- An operation that fails changes nothing in the file. -/
def sem (o : Operation) (c : Connection) : Connection × Option Int :=
  match o with
  | .sql s =>
      match s.exec c.1 with
      | some (d, n) => ((d, s.cached c.2 d), some n)
      | none => ((c.1, s.cached c.2 c.1), none)
  | .columnMetadata t col =>
      let layout := c.2.getD c.1.layout
      ((c.1, some layout), if layout.has t col then some 0 else none)

theorem sem_sql_of_exec {s : Statement} {c : Connection} {d : Database} {n : Int}
    (h : s.exec c.1 = some (d, n)) : sem (.sql s) c = ((d, s.cached c.2 d), some n) := by
  simp only [sem, h]

theorem sem_sql_of_error {s : Statement} {c : Connection} (h : s.exec c.1 = none) :
    sem (.sql s) c = ((c.1, s.cached c.2 c.1), none) := by
  simp only [sem, h]

theorem sem_sql_file (s : Statement) (c : Connection) :
    (sem (.sql s) c).1.1 = ((s.exec c.1).map Prod.fst).getD c.1 := by
  cases h : s.exec c.1 with
  | none => rw [sem_sql_of_error h, Option.map_none, Option.getD_none]
  | some r => rw [sem_sql_of_exec h, Option.map_some, Option.getD_some]

/-! ## The functions -/

abbrev DbProg (α : Type) := Prog Operation (Option Int) α

/-- A statement after whose failure the process dies. -/
def execSql (s : Statement) : DbProg Unit := .op (.sql s) fun rc => if rc.isSome then .ret () else .died

def ensureColumn (t : TableName) (col : Column) : DbProg Unit :=
  .op (.columnMetadata t col.name) fun rc =>
    if rc.isSome then .ret () else execSql (.addColumn t col)

def dropColumnIfExists (t : TableName) (c : Text) : DbProg Unit :=
  .op (.columnMetadata t c) fun rc =>
    if rc.isSome then execSql (.dropColumn t c) else .ret ()

def schemaVersion : DbProg Int := .op (.sql .selectVersion) fun rc => .ret (rc.getD 0)

def setSchemaVersion (version : Int) : DbProg Unit := do
  execSql .deleteVersions
  execSql (.insertVersion version)

/-- `if (version < k)`, with the value of `version` after it. -/
def migrate (version k : Int) (change : DbProg Unit) (after : Int) : DbProg Int :=
  if version < k then do
    change
    setSchemaVersion k
    pure after
  else pure version

def compilerOutput : Column := column "compiler_output" "TEXT"

def csrfToken : Column := column "csrf_token" "TEXT"

def subtaskResults : Column := column "subtask_results" "TEXT"

def dropLegacyColumns : DbProg Unit := do
  dropColumnIfExists .tasks "difficulty".toList
  dropColumnIfExists .tasks "tags".toList
  dropColumnIfExists .tasks "source".toList
  dropColumnIfExists .tasks "estimated_minutes".toList

/-- The part of `db_init` after it has read the version. -/
def dbInitFrom (version : Int) : DbProg Unit := do
  execSql (.createTable .tasks)
  execSql (.createTable .users)
  execSql (.createTable .submissions)
  let version ← migrate version 2 (ensureColumn .submissions compilerOutput) 2
  execSql (.createTable .sessions)
  -- this one and the fifth leave the variable as it is
  let version ← migrate version 3 (ensureColumn .sessions csrfToken) version
  execSql (.createTable .bookmarks)
  let version ← migrate version 4 (pure ()) 4
  let version ← migrate version 5 dropLegacyColumns version
  let _ ← migrate version 6 (ensureColumn .submissions subtaskResults) 6
  execSql (.createTable .gradingJobs)
  execSql .createQueueIndex
  execSql (.createTable .subtaskGroups)

def dbInit : DbProg Unit := do
  execSql (.pragma "journal_mode = WAL")
  execSql (.pragma "foreign_keys = ON")
  execSql .createVersionTable
  execSql .insertFirstVersion
  let version ← schemaVersion
  dbInitFrom version

end Tle.Schema
