import Mathlib.Data.Int.Order.Basic
import Tle.Lib.Scan
import Tle.Lib.Table

/-!
# The queue tables and the connection

The schema of `db_init` for the two tables of the grading queue, and the way one connection sees
them: a statement outside a transaction commits at once, one inside a transaction works on the
transaction's own copy. A failing statement changes nothing and is assumed to leave the transaction
open. For `COMMIT`, SQLite documents that for `SQLITE_BUSY`; after an error such as a full disk it may
have rolled back by itself, which is not modelled.
-/

namespace Tle.Queue
open Tle.Lib

/-- `CHECK(status IN ('queued','grading','finished'))` -/
inductive JobStatus where
  | queued
  | grading
  | finished
  deriving DecidableEq, Repr

/-- A row of `grading_jobs`. `claimed_at` is in seconds. -/
structure GradingJob where
  submissionId : Int
  status : JobStatus := .queued
  claimedAt : Option Int := none
  claimToken : Option Text := none
  attempts : Nat := 0
  deriving DecidableEq

structure Submission where
  submissionId : Int
  userId : Option Int
  taskPk : Int
  result : Option Text := none
  timeUsed : Option Int := none
  memoryUsed : Option Int := none
  score : Option Rat := none
  code : Option Text
  verdict : Option Text := none
  failedCase : Option Int := none
  verdictMessage : Option Text := none
  compilerOutput : Option Text := none
  isPublic : Int
  subtaskResults : Option Text := none
  deriving DecidableEq

/-- The tables, with the highest `submission_id` ever used. A job references a submission
(`PRAGMA foreign_keys = ON`; no statement deletes a submission). -/
structure Db where
  submissions : Table Submission.submissionId
  gradingJobs : Table GradingJob.submissionId
  sequence : Int
  references : ∀ k j, gradingJobs.find k = some j → ∃ s, submissions.find k = some s

namespace Db

def empty : Db where
  submissions := Table.empty
  gradingJobs := Table.empty
  sequence := 0
  references := by simp

variable (d : Db)

def job (k : Int) : Option GradingJob := d.gradingJobs.find k

def submission (k : Int) : Option Submission := d.submissions.find k

/-- `UPDATE grading_jobs SET f WHERE p`, with `sqlite3_changes`. -/
def updateJobs (p : GradingJob → Bool) (f : GradingJob → GradingJob)
    (hf : ∀ j, (f j).submissionId = j.submissionId) : Db × Nat :=
  ({ d with
      gradingJobs := d.gradingJobs.updateWhere p f hf
      references := by
        intro k j hj
        rw [Table.find_updateWhere, Option.map_eq_some_iff] at hj
        obtain ⟨j', hj', -⟩ := hj
        exact d.references k j' hj' },
    d.gradingJobs.changes p)

/-- `UPDATE submissions SET f WHERE p`, with `sqlite3_changes`. -/
def updateSubmissions (p : Submission → Bool) (f : Submission → Submission)
    (hf : ∀ s, (f s).submissionId = s.submissionId) : Db × Nat :=
  ({ d with
      submissions := d.submissions.updateWhere p f hf
      references := by
        intro k j hj
        obtain ⟨s, hs⟩ := d.references k j hj
        exact ⟨_, by rw [Table.find_updateWhere, hs]; rfl⟩ },
    d.submissions.changes p)

/-- `INSERT INTO submissions`; `AUTOINCREMENT` takes the id after the highest one ever used, which
is the `sqlite3_last_insert_rowid`. -/
def insertSubmission (userId : Option Int) (taskPk : Int) (code : Option Text) (isPublic : Int) :
    Option (Db × Int) :=
  let row : Submission := { submissionId := d.sequence + 1, userId, taskPk, code, isPublic }
  match h : d.submissions.insert? row with
  | none => none
  | some submissions =>
      some ({ d with
        submissions
        sequence := d.sequence + 1
        references := by
          intro k j hj
          rw [Table.find_insert? h]
          split
          · exact ⟨_, rfl⟩
          · exact d.references k j hj }, d.sequence + 1)

/-- `INSERT INTO grading_jobs(submission_id,status) VALUES(k,'queued')`. -/
def insertJob (k : Int) : Option (Db × Unit) :=
  match hs : d.submissions.find k with
  | none => none
  | some s =>
      match h : d.gradingJobs.insert? { submissionId := k } with
      | none => none
      | some gradingJobs =>
          some ({ d with
            gradingJobs
            references := by
              intro k' j hj
              rw [Table.find_insert? h] at hj
              split at hj
              · rename_i hk; exact ⟨s, hk ▸ hs⟩
              · exact d.references k' j hj }, ())

end Db

/-! ## The connection -/

/-- The committed tables, and the copy an open transaction of this connection works on. -/
structure Session where
  committed : Db
  txn : Option Db

namespace Session

/-- A connection outside any transaction. -/
def idle (d : Db) : Session := ⟨d, none⟩

@[simp] theorem idle_committed (d : Db) : (idle d).committed = d := rfl

def view (s : Session) : Db := s.txn.getD s.committed

/-- One statement; `ok = false` when SQLite refuses to prepare or step it. -/
def exec {α : Type} (ok : Bool) (stmt : Db → Option (Db × α)) (s : Session) : Session × Option α :=
  match ok, stmt s.view with
  | true, some (d, a) =>
      match s.txn with
      | some _ => ({ s with txn := some d }, some a)
      | none => ({ s with committed := d }, some a)
  | _, _ => (s, none)

/-- `BEGIN IMMEDIATE`, refused inside a transaction. -/
def beginImmediate (ok : Bool) (s : Session) : Option Session :=
  match ok, s.txn with
  | true, none => some { s with txn := some s.committed }
  | _, _ => none

/-- `COMMIT`, refused outside a transaction. -/
def commit (ok : Bool) (s : Session) : Session × Bool :=
  match ok, s.txn with
  | true, some d => (idle d, true)
  | _, _ => (s, false)

/-- `ROLLBACK` -/
def rollback (ok : Bool) (s : Session) : Session := { s with txn := if ok then none else s.txn }

end Session

end Tle.Queue
