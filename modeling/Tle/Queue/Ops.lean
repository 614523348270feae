import Tle.Queue.Db
import Tle.Queue.Verdict

/-!
# The queue operations of `task.c`

Each function runs on one connection and is given, for each of its SQL statements and system calls,
whether it succeeds. `sqlite3_bind_int` takes the `unsigned` ids as signed 32-bit numbers, and
`sqlite3_column_int` returns the low 32 bits of a stored one.
-/

namespace Tle.Queue
open Tle.Lib

/-- `(int)id`, the key under which an operation looks up `submission_id`. -/
abbrev rowKey (id : BitVec 32) : Int := id.toInt

def columnInt (z : Int) : BitVec 32 := BitVec.ofInt 32 z

/-! ## `enqueue_submission` -/

structure EnqueueCall where
  userId : Int
  taskPk : BitVec 32
  code : Option Text
  isPublic : Bool
  begin_ok : Bool := true
  insertSubmission_ok : Bool := true
  insertJob_ok : Bool := true
  commit_ok : Bool := true
  rollback_ok : Bool := true

def enqueueSubmission (c : EnqueueCall) (s : Session) : Session × Int :=
  match s.beginImmediate c.begin_ok with
  | none => (s, -1)
  | some s =>
      let userId := if c.userId < 0 then none else some c.userId
      match s.exec c.insertSubmission_ok
          (·.insertSubmission userId c.taskPk.toInt c.code (if c.isPublic then 1 else 0)) with
      | (s, none) => (s.rollback c.rollback_ok, -1)
      | (s, some id) =>
          match s.exec c.insertJob_ok (·.insertJob id) with
          | (s, none) => (s.rollback c.rollback_ok, -1)
          | (s, some ()) =>
              match s.commit c.commit_ok with
              | (s, true) => (s, toInt32 id)
              | (s, false) => (s, -1)

/-! ## `claim_submission` -/

structure SubmissionJob where
  submissionId : BitVec 32
  userId : Int
  taskPk : BitVec 32
  isPublic : Bool
  claimToken : Text
  code : Text
  deriving DecidableEq

/-- One call, with the token it makes and the time of its two `datetime('now')`. -/
structure ClaimCall where
  token : Text
  expiryNow : Int
  claimNow : Int
  clock_ok : Bool := true
  begin_ok : Bool := true
  expire_ok : Bool := true
  prepare_ok : Bool := true
  select_ok : Bool := true
  strdup_ok : Bool := true
  claim_ok : Bool := true
  commit_ok : Bool := true
  rollback_ok : Bool := true

/-- `status='grading' AND claimed_at < datetime('now','-10 minutes')` -/
def GradingJob.expired (now : Int) (j : GradingJob) : Bool :=
  j.status = .grading && j.claimedAt.any (· < now - 600)

def GradingJob.requeue (j : GradingJob) : GradingJob :=
  { j with status := .queued, claimedAt := none, claimToken := none }

@[simp] theorem GradingJob.requeue_submissionId (j : GradingJob) :
    j.requeue.submissionId = j.submissionId := rfl

def Db.expireJobs (now : Int) (d : Db) : Db × Nat :=
  d.updateJobs (·.expired now) GradingJob.requeue GradingJob.requeue_submissionId

/-- `SELECT … WHERE j.status='queued' AND s.code IS NOT NULL ORDER BY j.submission_id LIMIT 1` -/
def Db.nextQueued (d : Db) : Option (Submission × Text) :=
  d.gradingJobs.rows.findSome? fun j =>
    if j.status = .queued then
      (d.submission j.submissionId).bind fun s => s.code.map fun code => (s, code)
    else none

def Db.claimJob (id : BitVec 32) (token : Text) (now : Int) (d : Db) : Db × Nat :=
  d.updateJobs (fun j => j.submissionId = rowKey id && j.status = .queued)
    (fun j => { j with
      status := .grading, claimedAt := some now, claimToken := some token, attempts := j.attempts + 1 })
    (fun _ => rfl)

/-- The job as the columns of its row are read. -/
def SubmissionJob.read (token : Text) (row : Submission) (code : Text) : SubmissionJob where
  submissionId := columnInt row.submissionId
  userId := row.userId.elim (-1) toInt32
  taskPk := columnInt row.taskPk
  isPublic := row.isPublic ≠ 0
  claimToken := token
  code := cstr code

inductive ClaimReply where
  | failed
  | nothing
  | claimed (job : SubmissionJob)
  deriving DecidableEq

def claimSubmission (c : ClaimCall) (s : Session) : Session × ClaimReply :=
  if !c.clock_ok then (s, .failed)
  else match s.beginImmediate c.begin_ok with
  | none => (s, .failed)
  | some s =>
      -- the result of the expiry is not checked
      let s := (s.exec c.expire_ok (fun d => some (d.expireJobs c.expiryNow))).1
      if !c.prepare_ok then (s.rollback c.rollback_ok, .failed)
      -- a failing step is taken for an empty queue
      else match if c.select_ok then s.view.nextQueued else none with
      | none => (s.rollback c.rollback_ok, .nothing)
      | some (row, code) =>
          let job := SubmissionJob.read c.token row code
          if !c.strdup_ok then (s.rollback c.rollback_ok, .failed)
          else match s.exec c.claim_ok
              (fun d => some (d.claimJob job.submissionId c.token c.claimNow)) with
          | (s, some 1) =>
              match s.commit c.commit_ok with
              | (s, true) => (s, .claimed job)
              | (s, false) => (s, .failed)
          | (s, _) => (s.rollback c.rollback_ok, .failed)

/-! ## `complete_submission` -/

structure Report where
  result : Text
  timeUsed : BitVec 32
  memoryUsed : BitVec 32
  score : Rat
  compilerOutput : Option Text
  subtaskResults : Option Text

structure CompleteCall where
  id : BitVec 32
  report : Report
  token : Text
  begin_ok : Bool := true
  finishJob_ok : Bool := true
  storeResult_ok : Bool := true
  commit_ok : Bool := true
  rollback_ok : Bool := true

/-- `submission_id=?1 AND claim_token=?2 AND status='grading'` -/
def GradingJob.heldBy (id : BitVec 32) (token : Text) (j : GradingJob) : Bool :=
  j.submissionId = rowKey id && j.claimToken = some token && j.status = .grading

def Db.finishJob (id : BitVec 32) (token : Text) (d : Db) : Db × Nat :=
  d.updateJobs (GradingJob.heldBy id token)
    (fun j => { j with status := .finished, claimedAt := none, claimToken := none }) (fun _ => rfl)

/-- A text that is missing or empty is stored as NULL. -/
def bindNonempty (t : Option Text) : Option Text := t.filter (· ≠ [])

def Submission.withReport (r : Report) (s : Submission) : Submission :=
  let (verdict, failedCase) := parseVerdict r.result
  { s with
    verdict := some verdict
    failedCase := if failedCase < 0 then none else some failedCase
    verdictMessage := some r.result
    timeUsed := some r.timeUsed.toInt
    memoryUsed := some r.memoryUsed.toInt
    score := some r.score
    compilerOutput := bindNonempty r.compilerOutput
    subtaskResults := bindNonempty r.subtaskResults }

@[simp] theorem Submission.withReport_submissionId (r : Report) (s : Submission) :
    (s.withReport r).submissionId = s.submissionId := rfl

def Db.storeResult (id : BitVec 32) (r : Report) (d : Db) : Db × Nat :=
  d.updateSubmissions (fun s => s.submissionId = rowKey id) (Submission.withReport r)
    (Submission.withReport_submissionId r)

def completeSubmission (c : CompleteCall) (s : Session) : Session × Int :=
  match s.beginImmediate c.begin_ok with
  | none => (s, -1)
  | some s =>
      match s.exec c.finishJob_ok (fun d => some (d.finishJob c.id c.token)) with
      | (s, some 1) =>
          match s.exec c.storeResult_ok (fun d => some (d.storeResult c.id c.report)) with
          | (s, some _) =>
              match s.commit c.commit_ok with
              | (s, true) => (s, 0)
              | (s, false) => (s, -1)
          | (s, none) => (s.rollback c.rollback_ok, -1)
      | (s, _) => (s.rollback c.rollback_ok, -1)

/-! ## `requeue_submission`

Its two updates are separate statements; outside a transaction each commits on its own. -/

/-- `submission_id=?1 AND status IN ('finished','grading')` -/
def GradingJob.requeueable (id : BitVec 32) (j : GradingJob) : Bool :=
  j.submissionId = rowKey id && (j.status = .finished || j.status = .grading)

def Db.requeueJob (id : BitVec 32) (d : Db) : Db × Nat :=
  d.updateJobs (GradingJob.requeueable id) GradingJob.requeue GradingJob.requeue_submissionId

def Submission.withoutResult (s : Submission) : Submission :=
  { s with
    verdict := none, failedCase := none, verdictMessage := none, timeUsed := none
    memoryUsed := none, score := none, compilerOutput := none }

@[simp] theorem Submission.withoutResult_submissionId (s : Submission) :
    s.withoutResult.submissionId = s.submissionId := rfl

def Db.clearResult (id : BitVec 32) (d : Db) : Db × Nat :=
  d.updateSubmissions (fun s => s.submissionId = rowKey id) Submission.withoutResult
    Submission.withoutResult_submissionId

/-- The first statement; `some n` when it changed `n` rows. -/
def requeueFirst (ok : Bool) (id : BitVec 32) (s : Session) : Session × Option Nat :=
  s.exec ok (fun d => some (d.requeueJob id))

def requeueSecond (ok : Bool) (id : BitVec 32) (s : Session) : Session × Int :=
  match s.exec ok (fun d => some (d.clearResult id)) with
  | (s, some _) => (s, 1)
  | (s, none) => (s, -1)

def requeueSubmission (first_ok second_ok : Bool) (id : BitVec 32) (s : Session) : Session × Int :=
  match requeueFirst first_ok id s with
  | (s, none) => (s, -1)
  | (s, some 0) => (s, 0)
  | (s, some _) => requeueSecond second_ok id s

end Tle.Queue
