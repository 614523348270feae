import Mathlib.Data.List.Dedup
import Mathlib.Order.Lex
import Tle.Html.Views
import Tle.Queue.Db
import Tle.Tasks.Store

/-!
# The queries of the pages

The functions of `task.c` that only read. Each is given whether SQLite prepares and steps its statement.
The keys of the joined tables are primary keys, so a row has at most one partner in each.
-/

namespace Tle.Web
open Tle.Lib Tle.Html Tle.Queue

structure User where
  userId : Int
  username : Text

structure Bookmark where
  userId : Int
  taskPk : Int

/-- The tables. `submission_time` stands apart from the rows of `submissions`. -/
structure Site where
  queue : Queue.Db := .empty
  submissionTime : Int → Option Text := fun _ => none
  tasks : Tasks.Db := .empty
  users : Table User.userId := .empty
  bookmarks : List Bookmark := []

/-! ## Columns -/

/-- `copy_text` of a column. -/
def columnText (size : Nat) (value : Option Text) : Text := Tasks.copyText size (cstr (value.getD []))

/-- `sqlite3_column_int`; `NULL` reads as 0. -/
def columnInt (value : Option Int) : Int := toInt32 (value.getD 0)

def columnUnsigned (value : Option Int) : Nat := toUnsigned (value.getD 0)

def columnDouble (value : Option Rat) : Double := .finite (value.getD 0)

/-- The text, or a word that stands in for an empty one. -/
def orWord (text : Text) (word : String) : Text := if text = [] then word.toList else text

def statusText : JobStatus → Text
  | .queued => "queued".toList
  | .grading => "grading".toList
  | .finished => "finished".toList

/-- `verdict='accepted' OR result LIKE 'accepted%'` -/
def isAccepted (s : Submission) : Bool :=
  s.verdict = some "accepted".toList || s.result.any (startsWithNoCase "accepted".toList)

/-- `instr(lower(text),lower(part))>0` -/
def containsNoCase (text part : Text) : Bool :=
  (strstr (text.map Char.toLower) (part.map Char.toLower)).isSome

/-- The fields of `struct task` that the pages read. -/
structure TaskData extends Html.Task where
  desc : Text
  comparison : Text

namespace Site

variable (d : Site)

def submissions : List Submission := d.queue.submissions.rows

/-! ## Tasks -/

def solved (taskPk userId : Int) : Bool :=
  d.submissions.any fun s => s.taskPk = taskPk && s.userId = some userId && isAccepted s

def tried (taskPk userId : Int) : Bool :=
  d.submissions.any fun s => s.taskPk = taskPk && s.userId = some userId

def bookmarked (taskPk userId : Int) : Bool :=
  d.bookmarks.any fun b => b.taskPk = taskPk && b.userId = userId

def fetchTasksFiltered (ok : Bool) (userId : Int) (showSolved query state : Option Text) :
    Option (List TaskListItem) :=
  let shown (t : Tasks.TaskRow) : Bool :=
    t.isHidden = 0 &&
    !(showSolved = some "0".toList && d.solved t.taskPk userId) &&
    (query.getD [] = [] || containsNoCase t.name (query.getD [])) &&
    (state ≠ some "solved".toList || d.solved t.taskPk userId) &&
    (state ≠ some "tried".toList || (d.tried t.taskPk userId && !d.solved t.taskPk userId)) &&
    (state ≠ some "bookmarked".toList || d.bookmarked t.taskPk userId)
  -- ORDER BY task_pk DESC
  if ok then some ((d.tasks.tasks.rows.filter shown).reverse.map fun t =>
    { pk := columnUnsigned t.taskPk
      name := columnText 256 t.name
      solved := d.solved t.taskPk userId
      tried := d.tried t.taskPk userId
      bookmarked := d.bookmarked t.taskPk userId })
  else none

def fetchTasks (ok : Bool) (userId : Int) (showSolved : Option Text) : Option (List TaskListItem) :=
  d.fetchTasksFiltered ok userId showSolved none none

def fetchAdminTasks (ok : Bool) : Option (List AdminTaskItem) :=
  if ok then some (d.tasks.tasks.rows.reverse.map fun t =>
    { pk := columnUnsigned t.taskPk, name := columnText 256 t.name, hidden := toInt32 t.isHidden ≠ 0 })
  else none

def submissionCount (taskPk : Int) : Nat := d.submissions.countP (·.taskPk = taskPk)

def acceptedCount (taskPk : Int) : Nat :=
  d.submissions.countP fun s => s.taskPk = taskPk && s.verdict = some "accepted".toList

/-- `is_hidden` takes no part in the lookup. -/
def fetchTaskByPk (ok : Bool) (pk : BitVec 32) : Option TaskData :=
  if ok then (d.tasks.tasks.find pk.toInt).map fun t =>
    { pk := columnUnsigned t.taskPk
      name := columnText 256 t.name
      memoryLimit := columnUnsigned t.memoryLimit
      timeLimit := columnUnsigned t.timeLimit
      desc := columnText 1024 t.descPath
      comparison := columnText 99 t.comparison
      submissionCount := columnUnsigned (d.submissionCount t.taskPk : Int)
      acceptedCount := columnUnsigned (d.acceptedCount t.taskPk : Int) }
  else none

def checkTaskPkValidity (ok : Bool) (pk : BitVec 32) : Int :=
  if ok then
    if (d.tasks.tasks.find pk.toInt).any (·.isHidden = 0) then 1 else 0
  else -1

/-! ## Submissions -/

def jobStatus (s : Submission) : Option Text := (d.queue.job s.submissionId).map (statusText ·.status)

def username (s : Submission) : Option Text := (s.userId.bind d.users.find).map (·.username)

def taskName (s : Submission) : Option Text := (d.tasks.tasks.find s.taskPk).map (·.name)

/-- `COALESCE(s.verdict,s.result,j.status)` -/
def shownVerdict (s : Submission) : Option Text := s.verdict.or (s.result.or (d.jobStatus s))

def submissionRow (s : Submission) : SubmissionRow where
  submissionId := columnUnsigned s.submissionId
  timeUsed := columnUnsigned s.timeUsed
  memoryUsed := columnUnsigned s.memoryUsed
  score := columnDouble s.score
  verdict := columnText 64 (d.shownVerdict s)
  subtaskResults := columnText 1024 s.subtaskResults
  submissionTime := columnText 64 (d.submissionTime s.submissionId)
  username := orWord (columnText 256 (d.username s)) "anonymous"
  taskName := orWord (columnText 256 (d.taskName s)) "unknown"

/-- The rows, and the number of the last one. -/
def fetchSubmissions (ok : Bool) (from_ limit : Nat) (userFilter : Option Text) (taskFilter : Nat)
    (verdictFilter : Option Text) : Option (List SubmissionRow × Nat) :=
  let selected (s : Submission) : Bool :=
    s.submissionId < from_ &&
    (userFilter.getD [] = [] || d.username s = userFilter) &&
    (taskFilter = 0 || s.taskPk = toInt32 taskFilter) &&
    (verdictFilter.getD [] = [] || s.verdict = verdictFilter)
  if ok then
    -- ORDER BY submission_id DESC
    let rows := ((d.submissions.filter selected).reverse.take limit).map d.submissionRow
    some (rows, (rows.getLast?.map (·.submissionId)).getD 0)
  else none

def submissionDetail (s : Submission) : SubmissionDetail :=
  let jobStatus := columnText 16 (d.jobStatus s)
  let verdict := columnText 64 (d.shownVerdict s)
  { submissionId := columnUnsigned s.submissionId
    timeUsed := columnUnsigned s.timeUsed
    memoryUsed := columnUnsigned s.memoryUsed
    score := columnDouble s.score
    isPublic := columnInt s.isPublic ≠ 0
    failedCase := s.failedCase.elim (-1) toInt32
    verdictMessage := columnText 1024 s.verdictMessage
    compilerOutput := columnText 16384 s.compilerOutput
    subtaskResults := columnText 1024 s.subtaskResults
    submissionTime := columnText 64 (d.submissionTime s.submissionId)
    username := orWord (columnText 256 (d.username s)) "anonymous"
    taskName := orWord (columnText 256 (d.taskName s)) "unknown"
    verdict := if verdict = [] then orWord jobStatus "pending" else verdict }

def fetchSubmissionDetail (ok : Bool) (id : BitVec 32) : Option SubmissionDetail :=
  if ok then (d.queue.submission id.toInt).map d.submissionDetail else none

/-- The code of a public submission. -/
def fetchSubmissionCodeById (ok : Bool) (id : BitVec 32) : Option Text :=
  if ok then
    ((d.queue.submission id.toInt).filter (columnInt ·.isPublic ≠ 0)).map fun s => cstr (s.code.getD [])
  else none

/-! ## The leaderboard -/

def bestScore (userId taskPk : Int) : Option Rat :=
  ((d.submissions.filter fun s => s.userId = some userId && s.taskPk = taskPk &&
    s.verdict = some "accepted".toList).filterMap (·.score)).max?

def acceptedTasks (userId : Int) : List Int :=
  (((d.submissions.filter fun s => s.userId = some userId &&
    s.verdict = some "accepted".toList).map (·.taskPk)).dedup).mergeSort (· ≤ ·)

/-- `a <= b` under the collation `BINARY`. -/
def textLe (a b : Text) : Bool := !b.lex a (fun c c' => c.toNat < c'.toNat)

structure Standing where
  username : Text
  solved : Nat
  totalScore : Rat

/-- `ORDER BY solved DESC, total_score DESC, username ASC` -/
def Standing.ahead (a b : Standing) : Bool :=
  b.solved < a.solved || a.solved = b.solved &&
    (b.totalScore < a.totalScore || a.totalScore = b.totalScore && textLe a.username b.username)

/-- `sum` is how SQLite adds up the values of `SUM`. -/
def standing (sum : List Rat → Rat) (u : User) : Standing :=
  let solved := d.acceptedTasks u.userId
  let scores := solved.filterMap (d.bestScore u.userId)
  { username := u.username, solved := solved.length, totalScore := if scores = [] then 0 else sum scores }

def fetchLeaderboard (ok : Bool) (sum : List Rat → Rat) : Option (List LeaderboardRow) :=
  if ok then some (((d.users.rows.map (d.standing sum)).mergeSort Standing.ahead).map fun row =>
    { username := columnText 256 row.username
      solved := toInt32 row.solved
      totalScore := .finite row.totalScore })
  else none

end Site

end Tle.Web
