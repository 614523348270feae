import Mathlib.Data.Prod.Lex
import Tle.Grade.Loop
import Tle.Lib.Table
import Tle.Tasks.Manifest

/-!
# `read_tasks`

The task tables, and the statements `read_tasks` runs for each directory entry. Each statement commits
at once; a call is given, for each of its statements, whether it succeeds, and a result pairs the
tables with what the call ends in.
-/

namespace Tle.Tasks
open Tle.Lib Tle.Grade

structure TaskRow where
  taskPk : Int
  name : Text
  descPath : Text
  memoryLimit : Int
  timeLimit : Int
  maxScore : Rat
  countCases : Int
  comparison : Text
  isHidden : Int := 0
  deriving DecidableEq

/-- A row of `subtask_groups`. -/
structure SubtaskGroup where
  taskPk : Int
  groupIdx : Int
  score : Rat
  caseStart : Int
  caseCount : Int
  deriving DecidableEq

/-- `PRIMARY KEY(task_pk, group_idx)` -/
def SubtaskGroup.key (g : SubtaskGroup) : Int ×ₗ Int := toLex (g.taskPk, g.groupIdx)

/-- The tables, and `seen_task_pks`. -/
structure Db where
  tasks : Table TaskRow.taskPk
  subtaskGroups : Table SubtaskGroup.key
  seen : List Int

namespace Db

def empty : Db := ⟨Table.empty, Table.empty, []⟩

/-- `UPDATE tasks SET f WHERE p` -/
def updateTasks (d : Db) (p : TaskRow → Bool) (f : TaskRow → TaskRow)
    (hf : ∀ r, (f r).taskPk = r.taskPk) : Db :=
  { d with tasks := d.tasks.updateWhere p f hf }

/-- `INSERT INTO tasks … ON CONFLICT(task_pk) DO UPDATE`; `is_hidden` keeps its value. -/
def upsertTask (d : Db) (row : TaskRow) : Db :=
  match d.tasks.insert? row with
  | some tasks => { d with tasks }
  | none =>
      d.updateTasks (·.taskPk = row.taskPk)
        (fun old => { row with taskPk := old.taskPk, isHidden := old.isHidden }) (fun _ => rfl)

/-- `INSERT OR IGNORE INTO temp.seen_task_pks` -/
def insertSeen (d : Db) (taskPk : Int) : Db :=
  if taskPk ∈ d.seen then d else { d with seen := taskPk :: d.seen }

/-- `DELETE FROM subtask_groups WHERE task_pk=?1` -/
def deleteGroups (d : Db) (taskPk : Int) : Db :=
  { d with subtaskGroups := d.subtaskGroups.deleteWhere (·.taskPk = taskPk) }

/-- `INSERT INTO subtask_groups`, refused when the key is taken or the task is not there. -/
def insertGroup (d : Db) (row : SubtaskGroup) : Option Db :=
  match d.tasks.find row.taskPk with
  | none => none
  | some _ => (d.subtaskGroups.insert? row).map (fun subtaskGroups => { d with subtaskGroups })

/-- `UPDATE tasks SET is_hidden=1 WHERE task_pk NOT IN (SELECT task_pk FROM temp.seen_task_pks)` -/
def hideUnseen (d : Db) : Db :=
  d.updateTasks (fun r => r.taskPk ∉ d.seen) (fun r => { r with isHidden := 1 }) (fun _ => rfl)

/-- The update of `task_toggle_visibility`. -/
def toggleVisibility (d : Db) (taskPk : Int) : Db :=
  d.updateTasks (·.taskPk = taskPk) (fun r => { r with isHidden := if r.isHidden = 0 then 1 else 0 })
    (fun _ => rfl)

/-! ### Statements on other tables -/

@[simp] theorem subtaskGroups_updateTasks (d : Db) (p f hf) :
    (d.updateTasks p f hf).subtaskGroups = d.subtaskGroups := rfl

@[simp] theorem subtaskGroups_upsertTask (d : Db) (row : TaskRow) :
    (d.upsertTask row).subtaskGroups = d.subtaskGroups := by
  unfold upsertTask
  split <;> rfl

@[simp] theorem subtaskGroups_insertSeen (d : Db) (pk : Int) :
    (d.insertSeen pk).subtaskGroups = d.subtaskGroups := by
  unfold insertSeen
  split <;> rfl

end Db

/-- `fetch_subtask_groups`; the rows of the table stand in the order of `group_idx`. -/
def fetchSubtaskGroups (d : Db) (taskPk : BitVec 32) : List Group :=
  (d.subtaskGroups.rows.filter (·.taskPk = taskPk.toInt)).map fun r =>
    { caseStart := BitVec.ofInt 32 r.caseStart
      caseCount := BitVec.ofInt 32 r.caseCount
      score := r.score }

structure EntryCall where
  considerTask_ok : Bool := true
  markTaskSeen_ok : Bool := true
  prepareDelete_ok : Bool := true
  delete_ok : Bool := true
  prepareInsert_ok : Bool := true
  insert_ok : Nat → Bool := fun _ => true

/-- The score and the count of an entry of `subtasks`, or `none` for `invalid subtask group`. -/
def subtaskEntry (group : Json) : Option (Rat × Int) := do
  guard group.isArray
  let scoreItem ← group.items[0]?
  let countItem ← group.items[1]?
  guard (scoreItem.isNumber && countItem.isNumber)
  guard (0 < countItem.valueint)
  return (scoreItem.valuedouble, countItem.valueint)

/-- The loop of `store_subtask_groups`; `false` when it dies. -/
def storeGroups (taskPk : BitVec 32) (c : EntryCall) :
    List Json → BitVec 32 → Nat → Db → Bool × Db
  | [], _, _, d => (true, d)
  | group :: rest, caseStart, idx, d =>
      match subtaskEntry group with
      | none => (false, d)
      | some (score, count) =>
          let row : SubtaskGroup := ⟨taskPk.toInt, idx, score, caseStart.toInt, count⟩
          match if c.insert_ok idx then d.insertGroup row else none with
          | none => (false, d)
          | some d => storeGroups taskPk c rest (caseStart + BitVec.ofInt 32 count) (idx + 1) d

def storeSubtaskGroups (taskPk : BitVec 32) (manifest : Json) (c : EntryCall) (d : Db) : Bool × Db :=
  if !c.prepareDelete_ok then (false, d)
  else
    -- the result of the delete is not looked at
    let d := if c.delete_ok then d.deleteGroups taskPk.toInt else d
    match manifest.getObjectItem "subtasks" with
    | some (.array groups) =>
        if !c.prepareInsert_ok then (false, d) else storeGroups taskPk c groups 1 0 d
    | _ => (true, d)

def considerTask (task : Task) (d : Db) : Db :=
  d.upsertTask {
    taskPk := task.pk.toInt
    name := task.name
    descPath := task.desc
    memoryLimit := task.memoryLimit.toInt
    timeLimit := task.timeLimit.toInt
    maxScore := task.maxScore
    countCases := task.countCases.toInt
    comparison := task.comparison }

inductive Loaded where
  | skipped
  | died
  | endless
  | accepted (task : Task)
  deriving DecidableEq

/-- The statements for an entry that has passed its checks. -/
def loadTask (task : Task) (manifest : Json) (c : EntryCall) (d : Db) : Loaded × Db :=
  if !c.considerTask_ok then (.died, d)
  else
    let d := considerTask task d
    if !c.markTaskSeen_ok then (.died, d)
    else
      let d := d.insertSeen task.pk.toInt
      match storeSubtaskGroups task.pk manifest c d with
      | (true, d) => (.accepted task, d)
      | (false, d) => (.died, d)

/-- The body of the loop of `read_tasks`. -/
def readEntry (dir : TaskDir) (c : EntryCall) (d : Db) : Loaded × Db :=
  match checkEntry dir with
  | .skip => (.skipped, d)
  | .die => (.died, d)
  | .endless => (.endless, d)
  | .load task manifest => loadTask task manifest c d

/-- The entries in the order of `readdir`, up to the first that dies or loops; `true` when all have been
read. -/
def readEntries : List (TaskDir × EntryCall) → Db → Bool × Db
  | [], d => (true, d)
  | (dir, c) :: rest, d =>
      match readEntry dir c d with
      | (.skipped, d) | (.accepted _, d) => readEntries rest d
      | (.died, d) | (.endless, d) => (false, d)

/-- `read_tasks`, and whether it returns. -/
def readTasks (entries : List (TaskDir × EntryCall)) (track_ok hide_ok : Bool) (d : Db) : Bool × Db :=
  if !track_ok then (false, d)
  else
    match readEntries entries { d with seen := [] } with
    | (false, d) => (false, d)
    | (true, d) => if hide_ok then (true, { d.hideUnseen with seen := [] }) else (false, d)

end Tle.Tasks
