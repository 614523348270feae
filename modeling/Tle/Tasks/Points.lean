import Tle.Tasks.Lemmas.Groups

/-!
# The points between the statements of `read_tasks`

The same statements as in `Store.lean`, with the tables as every one of them leaves them: what another
process may read, and what stays when `read_tasks` dies there.
-/

namespace Tle.Tasks
open Tle.Lib Tle.Grade

/-- After each insert of `storeGroups`. -/
def groupPoints (taskPk : BitVec 32) (c : EntryCall) : List Json → BitVec 32 → Nat → Db → List Db
  | [], _, _, _ => []
  | group :: rest, caseStart, idx, d =>
      match subtaskEntry group with
      | none => []
      | some (score, count) =>
          let row : SubtaskGroup := ⟨taskPk.toInt, idx, score, caseStart.toInt, count⟩
          match if c.insert_ok idx then d.insertGroup row else none with
          | none => []
          | some d => d :: groupPoints taskPk c rest (caseStart + BitVec.ofInt 32 count) (idx + 1) d

def storePoints (taskPk : BitVec 32) (manifest : Json) (c : EntryCall) (d : Db) : List Db :=
  if !c.prepareDelete_ok then []
  else
    let d := if c.delete_ok then d.deleteGroups taskPk.toInt else d
    d :: match manifest.getObjectItem "subtasks" with
      | some (.array groups) => if !c.prepareInsert_ok then [] else groupPoints taskPk c groups 1 0 d
      | _ => []

def loadPoints (task : Task) (manifest : Json) (c : EntryCall) (d : Db) : List Db :=
  if !c.considerTask_ok then []
  else
    let d := considerTask task d
    d :: if !c.markTaskSeen_ok then []
      else
        let d := d.insertSeen task.pk.toInt
        d :: storePoints task.pk manifest c d

/-- The tables before an entry and after each of its statements. -/
def entryPoints (dir : TaskDir) (c : EntryCall) (d : Db) : List Db :=
  d :: match checkEntry dir with
    | .load task manifest => loadPoints task manifest c d
    | _ => []

/-- The points of the entries that `readEntries` gets to. -/
def readPoints : List (TaskDir × EntryCall) → Db → List Db
  | [], d => [d]
  | (dir, c) :: rest, d =>
      entryPoints dir c d ++ match readEntry dir c d with
        | (.skipped, d) | (.accepted _, d) => readPoints rest d
        | (.died, _) | (.endless, _) => []

/-! ## The last point is where the call ends -/

variable {taskPk start : BitVec 32} {c : EntryCall} {d : Db}

theorem groupPoints_getLast (groups : List Json) (idx : Nat) :
    (groupPoints taskPk c groups start idx d).getLast?.getD d =
      (storeGroups taskPk c groups start idx d).2 := by
  induction groups generalizing start idx d with
  | nil => rfl
  | cons group rest ih =>
      rw [groupPoints, storeGroups]
      cases subtaskEntry group with
      | none => rfl
      | some e =>
          dsimp only
          generalize (if c.insert_ok idx then d.insertGroup _ else none) = inserted
          cases inserted with
          | none => rfl
          | some d₁ =>
              rw [List.getLast?_cons, Option.getD_some]
              exact ih (idx + 1)

theorem storePoints_getLast (manifest : Json) :
    (storePoints taskPk manifest c d).getLast?.getD d = (storeSubtaskGroups taskPk manifest c d).2 := by
  unfold storePoints storeSubtaskGroups
  split
  · rfl
  · simp only [List.getLast?_cons, Option.getD_some]
    cases manifest.getObjectItem "subtasks" with
    | none => rfl
    | some subtasks =>
        cases subtasks with
        | array groups =>
            dsimp only
            split
            · rfl
            · exact groupPoints_getLast groups 0
        | _ => rfl

theorem loadPoints_getLast (task : Task) (manifest : Json) :
    (loadPoints task manifest c d).getLast?.getD d = (loadTask task manifest c d).2 := by
  unfold loadPoints loadTask
  split
  · rfl
  · simp only [List.getLast?_cons, Option.getD_some]
    split
    · rfl
    · simp only [List.getLast?_cons, Option.getD_some, storePoints_getLast]
      split <;> rename_i h <;> rw [h]

theorem entryPoints_getLast (dir : TaskDir) :
    (entryPoints dir c d).getLast?.getD d = (readEntry dir c d).2 := by
  unfold entryPoints readEntry
  rw [List.getLast?_cons, Option.getD_some]
  cases checkEntry dir with
  | load task manifest => exact loadPoints_getLast task manifest
  | _ => rfl

/-- Every point of `read_tasks` is a point of one entry, read from tables that a run reaches. -/
theorem mem_readPoints {as : List Action} {entries : List (TaskDir × EntryCall)} {s : Db}
    (h : s ∈ readPoints entries (after as)) : (∃ bs, s = after bs) ∨
      ∃ bs dir c, (dir, c) ∈ entries ∧ s ∈ entryPoints dir c (after bs) := by
  induction entries generalizing as with
  | nil => exact Or.inl ⟨as, List.mem_singleton.mp h⟩
  | cons entry rest ih =>
      obtain ⟨dir, c⟩ := entry
      have hnext : after (as ++ [.entry dir c]) = (readEntry dir c (after as)).2 := by
        rw [after, run_snoc]
        rfl
      have hrest : ∀ {d}, d = after (as ++ [.entry dir c]) → s ∈ readPoints rest d →
          (∃ bs, s = after bs) ∨
            ∃ bs dir' c', (dir', c') ∈ (dir, c) :: rest ∧ s ∈ entryPoints dir' c' (after bs) := by
        rintro d rfl hmem
        obtain hafter | ⟨bs, dir', c', hentry, hpoint⟩ := ih hmem
        · exact Or.inl hafter
        · exact Or.inr ⟨bs, dir', c', List.mem_cons_of_mem _ hentry, hpoint⟩
      rw [readPoints] at h
      obtain hentry | hlater := List.mem_append.mp h
      · exact Or.inr ⟨as, dir, c, List.mem_cons_self, hentry⟩
      · rcases hread : readEntry dir c (after as) with ⟨result, d⟩
        rw [hread] at hnext hlater
        cases result with
        | skipped => exact hrest hnext.symm hlater
        | accepted task => exact hrest hnext.symm hlater
        | died => cases hlater
        | endless => cases hlater

end Tle.Tasks
