import Tle.Lib.Run
import Tle.Tasks.Store

/-!
# Runs over the task tables

What the web process does to the task tables, one directory entry at a time. A call of `read_tasks` is
a `beginTasks`, its entries and, when it gets so far, an `endTasks`.
-/

namespace Tle.Tasks
open Tle.Lib

inductive Action where
  | beginTasks
  | entry (dir : TaskDir) (c : EntryCall)
  | endTasks
  | toggle (taskPk : BitVec 32)

def Db.step (d : Db) : Action → Db
  | .beginTasks => { d with seen := [] }
  | .entry dir c => (readEntry dir c d).2
  | .endTasks => { d.hideUnseen with seen := [] }
  | .toggle taskPk => d.toggleVisibility taskPk.toInt

/-- The tables a run of actions reaches from the empty ones. -/
def after (as : List Action) : Db := run Db.step Db.empty as

/-- The actions of the entries `read_tasks` gets to. -/
def entryActions : List (TaskDir × EntryCall) → Db → List Action
  | [], _ => []
  | (dir, c) :: rest, d =>
      .entry dir c :: match readEntry dir c d with
        | (.skipped, d) | (.accepted _, d) => entryActions rest d
        | (.died, _) | (.endless, _) => []

theorem readEntries_eq_run (entries : List (TaskDir × EntryCall)) (d : Db) :
    (readEntries entries d).2 = run Db.step d (entryActions entries d) := by
  induction entries generalizing d with
  | nil => rfl
  | cons entry rest ih =>
      obtain ⟨dir, c⟩ := entry
      have hstep : d.step (.entry dir c) = (readEntry dir c d).2 := rfl
      simp only [readEntries, entryActions]
      match hread : readEntry dir c d with
      | (.skipped, d') =>
          rw [run, List.foldl_cons, hstep, hread]
          exact ih d'
      | (.accepted task, d') =>
          rw [run, List.foldl_cons, hstep, hread]
          exact ih d'
      | (.died, d') => rw [run, List.foldl_cons, hstep, hread]; rfl
      | (.endless, d') => rw [run, List.foldl_cons, hstep, hread]; rfl

/-- A call of `read_tasks` is a run of actions. -/
theorem readTasks_eq_run (entries : List (TaskDir × EntryCall)) (track_ok hide_ok : Bool) (d : Db) :
    ∃ as, (readTasks entries track_ok hide_ok d).2 = run Db.step d as := by
  unfold readTasks
  cases track_ok with
  | false => exact ⟨[], rfl⟩
  | true =>
      rw [Bool.not_true, if_neg Bool.false_ne_true]
      have hrun := readEntries_eq_run entries { d with seen := [] }
      match hread : readEntries entries { d with seen := [] } with
      | (false, d') =>
          rw [hread] at hrun
          exact ⟨.beginTasks :: entryActions entries { d with seen := [] }, hrun⟩
      | (true, d') =>
          rw [hread] at hrun
          cases hide_ok with
          | false => exact ⟨.beginTasks :: entryActions entries { d with seen := [] }, hrun⟩
          | true =>
              refine ⟨(.beginTasks :: entryActions entries { d with seen := [] }) ++ [.endTasks], ?_⟩
              rw [run_snoc]
              exact congrArg (fun d : Db => { d.hideUnseen with seen := [] }) hrun

end Tle.Tasks
