import Tle.Tasks.OrderTheorems
import Tle.Tasks.System

/-!
# The names of the tasks, over runs
-/

namespace Tle.Tasks
open Tle.Lib

variable {d : Db} {a : Action} {as : List Action} {dir : TaskDir} {task : Task} {manifest : Json} {c : EntryCall}
  {taskPk start : BitVec 32} {groups : List Json} {idx : Nat} {name : Text} {r : TaskRow}

/-- `readdir` has come to a directory of that name, and it is not hidden. -/
def Scanned (as : List Action) (name : Text) : Prop :=
  ∃ dir c, Action.entry dir c ∈ as ∧ dir.isDirectory = true ∧ dir.name.head? ≠ some '.' ∧ dir.name.length < 256 ∧
    dir.name = name

theorem Scanned.mono {as' : List Action} (h : Scanned as name) (hsub : ∀ a, a ∈ as → a ∈ as') : Scanned as' name := by
  obtain ⟨dir, c, hmem, hdir⟩ := h
  exact ⟨dir, c, hsub _ hmem, hdir⟩

theorem scanned_of_load (hcheck : checkEntry dir = .load task manifest) (c : EntryCall) :
    Scanned [.entry dir c] task.name := by
  have hkept : ¬ (dir.name.head? = some '.' ∨ dir.name.length ≥ 256 ∨ !dir.isDirectory) := by
    intro hskip
    rw [checkEntry, if_pos hskip] at hcheck
    cases hcheck
  simp only [not_or, not_le, Bool.not_eq_true', Bool.not_eq_false] at hkept
  obtain ⟨hhead, hlength, hdir⟩ := hkept
  exact ⟨dir, c, List.mem_singleton_self _, hdir, hhead, hlength, (checkEntry_name hcheck).symm⟩

/-- Also where it dies. -/
theorem tasks_storeGroups : (storeGroups taskPk c groups start idx d).2.tasks = d.tasks := by
  induction groups generalizing start idx d with
  | nil => rfl
  | cons group rest ih =>
      obtain hdied | ⟨score, count, d₁, -, hins, heq⟩ := storeGroups_cons taskPk start c group rest idx d
      · rw [hdied]
      · rw [heq, ih, (insertGroup_keeps hins).1]

theorem tasks_storeSubtaskGroups : (storeSubtaskGroups taskPk manifest c d).2.tasks = d.tasks := by
  have hdelete : (if c.delete_ok then d.deleteGroups taskPk.toInt else d).tasks = d.tasks := by
    split <;> rfl
  unfold storeSubtaskGroups
  split
  · rfl
  · dsimp only
    split
    · split
      · exact hdelete
      · exact tasks_storeGroups.trans hdelete
    · exact hdelete

theorem name_considerTask (hr : r ∈ (considerTask task d).tasks.rows) : r.name = task.name ∨ r ∈ d.tasks.rows := by
  rw [mem_considerTask] at hr
  obtain rfl | ⟨hold, -⟩ := hr
  · exact Or.inl rfl
  · exact Or.inr hold

/-- A statement that only changes other columns. -/
theorem name_updateTasks {p : TaskRow → Bool} {f : TaskRow → TaskRow} {hf : ∀ r, (f r).taskPk = r.taskPk}
    (hname : ∀ r, (f r).name = r.name) (hr : r ∈ (d.updateTasks p f hf).tasks.rows) :
    ∃ old ∈ d.tasks.rows, old.name = r.name := by
  obtain ⟨old, hold, rfl⟩ := List.mem_map.mp hr
  refine ⟨old, hold, ?_⟩
  split
  · exact (hname old).symm
  · rfl

/-- A step names its tasks as they were named before, or after the directory of its entry. -/
theorem name_step (hr : r ∈ (d.step a).tasks.rows) :
    (∃ old ∈ d.tasks.rows, old.name = r.name) ∨ Scanned [a] r.name := by
  cases a with
  | beginTasks => exact Or.inl ⟨r, hr, rfl⟩
  | endTasks =>
      have hrow : r ∈ d.hideUnseen.tasks.rows := hr
      unfold Db.hideUnseen at hrow
      apply Or.inl
      apply name_updateTasks _ hrow
      exact fun _ => rfl
  | toggle taskPk =>
      have hrow : r ∈ (d.toggleVisibility taskPk.toInt).tasks.rows := hr
      unfold Db.toggleVisibility at hrow
      apply Or.inl
      apply name_updateTasks _ hrow
      exact fun _ => rfl
  | entry dir c =>
      have hrow : r ∈ (readEntry dir c d).2.tasks.rows := hr
      obtain ⟨hsame, -⟩ | ⟨task, manifest, hcheck, hdied | ⟨stored, hstored, heq⟩⟩ := readEntry_cases dir c d
      · rw [hsame] at hrow
        exact Or.inl ⟨r, hrow, rfl⟩
      · rw [hdied] at hrow
        obtain hname | hold := name_considerTask hrow
        · exact Or.inr (hname ▸ scanned_of_load hcheck c)
        · exact Or.inl ⟨r, hold, rfl⟩
      · rw [heq, ← hstored, tasks_storeSubtaskGroups, tasks_insertSeen] at hrow
        obtain hname | hold := name_considerTask hrow
        · exact Or.inr (hname ▸ scanned_of_load hcheck c)
        · exact Or.inl ⟨r, hold, rfl⟩

theorem scanned_after (as : List Action) : ∀ r ∈ (after as).tasks.rows, Scanned as r.name := by
  induction as using List.reverseRecOn with
  | nil =>
      intro r hr
      cases hr
  | append_singleton as a ih =>
      intro r hr
      rw [after, run_snoc] at hr
      obtain ⟨old, hold, hname⟩ | hscanned := name_step hr
      · exact hname ▸ (ih old hold).mono fun _ hmem => List.mem_append_left _ hmem
      · exact hscanned.mono fun _ hmem => List.mem_append_right _ hmem

end Tle.Tasks
