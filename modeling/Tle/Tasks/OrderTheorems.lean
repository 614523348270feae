import Tle.Tasks.Lemmas.Loading
import Tle.Tasks.Theorems

/-!
# The order of the task directories

Which of the orders `readdir` chooses makes no difference as long as no two manifests claim the same task.
-/

namespace Tle.Tasks
open Tle.Lib

variable {d d' d₁ d₂ : Db} {dir : TaskDir} {task : Task} {manifest : Json} {c : EntryCall} {track_ok hide_ok : Bool}
  {entries entries' : List (TaskDir × EntryCall)}

/-! ## The name of a loaded task -/

theorem manifestTask_name {name : Text} (h : manifestTask name manifest = some task) :
    task.name = copyText 256 name := by
  simp only [manifestTask, bind, Option.bind_eq_some_iff] at h
  obtain ⟨_, -, _, -, _, -, _, -, _, -, _, -, hreturn⟩ := h
  cases hreturn
  rfl

theorem checkEntry_name (h : checkEntry dir = .load task manifest) : task.name = dir.name := by
  obtain ⟨-, htask, -⟩ := checkEntry_load h
  have hshort : dir.name.length < 256 := by
    unfold checkEntry at h
    split at h
    · cases h
    · rename_i hkept
      simp only [not_or, not_le] at hkept
      exact hkept.2.1
  rw [manifestTask_name htask]
  exact List.take_of_length_le (by omega)

/-! ## The last statements -/

/-- The tables when `read_tasks` returns. -/
def Db.finish (d : Db) : Db := { d.hideUnseen with seen := [] }

theorem finish_eq (htasks : d₁.tasks = d₂.tasks) (hgroups : d₁.subtaskGroups = d₂.subtaskGroups)
    (hseen : ∀ k, k ∈ d₁.seen ↔ k ∈ d₂.seen) : d₁.finish = d₂.finish := by
  have hunseen : (fun r : TaskRow => decide (r.taskPk ∉ d₁.seen)) = fun r => decide (r.taskPk ∉ d₂.seen) := by
    funext r
    exact decide_eq_decide.mpr (not_congr (hseen r.taskPk))
  simp only [Db.finish, Db.hideUnseen, Db.updateTasks, htasks, hgroups, hunseen]

theorem readTasks_iff : readTasks entries track_ok hide_ok d = (true, d') ↔
    (track_ok = true ∧ hide_ok = true) ∧
      ∃ d₁, readEntries entries { d with seen := [] } = (true, d₁) ∧ d' = d₁.finish := by
  unfold readTasks
  cases track_ok with
  | false => simp
  | true =>
      rcases readEntries entries { d with seen := [] } with ⟨done, d₁⟩
      cases done with
      | false => simp
      | true => cases hide_ok <;> simp [Db.finish, eq_comm]

/-! ## The rows of one directory -/

theorem LoadedFrom.find (h : LoadedFrom entries d d') (he : (dir, c) ∈ entries)
    (hcheck : checkEntry dir = .load task manifest) :
    d'.tasks.find task.pk.toInt = some (taskRow task (d.hidden task.pk)) := by
  have hmem : taskRow task (d.hidden task.pk) ∈ d'.tasks.rows := by
    rw [h.tasks]
    exact Or.inl ⟨(dir, c), he, task, manifest, hcheck, rfl⟩
  exact Table.mem_rows_iff.mp hmem

theorem LoadedFrom.ownGroups (h : LoadedFrom entries d d') (hapart : entries.Pairwise Apart)
    (he : (dir, c) ∈ entries) (hcheck : checkEntry dir = .load task manifest) (hdelete : c.delete_ok = true)
    (r : SubtaskGroup) :
    (r ∈ d'.subtaskGroups.rows ∧ r.taskPk = task.pk.toInt) ↔ r ∈ manifestRows task.pk manifest := by
  rw [h.groups]
  constructor
  · rintro ⟨⟨e', he', task', manifest', hcheck', hrow⟩ | hold, hpk⟩
    · have hsame : e' = (dir, c) := by
        by_contra hne
        have hpk' : task'.pk ≠ task.pk := hapart.forall he' he hne task' manifest' task manifest hcheck' hcheck
        rw [taskPk_of_mem_manifestRows hrow] at hpk
        exact hpk' (BitVec.toInt_inj.mp hpk)
      rw [hsame, hcheck] at hcheck'
      cases hcheck'
      exact hrow
    · exact absurd hpk (hold.2 (dir, c) he task manifest hcheck hdelete)
  · intro hrow
    exact ⟨Or.inl ⟨(dir, c), he, task, manifest, hcheck, hrow⟩, taskPk_of_mem_manifestRows hrow⟩

theorem finish_find {row : TaskRow} {k : Int} (h : d.tasks.find k = some row) :
    ∃ row', d.finish.tasks.find k = some row' ∧ row'.name = row.name := by
  have hfind : d.finish.tasks.find k = some (if row.taskPk ∉ d.seen then { row with isHidden := 1 } else row) := by
    simp only [Db.finish, Db.hideUnseen, Db.updateTasks, Table.find_updateWhere, h, Option.map_some,
      decide_eq_true_eq]
  refine ⟨_, hfind, ?_⟩
  split <;> rfl

/-! ## Every order -/

/-- Two orders in which no task comes twice leave the same tables, with each directory's own rows. -/
theorem readTasks_order (entries entries' : List (TaskDir × EntryCall)) (track_ok hide_ok : Bool) (d d' : Db)
    (hperm : entries.Perm entries') (hapart : entries.Pairwise Apart)
    (hrun : readTasks entries track_ok hide_ok d = (true, d')) :
    readTasks entries' track_ok hide_ok d = (true, d') ∧
      ∀ dir c, (dir, c) ∈ entries → ∀ task manifest, checkEntry dir = .load task manifest →
        (∃ row, d'.tasks.find task.pk.toInt = some row ∧ row.name = dir.name) ∧
          (c.delete_ok = true → ∀ r, (r ∈ d'.subtaskGroups.rows ∧ r.taskPk = task.pk.toInt) ↔
            r ∈ manifestRows task.pk manifest) := by
  obtain ⟨hok, d₁, hread, rfl⟩ := readTasks_iff.mp hrun
  have hloads := readEntries_loads hapart hread
  have hapart' : entries'.Pairwise Apart := (hperm.pairwise_iff Apart.symm).mp hapart
  constructor
  · have hgoes := (readEntries_iff hapart).mp (congrArg Prod.fst hread)
    have hdone : (readEntries entries' { d with seen := [] }).1 = true :=
      (readEntries_iff hapart').mpr fun e he => hgoes e (hperm.mem_iff.mpr he)
    have hread' : readEntries entries' { d with seen := [] } =
        (true, (readEntries entries' { d with seen := [] }).2) := Prod.ext hdone rfl
    obtain ⟨htasks, hgroups, hseen⟩ := hloads.unique (readEntries_loads hapart' hread') hperm
    exact readTasks_iff.mpr ⟨hok, _, hread', finish_eq htasks hgroups hseen⟩
  · intro dir c he task manifest hcheck
    constructor
    · obtain ⟨row, hrow, hname⟩ := finish_find (hloads.find he hcheck)
      exact ⟨row, hrow, hname.trans (checkEntry_name hcheck)⟩
    · exact fun hdelete r => hloads.ownGroups hapart he hcheck hdelete r

/-- A directory of one case whose manifest has the given `pk`. -/
def oneCaseDir (name : Text) (pk : Rat) : TaskDir where
  name := name
  isDirectory := true
  manifest := some (some (.object [
    ("pk".toList, .number pk), ("ncase".toList, .number 1), ("time".toList, .number 50),
    ("mem".toList, .number 256000), ("cmp_type".toList, .string "tkcmp".toList),
    ("subtasks".toList, .array [hundredFor 1])]))
  juryCpp := false
  jury := false
  script := fun _ => .absent
  input := fun k => k = 1

def Checked.pk : Checked → Option (BitVec 32)
  | .load task _ => some task.pk
  | _ => none

theorem apart_of_pk {e e' : TaskDir × EntryCall} (h : (checkEntry e.1).pk ≠ (checkEntry e'.1).pk) : Apart e e' := by
  intro task manifest task' manifest' hcheck hcheck' hpk
  rw [hcheck, hcheck', Checked.pk, Checked.pk, hpk] at h
  exact h rfl

/-- The tables after the directories `a` and `b`, in this order, with the given `pk`s. -/
def aThenB (pk pk' : Rat) : Bool × Db :=
  readTasks [(oneCaseDir "a".toList pk, {}), (oneCaseDir "b".toList pk', {})] true true Db.empty

def bThenA (pk pk' : Rat) : Bool × Db :=
  readTasks [(oneCaseDir "b".toList pk', {}), (oneCaseDir "a".toList pk, {})] true true Db.empty

theorem readTasks_order_two : bThenA 9 10 = (true, (aThenB 9 10).2) :=
  (readTasks_order [(oneCaseDir "a".toList 9, {}), (oneCaseDir "b".toList 10, {})]
    [(oneCaseDir "b".toList 10, {}), (oneCaseDir "a".toList 9, {})] true true Db.empty (aThenB 9 10).2
    (List.Perm.swap ..)
    (List.pairwise_pair.mpr (apart_of_pk (by decide +kernel)))
    (Prod.ext (by decide +kernel) rfl)).1

/-- Two directories that claim one task both load, and the one that is listed last has the row. -/
theorem readTasks_order_matters :
    ((aThenB 9 9).1 = true ∧ (bThenA 9 9).1 = true) ∧
      (aThenB 9 9).2.tasks.rows.map (·.name) = ["b".toList] ∧
        (bThenA 9 9).2.tasks.rows.map (·.name) = ["a".toList] := by
  decide +kernel

end Tle.Tasks
