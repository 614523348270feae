import Tle.Tasks.Lemmas.Groups

/-!
# What loading leaves in the tables

The tables after `read_tasks` has gone through some entries, as a set of rows that says nothing of their order.
-/

namespace Tle.Tasks
open Tle.Lib

variable {d d' d₁ d₂ : Db} {taskPk start : BitVec 32} {c : EntryCall} {groups : List Json} {idx : Nat} {task : Task}
  {manifest : Json} {e : TaskDir × EntryCall} {entries rest : List (TaskDir × EntryCall)}

/-! ## The rows of a task -/

/-- The row that `consider_task` writes. -/
def taskRow (task : Task) (isHidden : Int) : TaskRow where
  taskPk := task.pk.toInt
  name := task.name
  descPath := task.desc
  memoryLimit := task.memoryLimit.toInt
  timeLimit := task.timeLimit.toInt
  maxScore := task.maxScore
  countCases := task.countCases.toInt
  comparison := task.comparison
  isHidden := isHidden

/-- What the column `is_hidden` keeps or starts with. -/
def Db.hidden (d : Db) (taskPk : BitVec 32) : Int := ((d.tasks.find taskPk.toInt).map (·.isHidden)).getD 0

/-- The rows of the groups `gs` when the first one has the index `idx` and starts at `start`. -/
def groupRows (taskPk : BitVec 32) : BitVec 32 → Nat → List (Rat × Int) → List SubtaskGroup
  | _, _, [] => []
  | start, idx, (score, count) :: gs =>
      ⟨taskPk.toInt, idx, score, start.toInt, count⟩ ::
        groupRows taskPk (start + BitVec.ofInt 32 count) (idx + 1) gs

/-- The rows of the groups that a manifest declares. -/
def manifestRows (taskPk : BitVec 32) (manifest : Json) : List SubtaskGroup :=
  match manifest.getObjectItem "subtasks" with
  | some (.array groups) => groupRows taskPk 1 0 (groups.filterMap subtaskEntry)
  | _ => []

theorem taskPk_of_mem_groupRows {gs : List (Rat × Int)} {r : SubtaskGroup} (h : r ∈ groupRows taskPk start idx gs) :
    r.taskPk = taskPk.toInt := by
  induction gs generalizing start idx with
  | nil => cases h
  | cons g gs ih =>
      rcases List.mem_cons.mp h with rfl | h
      · rfl
      · exact ih h

theorem taskPk_of_mem_manifestRows {r : SubtaskGroup} (h : r ∈ manifestRows taskPk manifest) :
    r.taskPk = taskPk.toInt := by
  unfold manifestRows at h
  split at h
  · exact taskPk_of_mem_groupRows h
  · cases h

/-! ## One entry -/

theorem mem_considerTask (r : TaskRow) : r ∈ (considerTask task d).tasks.rows ↔
    r = taskRow task (d.hidden task.pk) ∨ r ∈ d.tasks.rows ∧ r.taskPk ≠ task.pk.toInt := by
  have hconsider : considerTask task d = d.upsertTask (taskRow task 0) := rfl
  rw [hconsider, Db.upsertTask]
  split
  · rename_i tasks hinsert
    have hfree : d.tasks.find task.pk.toInt = none := Table.find_of_insert? hinsert
    have hother : r ∈ d.tasks.rows → r.taskPk ≠ task.pk.toInt := Table.find_eq_none_iff.mp hfree r
    have hhidden : d.hidden task.pk = 0 := by
      rw [Db.hidden, hfree]
      rfl
    rw [Table.rows_insert? hinsert, Table.mem_insertRow, hhidden]
    exact or_congr_right ⟨fun hr => ⟨hr, hother hr⟩, fun hr => hr.1⟩
  · rename_i hinsert
    obtain ⟨old, hold⟩ := Table.insert?_eq_none_iff.mp hinsert
    have holdPk : old.taskPk = task.pk.toInt := Table.find_key hold
    have hhidden : d.hidden task.pk = old.isHidden := by
      have hfound : d.tasks.find task.pk.toInt = some old := hold
      rw [Db.hidden, hfound]
      rfl
    have hnew : ({ taskRow task 0 with taskPk := old.taskPk, isHidden := old.isHidden } : TaskRow) =
        taskRow task old.isHidden := by
      rw [holdPk]
      rfl
    rw [hhidden]
    constructor
    · intro hr
      obtain ⟨x, hx, rfl⟩ := List.mem_map.mp hr
      split
      · rename_i hpk
        have hsame : x = old := by
          have hfound := Table.mem_rows_iff.mp hx
          rw [of_decide_eq_true hpk] at hfound
          exact Option.some.inj (hfound.symm.trans hold)
        rw [hsame]
        exact Or.inl hnew
      · rename_i hpk
        exact Or.inr ⟨hx, fun heq => hpk (decide_eq_true heq)⟩
    · rintro (rfl | ⟨hr, hpk⟩)
      · refine List.mem_map.mpr ⟨old, Table.find_mem hold, ?_⟩
        exact (if_pos (decide_eq_true holdPk)).trans hnew
      · refine List.mem_map.mpr ⟨r, hr, ?_⟩
        exact if_neg fun heq => hpk (of_decide_eq_true heq)

theorem insertGroup_keeps {row : SubtaskGroup} (h : d.insertGroup row = some d') :
    d'.tasks = d.tasks ∧ d'.seen = d.seen := by
  unfold Db.insertGroup at h
  split at h
  · cases h
  · obtain ⟨table, -, rfl⟩ := Option.map_eq_some_iff.mp h
    exact ⟨rfl, rfl⟩

theorem mem_storeGroups (h : storeGroups taskPk c groups start idx d = (true, d')) :
    d'.tasks = d.tasks ∧ d'.seen = d.seen ∧ ∀ r, r ∈ d'.subtaskGroups.rows ↔
      r ∈ groupRows taskPk start idx (groups.filterMap subtaskEntry) ∨ r ∈ d.subtaskGroups.rows := by
  induction groups generalizing start idx d with
  | nil =>
      cases h
      exact ⟨rfl, rfl, fun r => by simp [groupRows]⟩
  | cons group rest ih =>
      obtain hdied | ⟨score, count, d₁, hentry, hins, heq⟩ := storeGroups_cons taskPk start c group rest idx d
      · rw [hdied] at h
        cases h
      · rw [heq] at h
        obtain ⟨htasks, hseen, hrows⟩ := ih h
        obtain ⟨htasks₁, hseen₁⟩ := insertGroup_keeps hins
        refine ⟨htasks.trans htasks₁, hseen.trans hseen₁, fun r => ?_⟩
        rw [hrows, Table.rows_insert? (insertGroup_eq_some hins), Table.mem_insertRow,
          List.filterMap_cons_some hentry, groupRows, List.mem_cons]
        tauto

/-- The rows are those of the manifest, and the old ones if they could not be deleted. -/
theorem mem_storeSubtaskGroups (h : storeSubtaskGroups taskPk manifest c d = (true, d')) :
    d'.tasks = d.tasks ∧ d'.seen = d.seen ∧ ∀ r, r ∈ d'.subtaskGroups.rows ↔ r ∈ manifestRows taskPk manifest ∨
      r ∈ d.subtaskGroups.rows ∧ (c.delete_ok = true → r.taskPk ≠ taskPk.toInt) := by
  have hdelete : ∀ r, r ∈ (if c.delete_ok then d.deleteGroups taskPk.toInt else d).subtaskGroups.rows ↔
      r ∈ d.subtaskGroups.rows ∧ (c.delete_ok = true → r.taskPk ≠ taskPk.toInt) := by
    intro r
    split
    · rename_i hok
      simp [Db.deleteGroups, Table.deleteWhere, hok]
    · rename_i hok
      simp [hok]
  have hkeeps : (if c.delete_ok then d.deleteGroups taskPk.toInt else d).tasks = d.tasks ∧
      (if c.delete_ok then d.deleteGroups taskPk.toInt else d).seen = d.seen := by
    split <;> exact ⟨rfl, rfl⟩
  unfold storeSubtaskGroups at h
  split at h
  · cases h
  · dsimp only at h
    split at h
    · rename_i groups hgroups
      split at h
      · cases h
      · obtain ⟨htasks, hseen, hrows⟩ := mem_storeGroups h
        refine ⟨htasks.trans hkeeps.1, hseen.trans hkeeps.2, fun r => ?_⟩
        rw [hrows, hdelete, manifestRows, hgroups]
    · rename_i hgroups
      cases h
      refine ⟨hkeeps.1, hkeeps.2, fun r => ?_⟩
      have hnone : manifestRows taskPk manifest = [] := by
        unfold manifestRows
        split
        · rename_i groups hsome
          exact absurd hsome (hgroups groups)
        · rfl
      rw [hdelete, hnone]
      simp

@[simp] theorem tasks_insertSeen (d : Db) (pk : Int) : (d.insertSeen pk).tasks = d.tasks := by
  unfold Db.insertSeen
  split <;> rfl

theorem mem_insertSeen (d : Db) (pk k : Int) : k ∈ (d.insertSeen pk).seen ↔ k = pk ∨ k ∈ d.seen := by
  unfold Db.insertSeen
  split
  · rename_i hmem
    constructor
    · exact Or.inr
    · rintro (rfl | hk)
      · exact hmem
      · exact hk
  · exact List.mem_cons

@[simp] theorem seen_considerTask (task : Task) (d : Db) : (considerTask task d).seen = d.seen := by
  unfold considerTask Db.upsertTask
  split <;> rfl

/-! ## Some entries -/

/-- What the entries leave. -/
structure LoadedFrom (entries : List (TaskDir × EntryCall)) (d d' : Db) : Prop where
  tasks : ∀ r, r ∈ d'.tasks.rows ↔
    (∃ e ∈ entries, ∃ task manifest, checkEntry e.1 = .load task manifest ∧ r = taskRow task (d.hidden task.pk)) ∨
    r ∈ d.tasks.rows ∧ ∀ e ∈ entries, ∀ task manifest, checkEntry e.1 = .load task manifest →
      r.taskPk ≠ task.pk.toInt
  groups : ∀ r, r ∈ d'.subtaskGroups.rows ↔
    (∃ e ∈ entries, ∃ task manifest, checkEntry e.1 = .load task manifest ∧ r ∈ manifestRows task.pk manifest) ∨
    r ∈ d.subtaskGroups.rows ∧ ∀ e ∈ entries, ∀ task manifest, checkEntry e.1 = .load task manifest →
      e.2.delete_ok = true → r.taskPk ≠ task.pk.toInt
  seen : ∀ k, k ∈ d'.seen ↔
    (∃ e ∈ entries, ∃ task manifest, checkEntry e.1 = .load task manifest ∧ k = task.pk.toInt) ∨ k ∈ d.seen

/-- Any order of the entries leaves the same. -/
theorem LoadedFrom.unique {entries' : List (TaskDir × EntryCall)} (h : LoadedFrom entries d d₁)
    (h' : LoadedFrom entries' d d₂) (hperm : entries.Perm entries') :
    d₁.tasks = d₂.tasks ∧ d₁.subtaskGroups = d₂.subtaskGroups ∧ ∀ k, k ∈ d₁.seen ↔ k ∈ d₂.seen := by
  refine ⟨Table.eq_of_mem fun r => ?_, Table.eq_of_mem fun r => ?_, fun k => ?_⟩
  · rw [h.tasks, h'.tasks]
    simp only [hperm.mem_iff]
  · rw [h.groups, h'.groups]
    simp only [hperm.mem_iff]
  · rw [h.seen, h'.seen]
    simp only [hperm.mem_iff]

def Loaded.goesOn : Loaded → Bool
  | .skipped => true
  | .accepted _ => true
  | _ => false

theorem readEntries_cons (e : TaskDir × EntryCall) (rest : List (TaskDir × EntryCall)) (d : Db) :
    readEntries (e :: rest) d =
      if (readEntry e.1 e.2 d).1.goesOn then readEntries rest (readEntry e.1 e.2 d).2
      else (false, (readEntry e.1 e.2 d).2) := by
  rw [readEntries]
  rcases readEntry e.1 e.2 d with ⟨loaded, d'⟩
  cases loaded <;> rfl

/-- An entry that is no task leaves the tables alone. -/
theorem readEntry_of_not_load (h : ∀ task manifest, checkEntry e.1 ≠ .load task manifest) :
    (readEntry e.1 e.2 d).2 = d := by
  obtain ⟨heq, -⟩ | ⟨task, manifest, hcheck, -⟩ := readEntry_cases e.1 e.2 d
  · exact heq
  · exact absurd hcheck (h task manifest)

/-- The tables that the groups of a task are stored in. -/
def Db.marked (d : Db) (task : Task) : Db := (considerTask task d).insertSeen task.pk.toInt

theorem readEntry_of_load (hcheck : checkEntry e.1 = .load task manifest) (hconsider : e.2.considerTask_ok = true)
    (hmark : e.2.markTaskSeen_ok = true) : readEntry e.1 e.2 d =
      (if (storeSubtaskGroups task.pk manifest e.2 (d.marked task)).1 then .accepted task else .died,
        (storeSubtaskGroups task.pk manifest e.2 (d.marked task)).2) := by
  rw [readEntry, hcheck]
  simp only [loadTask, hconsider, hmark, Bool.not_true, Bool.false_eq_true, ↓reduceIte]
  rw [← Db.marked]
  rcases storeSubtaskGroups task.pk manifest e.2 (d.marked task) with ⟨stored, d'⟩
  cases stored <;> rfl

/-- A task goes through when its statements do. -/
theorem readEntry_goesOn_iff (hcheck : checkEntry e.1 = .load task manifest) :
    (readEntry e.1 e.2 d).1.goesOn = true ↔ (e.2.considerTask_ok = true ∧ e.2.markTaskSeen_ok = true) ∧
      (storeSubtaskGroups task.pk manifest e.2 (d.marked task)).1 = true := by
  constructor
  · intro hgoes
    have hok : e.2.considerTask_ok = true ∧ e.2.markTaskSeen_ok = true := by
      rw [readEntry, hcheck] at hgoes
      unfold loadTask at hgoes
      cases hconsider : e.2.considerTask_ok with
      | false => simp [hconsider, Loaded.goesOn] at hgoes
      | true =>
          cases hmark : e.2.markTaskSeen_ok with
          | false => simp [hconsider, hmark, Loaded.goesOn] at hgoes
          | true => exact ⟨rfl, rfl⟩
    rw [readEntry_of_load hcheck hok.1 hok.2] at hgoes
    refine ⟨hok, ?_⟩
    by_contra hstored
    simp [hstored, Loaded.goesOn] at hgoes
  · rintro ⟨⟨hconsider, hmark⟩, hstored⟩
    rw [readEntry_of_load hcheck hconsider hmark, if_pos hstored]
    rfl

/-- What is left when it does. -/
theorem store_of_goesOn (hcheck : checkEntry e.1 = .load task manifest)
    (hgoes : (readEntry e.1 e.2 d).1.goesOn = true) :
    storeSubtaskGroups task.pk manifest e.2 (d.marked task) = (true, (readEntry e.1 e.2 d).2) := by
  obtain ⟨⟨hconsider, hmark⟩, hstored⟩ := (readEntry_goesOn_iff hcheck).mp hgoes
  rw [readEntry_of_load hcheck hconsider hmark]
  exact Prod.ext hstored rfl

theorem readEntry_loads (hgoes : (readEntry e.1 e.2 d).1.goesOn = true) :
    LoadedFrom [e] d (readEntry e.1 e.2 d).2 := by
  by_cases hload : ∃ task manifest, checkEntry e.1 = .load task manifest
  · obtain ⟨task, manifest, hcheck⟩ := hload
    obtain ⟨htasks, hseen, hgroups⟩ := mem_storeSubtaskGroups (store_of_goesOn hcheck hgoes)
    constructor
    · intro r
      rw [htasks, Db.marked, tasks_insertSeen, mem_considerTask]
      simp [hcheck]
    · intro r
      rw [hgroups, Db.marked, Db.subtaskGroups_insertSeen, subtaskGroups_considerTask]
      simp [hcheck]
    · intro k
      rw [hseen, Db.marked, mem_insertSeen, seen_considerTask]
      simp [hcheck]
  · have hnone : ∀ task manifest, checkEntry e.1 ≠ .load task manifest :=
      fun task manifest hcheck => hload ⟨task, manifest, hcheck⟩
    rw [readEntry_of_not_load hnone]
    constructor <;> simp [hnone]

/-! ## Entry by entry -/

/-- The entries are of different tasks. -/
def Apart (e e' : TaskDir × EntryCall) : Prop := ∀ task manifest task' manifest',
  checkEntry e.1 = .load task manifest → checkEntry e'.1 = .load task' manifest' → task.pk ≠ task'.pk

theorem Apart.symm {e' : TaskDir × EntryCall} (h : Apart e e') : Apart e' e :=
  fun task manifest task' manifest' hcheck hcheck' => (h task' manifest' task manifest hcheck' hcheck).symm

instance : Std.Symm Apart := ⟨fun _ _ => Apart.symm⟩

theorem hidden_eq (h : ∀ r, r.taskPk = taskPk.toInt → (r ∈ d₁.tasks.rows ↔ r ∈ d.tasks.rows)) :
    d₁.hidden taskPk = d.hidden taskPk := by
  have hfind : d₁.tasks.find taskPk.toInt = d.tasks.find taskPk.toInt := by
    apply Option.ext
    intro r
    constructor
    · intro hr
      have hkey := Table.find_key hr
      rw [← hkey]
      exact Table.mem_rows_iff.mp ((h r hkey).mp (Table.find_mem hr))
    · intro hr
      have hkey := Table.find_key hr
      rw [← hkey]
      exact Table.mem_rows_iff.mp ((h r hkey).mpr (Table.find_mem hr))
  rw [Db.hidden, hfind, Db.hidden]

/-- The rows of other tasks stay. -/
theorem LoadedFrom.others (h : LoadedFrom [e] d d₁)
    (hother : ∀ task manifest, checkEntry e.1 = .load task manifest → task.pk ≠ taskPk) :
    (∀ r, r.taskPk = taskPk.toInt → (r ∈ d₁.tasks.rows ↔ r ∈ d.tasks.rows)) ∧
      ∀ r, r.taskPk = taskPk.toInt → (r ∈ d₁.subtaskGroups.rows ↔ r ∈ d.subtaskGroups.rows) := by
  have hne : ∀ task manifest, checkEntry e.1 = .load task manifest → taskPk.toInt ≠ task.pk.toInt :=
    fun task manifest hcheck heq => hother task manifest hcheck (BitVec.toInt_inj.mp heq.symm)
  constructor
  · intro r hr
    rw [h.tasks]
    constructor
    · rintro (⟨e', he', task, manifest, hcheck, rfl⟩ | hold)
      · rw [List.mem_singleton.mp he'] at hcheck
        exact absurd hr.symm (hne task manifest hcheck)
      · exact hold.1
    · intro hold
      refine Or.inr ⟨hold, fun e' he' task manifest hcheck => ?_⟩
      rw [List.mem_singleton.mp he'] at hcheck
      rw [hr]
      exact hne task manifest hcheck
  · intro r hr
    rw [h.groups]
    constructor
    · rintro (⟨e', he', task, manifest, hcheck, hrow⟩ | hold)
      · rw [List.mem_singleton.mp he'] at hcheck
        exact absurd (hr.symm.trans (taskPk_of_mem_manifestRows hrow)) (hne task manifest hcheck)
      · exact hold.1
    · intro hold
      refine Or.inr ⟨hold, fun e' he' task manifest hcheck _ => ?_⟩
      rw [List.mem_singleton.mp he'] at hcheck
      rw [hr]
      exact hne task manifest hcheck

/-- What the first step adds is kept by the second. -/
theorem keeps_two_steps {first later old firstFree laterFree : Prop} (h : first → laterFree) :
    later ∨ (first ∨ old ∧ firstFree) ∧ laterFree ↔ (first ∨ later) ∨ old ∧ firstFree ∧ laterFree := by
  tauto

theorem LoadedFrom.cons (h : LoadedFrom [e] d d₁) (hrest : LoadedFrom rest d₁ d₂)
    (hapart : ∀ e' ∈ rest, Apart e e') :
    LoadedFrom (e :: rest) d d₂ := by
  have hne : ∀ {task manifest}, checkEntry e.1 = .load task manifest → ∀ e' ∈ rest, ∀ task' manifest',
      checkEntry e'.1 = .load task' manifest' → task.pk.toInt ≠ task'.pk.toInt := by
    intro task manifest hcheck e' he' task' manifest' hcheck' heq
    exact hapart e' he' task manifest task' manifest' hcheck hcheck' (BitVec.toInt_inj.mp heq)
  have hhidden : ∀ e' ∈ rest, ∀ task manifest, checkEntry e'.1 = .load task manifest →
      d₁.hidden task.pk = d.hidden task.pk := by
    intro e' he' task manifest hcheck
    apply hidden_eq
    exact (h.others fun task' manifest' hcheck' => hapart e' he' task' manifest' task manifest hcheck' hcheck).1
  constructor
  · intro r
    have hfirst := h.tasks r
    have hlater := hrest.tasks r
    have hrow : (∃ e' ∈ rest, ∃ task manifest, checkEntry e'.1 = .load task manifest ∧
          r = taskRow task (d₁.hidden task.pk)) ↔
        ∃ e' ∈ rest, ∃ task manifest, checkEntry e'.1 = .load task manifest ∧
          r = taskRow task (d.hidden task.pk) := by
      constructor
      · rintro ⟨e', he', task, manifest, hcheck, rfl⟩
        exact ⟨e', he', task, manifest, hcheck, by rw [hhidden e' he' task manifest hcheck]⟩
      · rintro ⟨e', he', task, manifest, hcheck, rfl⟩
        exact ⟨e', he', task, manifest, hcheck, by rw [hhidden e' he' task manifest hcheck]⟩
    have hkept : (∃ task manifest, checkEntry e.1 = .load task manifest ∧ r = taskRow task (d.hidden task.pk)) →
        ∀ e' ∈ rest, ∀ task' manifest', checkEntry e'.1 = .load task' manifest' → r.taskPk ≠ task'.pk.toInt := by
      rintro ⟨task, manifest, hcheck, rfl⟩ e' he' task' manifest' hcheck'
      exact hne hcheck e' he' task' manifest' hcheck'
    simp only [List.mem_cons, List.not_mem_nil, or_false, exists_eq_left, forall_eq, exists_eq_or_imp,
      forall_eq_or_imp] at hfirst ⊢
    rw [hlater, hrow, hfirst]
    exact keeps_two_steps hkept
  · intro r
    have hfirst := h.groups r
    have hlater := hrest.groups r
    have hkept : (∃ task manifest, checkEntry e.1 = .load task manifest ∧ r ∈ manifestRows task.pk manifest) →
        ∀ e' ∈ rest, ∀ task' manifest', checkEntry e'.1 = .load task' manifest' → e'.2.delete_ok = true →
          r.taskPk ≠ task'.pk.toInt := by
      rintro ⟨task, manifest, hcheck, hrow⟩ e' he' task' manifest' hcheck' _
      rw [taskPk_of_mem_manifestRows hrow]
      exact hne hcheck e' he' task' manifest' hcheck'
    simp only [List.mem_cons, List.not_mem_nil, or_false, exists_eq_left, forall_eq, exists_eq_or_imp,
      forall_eq_or_imp] at hfirst ⊢
    rw [hlater, hfirst]
    exact keeps_two_steps hkept
  · intro k
    have hfirst := h.seen k
    have hlater := hrest.seen k
    simp only [List.mem_cons, List.not_mem_nil, or_false, exists_eq_left, exists_eq_or_imp] at hfirst ⊢
    rw [hlater, hfirst]
    exact or_left_comm.trans or_assoc.symm

/-! ## Whether an entry goes through -/

/-- The groups of a task are the same in both tables. -/
def SameGroups (taskPk : BitVec 32) (d d' : Db) : Prop :=
  ∀ r, r.taskPk = taskPk.toInt → (r ∈ d.subtaskGroups.rows ↔ r ∈ d'.subtaskGroups.rows)

theorem insertGroup_same {row : SubtaskGroup} (hsame : SameGroups taskPk d d') (hpk : row.taskPk = taskPk.toInt)
    (htask : ∃ t, d'.tasks.find taskPk.toInt = some t) (h : d.insertGroup row = some d₁) :
    ∃ d₂, d'.insertGroup row = some d₂ ∧ SameGroups taskPk d₁ d₂ := by
  obtain ⟨t, ht⟩ := htask
  have hins := insertGroup_eq_some h
  cases hins' : d'.subtaskGroups.insert? row with
  | none =>
      obtain ⟨x, hx⟩ := Table.insert?_eq_none_iff.mp hins'
      have hkey := Table.find_key hx
      have hxpk : x.taskPk = row.taskPk := congrArg (fun k => (ofLex k).1) hkey
      have hold := (hsame x (hxpk.trans hpk)).mpr (Table.find_mem hx)
      exact absurd hkey (Table.find_eq_none_iff.mp (Table.find_of_insert? hins) x hold)
  | some table =>
      refine ⟨{ d' with subtaskGroups := table }, ?_, fun r hr => ?_⟩
      · simp only [Db.insertGroup, hpk, ht, hins', Option.map_some]
      · rw [Table.rows_insert? hins, Table.rows_insert? hins', Table.mem_insertRow, Table.mem_insertRow, hsame r hr]

theorem storeGroups_same (hsame : SameGroups taskPk d d') (htask : ∃ t, d'.tasks.find taskPk.toInt = some t)
    (h : (storeGroups taskPk c groups start idx d).1 = true) :
    (storeGroups taskPk c groups start idx d').1 = true := by
  induction groups generalizing start idx d d' with
  | nil => rfl
  | cons group rest ih =>
      rw [storeGroups] at h ⊢
      cases hentry : subtaskEntry group with
      | none => simp [hentry] at h
      | some entry =>
          cases hok : c.insert_ok idx with
          | false => simp [hentry, hok] at h
          | true =>
              cases hins : d.insertGroup ⟨taskPk.toInt, idx, entry.1, start.toInt, entry.2⟩ with
              | none => simp [hentry, hok, hins] at h
              | some d₁ =>
                  obtain ⟨d₂, hins', hsame'⟩ := insertGroup_same hsame rfl htask hins
                  simp only [hentry, hok, hins, hins', ↓reduceIte] at h ⊢
                  exact ih hsame' (by rw [(insertGroup_keeps hins').1]; exact htask) h

theorem storeSubtaskGroups_same (hsame : SameGroups taskPk d d') (htask : ∃ t, d'.tasks.find taskPk.toInt = some t)
    (h : (storeSubtaskGroups taskPk manifest c d).1 = true) :
    (storeSubtaskGroups taskPk manifest c d').1 = true := by
  have hdeleted : SameGroups taskPk (if c.delete_ok then d.deleteGroups taskPk.toInt else d)
      (if c.delete_ok then d'.deleteGroups taskPk.toInt else d') := by
    intro r hr
    split
    · simp [Db.deleteGroups, Table.deleteWhere, hr]
    · exact hsame r hr
  have hkept : ∃ t,
      (if c.delete_ok then d'.deleteGroups taskPk.toInt else d').tasks.find taskPk.toInt = some t := by
    split <;> exact htask
  unfold storeSubtaskGroups at h ⊢
  split at h
  · cases h
  · rename_i hprepare
    rw [if_neg hprepare]
    dsimp only at h ⊢
    cases hgroups : manifest.getObjectItem "subtasks" with
    | none => rfl
    | some item =>
        cases item with
        | array groups =>
            simp only [hgroups] at h ⊢
            split at h
            · cases h
            · rename_i hinsert
              rw [if_neg hinsert]
              exact storeGroups_same hdeleted hkept h
        | _ => rfl

theorem readEntry_same (hsame : ∀ task manifest, checkEntry e.1 = .load task manifest → SameGroups task.pk d d')
    (h : (readEntry e.1 e.2 d).1.goesOn = true) : (readEntry e.1 e.2 d').1.goesOn = true := by
  cases hcheck : checkEntry e.1 with
  | load task manifest =>
      obtain ⟨hok, hstored⟩ := (readEntry_goesOn_iff hcheck).mp h
      have htask : ∃ t, (d'.marked task).tasks.find task.pk.toInt = some t := by
        rw [Db.marked, tasks_insertSeen]
        exact ⟨_, Table.mem_rows_iff.mp ((mem_considerTask (taskRow task (d'.hidden task.pk))).mpr (Or.inl rfl))⟩
      have hgroups : SameGroups task.pk (d.marked task) (d'.marked task) := by
        intro r hr
        simp only [Db.marked, Db.subtaskGroups_insertSeen, subtaskGroups_considerTask]
        exact hsame task manifest hcheck r hr
      exact (readEntry_goesOn_iff hcheck).mpr ⟨hok, storeSubtaskGroups_same hgroups htask hstored⟩
  | _ =>
      rw [readEntry, hcheck] at h ⊢
      exact h

/-! ## The loop -/

theorem readEntries_iff (hapart : entries.Pairwise Apart) : (readEntries entries d).1 = true ↔
    ∀ e ∈ entries, (readEntry e.1 e.2 d).1.goesOn = true := by
  induction entries generalizing d with
  | nil => simp [readEntries]
  | cons e rest ih =>
      obtain ⟨hfirst, hrest⟩ := List.pairwise_cons.mp hapart
      rw [readEntries_cons, List.forall_mem_cons]
      cases hgoes : (readEntry e.1 e.2 d).1.goesOn with
      | false => simp
      | true =>
          have hothers : ∀ e' ∈ rest, ∀ task manifest, checkEntry e'.1 = .load task manifest →
              SameGroups task.pk d (readEntry e.1 e.2 d).2 := by
            intro e' he' task manifest hcheck r hr
            have hkept := (readEntry_loads hgoes).others fun task' manifest' hcheck' =>
              hfirst e' he' task' manifest' task manifest hcheck' hcheck
            exact (hkept.2 r hr).symm
          rw [if_pos rfl, ih hrest]
          simp only [true_and]
          refine forall₂_congr fun e' he' => ⟨readEntry_same ?_, readEntry_same (hothers e' he')⟩
          exact fun task manifest hcheck r hr => (hothers e' he' task manifest hcheck r hr).symm

theorem readEntries_loads (hapart : entries.Pairwise Apart) (h : readEntries entries d = (true, d')) :
    LoadedFrom entries d d' := by
  induction entries generalizing d with
  | nil =>
      cases h
      constructor <;> simp
  | cons e rest ih =>
      obtain ⟨hfirst, hrest⟩ := List.pairwise_cons.mp hapart
      rw [readEntries_cons] at h
      split at h
      · rename_i hgoes
        exact (readEntry_loads hgoes).cons (ih hrest h) hfirst
      · cases h

end Tle.Tasks
