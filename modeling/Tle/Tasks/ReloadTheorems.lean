import Tle.Tasks.Points
import Tle.Tasks.Theorems

/-!
# Reloading a task that has been stored before
-/

namespace Tle.Tasks
open Tle.Lib Tle.Grade

variable {dir : TaskDir} {task : Task} {manifest : Json} {c : EntryCall} {d d' : Db} {taskPk start : BitVec 32}
  {groups : List Json}

/-- The complete list of the groups a manifest declares, `none` when one of them is invalid. -/
def manifestGroups (manifest : Json) : Option (List Group) :=
  match manifest.getObjectItem "subtasks" with
  | some (.array groups) =>
      if groups.all (fun group => (subtaskEntry group).isSome) then
        some (groupsFrom 1 (groups.filterMap subtaskEntry))
      else none
  | _ => some []

/-- The tables when the loop over the groups starts. -/
def groupsCleared (task : Task) (c : EntryCall) (d : Db) : Db :=
  let d := (considerTask task d).insertSeen task.pk.toInt
  if c.delete_ok then d.deleteGroups task.pk.toInt else d

/-- The statements before the delete go through. -/
def EntryCall.reachesDelete (c : EntryCall) : Bool :=
  c.considerTask_ok && c.markTaskSeen_ok && c.prepareDelete_ok

/-- The loop dies at an invalid group, with all the groups before it stored. -/
def RejectedForGroup (task : Task) (manifest : Json) (c : EntryCall) (d : Db) : Prop :=
  c.reachesDelete = true ∧ c.prepareInsert_ok = true ∧ ∃ stored group rest,
    manifest.getObjectItem "subtasks" = some (.array (stored ++ group :: rest)) ∧
    subtaskEntry group = none ∧ (storeGroups task.pk c stored 1 0 (groupsCleared task c d)).1 = true

/-- At every point of the entry each task has its old list, or the one the entry declares for it; and a
manifest rejected for one of its groups leaves the row and the groups of its task as they were. -/
structure AllOrNothing (dir : TaskDir) (c : EntryCall) (d : Db) : Prop where
  lists : ∀ s ∈ entryPoints dir c d, ∀ pk, fetchSubtaskGroups s pk = fetchSubtaskGroups d pk ∨
    ∃ task manifest, checkEntry dir = .load task manifest ∧ task.pk = pk ∧
      manifestGroups manifest = some (fetchSubtaskGroups s pk)
  rejected : ∀ task manifest, checkEntry dir = .load task manifest →
    RejectedForGroup task manifest c d →
      (readEntry dir c d).2.tasks.find task.pk.toInt = d.tasks.find task.pk.toInt ∧
      fetchSubtaskGroups (readEntry dir c d).2 task.pk = fetchSubtaskGroups d task.pk

/-- The manifest declares no groups or the statements end before the delete; otherwise there is no old
list to lose, at most one group is stored, and a rejection finds the row as the manifest has it. -/
def Undivided (task : Task) (manifest : Json) (c : EntryCall) (d : Db) : Prop :=
  ∀ first rest, manifest.getObjectItem "subtasks" = some (.array (first :: rest)) →
    c.reachesDelete = true →
      (fetchSubtaskGroups d task.pk ≠ [] → c.delete_ok = false) ∧
      (fetchSubtaskGroups d task.pk = [] → rest ≠ [] → c.prepareInsert_ok = true →
        c.insert_ok 0 = true → subtaskEntry first = none) ∧
      (c.prepareInsert_ok = true → subtaskEntry first = none →
        (considerTask task d).tasks.find task.pk.toInt = d.tasks.find task.pk.toInt)

theorem groupPoints_cons (group : Json) (rest : List Json) (idx : Nat) :
    groupPoints taskPk c (group :: rest) start idx d = [] ∨
      ∃ score count d₁, subtaskEntry group = some (score, count) ∧ c.insert_ok idx = true ∧
        d.insertGroup ⟨taskPk.toInt, idx, score, start.toInt, count⟩ = some d₁ ∧
        groupPoints taskPk c (group :: rest) start idx d =
          d₁ :: groupPoints taskPk c rest (start + BitVec.ofInt 32 count) (idx + 1) d₁ := by
  rw [groupPoints]
  cases hentry : subtaskEntry group with
  | none => exact Or.inl rfl
  | some e =>
      obtain ⟨score, count⟩ := e
      dsimp only
      split
      · exact Or.inl rfl
      · rename_i d₁ hins
        split at hins
        · rename_i hok
          exact Or.inr ⟨score, count, d₁, rfl, hok, hins, rfl⟩
        · cases hins

theorem storeGroups_of_no_points {group : Json} {rest rest' : List Json} {idx : Nat}
    (h : groupPoints taskPk c (group :: rest) start idx d = []) :
    (storeGroups taskPk c (group :: rest') start idx d).1 = false := by
  obtain hdied | ⟨score, count, d₁, hentry, hins, -⟩ := storeGroups_cons taskPk start c group rest' idx d
  · rw [hdied]
  · rw [groupPoints, hentry] at h
    rw [storeGroups, hentry]
    cases hok : c.insert_ok idx with
    | false => simp only [Bool.false_eq_true, ↓reduceIte]
    | true =>
        simp only [hok, ↓reduceIte, hins] at h
        cases h

/-! ## The points of an entry -/

theorem fetch_groupPoints_other {other : BitVec 32} (hne : taskPk.toInt ≠ other.toInt) {idx : Nat} {s : Db}
    (hs : s ∈ groupPoints taskPk c groups start idx d) :
    fetchSubtaskGroups s other = fetchSubtaskGroups d other := by
  induction groups generalizing start idx d with
  | nil => cases hs
  | cons group rest ih =>
      obtain hnil | ⟨score, count, d₁, -, -, hins, heq⟩ := groupPoints_cons group rest idx
      · rw [hnil] at hs
        cases hs
      · have hfirst := fetch_insertGroup_other hins hne
        rw [heq] at hs
        obtain rfl | hs := List.mem_cons.mp hs
        · exact hfirst
        · exact (ih hs).trans hfirst

theorem fetch_groupsCleared_other {other : BitVec 32} (hne : task.pk.toInt ≠ other.toInt) :
    fetchSubtaskGroups (groupsCleared task c d) other = fetchSubtaskGroups d other := by
  have hbefore : fetchSubtaskGroups ((considerTask task d).insertSeen task.pk.toInt) other =
      fetchSubtaskGroups d other := fetch_of_subtaskGroups_eq (by simp)
  unfold groupsCleared
  dsimp only
  split
  · exact (fetch_deleteGroups_other hne).trans hbefore
  · exact hbefore

theorem fetch_groupsCleared : fetchSubtaskGroups (groupsCleared task c d) task.pk =
    if c.delete_ok then [] else fetchSubtaskGroups d task.pk := by
  unfold groupsCleared
  dsimp only
  split
  · apply fetch_eq_nil_iff.mpr
    intro r hr
    simpa using (List.mem_filter.mp hr).2
  · exact fetch_of_subtaskGroups_eq (by simp)

theorem mem_loadPoints {s : Db} (hs : s ∈ loadPoints task manifest c d) :
    s.subtaskGroups = d.subtaskGroups ∨ (c.reachesDelete = true ∧ (s = groupsCleared task c d ∨
      ∃ groups, manifest.getObjectItem "subtasks" = some (.array groups) ∧ c.prepareInsert_ok = true ∧
        s ∈ groupPoints task.pk c groups 1 0 (groupsCleared task c d))) := by
  unfold loadPoints at hs
  split at hs
  · cases hs
  rename_i hconsider
  obtain rfl | hs := List.mem_cons.mp hs
  · exact Or.inl (subtaskGroups_considerTask task d)
  split at hs
  · cases hs
  rename_i hmark
  obtain rfl | hs := List.mem_cons.mp hs
  · exact Or.inl (by simp)
  unfold storePoints at hs
  split at hs
  · cases hs
  rename_i hprepare
  refine Or.inr ⟨by simp_all [EntryCall.reachesDelete], ?_⟩
  obtain rfl | hs := List.mem_cons.mp hs
  · exact Or.inl rfl
  split at hs
  · rename_i groups hgroups
    split at hs
    · cases hs
    · rename_i hinsert
      exact Or.inr ⟨groups, hgroups, by simpa using hinsert, hs⟩
  · cases hs

theorem fetch_loadPoints_other {other : BitVec 32} (hne : task.pk ≠ other) {s : Db}
    (hs : s ∈ loadPoints task manifest c d) : fetchSubtaskGroups s other = fetchSubtaskGroups d other := by
  have hpk : task.pk.toInt ≠ other.toInt := fun h => hne (BitVec.toInt_inj.mp h)
  obtain hsame | ⟨-, rfl | ⟨groups, -, -, hs⟩⟩ := mem_loadPoints hs
  · exact fetch_of_subtaskGroups_eq hsame
  · exact fetch_groupsCleared_other hpk
  · exact (fetch_groupPoints_other hpk hs).trans (fetch_groupsCleared_other hpk)

theorem groupsCleared_mem (h : c.reachesDelete = true) :
    groupsCleared task c d ∈ loadPoints task manifest c d := by
  simp only [EntryCall.reachesDelete, Bool.and_eq_true] at h
  obtain ⟨⟨hconsider, hmark⟩, hprepare⟩ := h
  simp [loadPoints, storePoints, groupsCleared, hconsider, hmark, hprepare]

theorem groupPoints_mem (h : c.reachesDelete = true) (hinsert : c.prepareInsert_ok = true)
    (hgroups : manifest.getObjectItem "subtasks" = some (.array groups)) {s : Db}
    (hs : s ∈ groupPoints task.pk c groups 1 0 (groupsCleared task c d)) :
    s ∈ loadPoints task manifest c d := by
  simp only [EntryCall.reachesDelete, Bool.and_eq_true] at h
  obtain ⟨⟨hconsider, hmark⟩, hprepare⟩ := h
  simp only [loadPoints, storePoints, hconsider, hmark, hprepare, hgroups, hinsert, Bool.not_true,
    Bool.false_eq_true, ↓reduceIte, List.mem_cons]
  exact Or.inr (Or.inr (Or.inr hs))

theorem entryPoints_load (hcheck : checkEntry dir = .load task manifest) :
    entryPoints dir c d = d :: loadPoints task manifest c d := by
  rw [entryPoints, hcheck]

/-- Where an entry ends that reaches the loop over its groups. -/
theorem readEntry_stores (hcheck : checkEntry dir = .load task manifest) (hreach : c.reachesDelete = true)
    (hinsert : c.prepareInsert_ok = true) (hgroups : manifest.getObjectItem "subtasks" = some (.array groups)) :
    (readEntry dir c d).2 = (storeGroups task.pk c groups 1 0 (groupsCleared task c d)).2 := by
  simp only [EntryCall.reachesDelete, Bool.and_eq_true] at hreach
  obtain ⟨⟨hconsider, hmark⟩, hprepare⟩ := hreach
  simp only [readEntry, hcheck, loadTask, hconsider, hmark, storeSubtaskGroups, hprepare, hgroups,
    hinsert, Bool.not_true, Bool.false_eq_true, ↓reduceIte, groupsCleared]
  split <;> rename_i h <;> rw [h]

theorem length_groupsFrom (gs : List (Rat × Int)) : (groupsFrom start gs).length = gs.length := by
  induction gs generalizing start with
  | nil => rfl
  | cons e gs ih => rw [groupsFrom, List.length_cons, ih, List.length_cons]

theorem length_manifestGroups (hgroups : manifest.getObjectItem "subtasks" = some (.array groups))
    {gs : List Group} (h : manifestGroups manifest = some gs) : gs.length = groups.length := by
  rw [manifestGroups, hgroups] at h
  obtain ⟨hall, heq⟩ := Option.ite_none_right_eq_some.mp h
  cases heq
  rw [length_groupsFrom, List.filterMap_length_eq_length]
  exact fun group hgroup => List.all_eq_true.mp hall group hgroup

theorem find_considerTask (task : Task) (d : Db) :
    ∃ r, (considerTask task d).tasks.find task.pk.toInt = some r := by
  unfold considerTask Db.upsertTask
  split
  · rename_i tasks hins
    exact ⟨_, by rw [Table.find_insert? hins, if_pos rfl]⟩
  · rename_i hins
    obtain ⟨x, hx⟩ := Table.insert?_eq_none_iff.mp hins
    exact ⟨_, by rw [Db.updateTasks, Table.find_updateWhere, hx]; rfl⟩

theorem tasks_groupsCleared : (groupsCleared task c d).tasks = (considerTask task d).tasks := by
  unfold groupsCleared Db.insertSeen
  dsimp only
  split <;> split <;> rfl

/-! ## All or nothing -/

section AllOrNothing

variable {first : Json} {rest : List Json}

theorem AllOrNothing.point (h : AllOrNothing dir c d) (hcheck : checkEntry dir = .load task manifest)
    (hgroups : manifest.getObjectItem "subtasks" = some (.array groups)) {s : Db}
    (hs : s ∈ loadPoints task manifest c d) :
    fetchSubtaskGroups s task.pk = fetchSubtaskGroups d task.pk ∨
      (fetchSubtaskGroups s task.pk).length = groups.length := by
  have hpoint : s ∈ entryPoints dir c d := by
    rw [entryPoints_load hcheck]
    exact List.mem_cons_of_mem _ hs
  obtain hold | ⟨task', manifest', hcheck', -, hnew⟩ := h.lists s hpoint task.pk
  · exact Or.inl hold
  · rw [hcheck] at hcheck'
    cases hcheck'
    exact Or.inr (length_manifestGroups hgroups hnew)

/-- The old list is gone once the delete has run. -/
theorem AllOrNothing.keeps (h : AllOrNothing dir c d) (hcheck : checkEntry dir = .load task manifest)
    (hgroups : manifest.getObjectItem "subtasks" = some (.array (first :: rest)))
    (hreach : c.reachesDelete = true) (hold : fetchSubtaskGroups d task.pk ≠ []) : c.delete_ok = false := by
  by_contra hdelete
  have hempty : fetchSubtaskGroups (groupsCleared task c d) task.pk = [] := by
    rw [fetch_groupsCleared, if_pos (by simpa using hdelete)]
  obtain heq | hlength := h.point hcheck hgroups (groupsCleared_mem hreach)
  · exact hold (heq.symm.trans hempty)
  · simp [hempty] at hlength

/-- After the first insert the list has one group. -/
theorem AllOrNothing.single (h : AllOrNothing dir c d) (hcheck : checkEntry dir = .load task manifest)
    (hgroups : manifest.getObjectItem "subtasks" = some (.array (first :: rest)))
    (hreach : c.reachesDelete = true) (hinsert : c.prepareInsert_ok = true) (hok : c.insert_ok 0 = true)
    (hnil : fetchSubtaskGroups d task.pk = []) (hrest : rest ≠ []) : subtaskEntry first = none := by
  cases hentry : subtaskEntry first with
  | none => rfl
  | some e =>
      obtain ⟨score, count⟩ := e
      have hempty : fetchSubtaskGroups (groupsCleared task c d) task.pk = [] := by
        rw [fetch_groupsCleared, hnil, ite_self]
      obtain ⟨d₁, hins, hfetch⟩ := insertGroup_of_nil
        ⟨task.pk.toInt, (0 : Nat), score, (1 : BitVec 32).toInt, count⟩ rfl
        (by rw [tasks_groupsCleared]; exact find_considerTask task d) hempty
      have hmem : d₁ ∈ groupPoints task.pk c (first :: rest) 1 0 (groupsCleared task c d) := by
        rw [groupPoints, hentry]
        simp only [hok, ↓reduceIte, hins]
        exact List.mem_cons_self
      obtain heq | hlength := h.point hcheck hgroups (groupPoints_mem hreach hinsert hgroups hmem)
      · rw [hfetch, hnil] at heq
        cases heq
      · rw [hfetch] at hlength
        exact absurd (List.length_eq_zero_iff.mp (by simpa using hlength.symm)) hrest

/-- A rejection at the first group leaves behind the row that the entry has written. -/
theorem AllOrNothing.row (h : AllOrNothing dir c d) (hcheck : checkEntry dir = .load task manifest)
    (hgroups : manifest.getObjectItem "subtasks" = some (.array (first :: rest)))
    (hreach : c.reachesDelete = true) (hinsert : c.prepareInsert_ok = true)
    (hfirst : subtaskEntry first = none) :
    (considerTask task d).tasks.find task.pk.toInt = d.tasks.find task.pk.toInt := by
  have hrejected : RejectedForGroup task manifest c d :=
    ⟨hreach, hinsert, [], first, rest, hgroups, hfirst, rfl⟩
  have hend := readEntry_stores (d := d) hcheck hreach hinsert hgroups
  have hdies : (storeGroups task.pk c (first :: rest) 1 0 (groupsCleared task c d)).2 =
      groupsCleared task c d := by
    rw [storeGroups, hfirst]
  rw [hdies] at hend
  rw [← tasks_groupsCleared (c := c), ← hend]
  exact (h.rejected task manifest hcheck hrejected).1

theorem Undivided.of_allOrNothing (h : AllOrNothing dir c d) (hcheck : checkEntry dir = .load task manifest) :
    Undivided task manifest c d := by
  intro first rest hgroups hreach
  refine ⟨fun hold => h.keeps hcheck hgroups hreach hold, fun hnil hrest hinsert hok => ?_,
    fun hinsert hfirst => h.row hcheck hgroups hreach hinsert hfirst⟩
  exact h.single hcheck hgroups hreach hinsert hok hnil hrest

end AllOrNothing

/-- A task that keeps its groups takes no others. -/
theorem groupPoints_of_rooted (hrooted : d.Rooted) (hne : fetchSubtaskGroups d taskPk ≠ []) :
    groupPoints taskPk c groups start 0 d = [] := by
  cases groups with
  | nil => rfl
  | cons group rest =>
      obtain hnil | ⟨score, count, d₁, -, -, hins, -⟩ := groupPoints_cons group rest 0
      · exact hnil
      · exact absurd hins (insertGroup_of_rooted hrooted rfl rfl hne)

theorem groupsCleared_rooted (hrooted : d.Rooted) : (groupsCleared task c d).Rooted :=
  (hrooted.of_subtaskGroups_eq (by simp)).tryDelete

/-- What the loop stores when the entry is undivided: nothing, or one group that is all of them. -/
theorem Undivided.groupPoints {first : Json} {rest : List Json} (h : Undivided task manifest c d)
    (hrooted : d.Rooted) (hgroups : manifest.getObjectItem "subtasks" = some (.array (first :: rest)))
    (hreach : c.reachesDelete = true) (hinsert : c.prepareInsert_ok = true) :
    groupPoints task.pk c (first :: rest) 1 0 (groupsCleared task c d) = [] ∨
      ∃ d₁, groupPoints task.pk c (first :: rest) 1 0 (groupsCleared task c d) = [d₁] ∧
        manifestGroups manifest = some (fetchSubtaskGroups d₁ task.pk) := by
  obtain ⟨hkept, hsingle, -⟩ := h first rest hgroups hreach
  by_cases hnil : fetchSubtaskGroups d task.pk = []
  · obtain hnone | ⟨score, count, d₁, hentry, hok, hins, heq⟩ :=
      @groupPoints_cons c (groupsCleared task c d) task.pk 1 first rest 0
    · exact Or.inl hnone
    · obtain rfl : rest = [] := by
        by_contra hrest
        rw [hsingle hnil hrest hinsert hok] at hentry
        cases hentry
      have hempty : fetchSubtaskGroups (groupsCleared task c d) task.pk = [] := by
        rw [fetch_groupsCleared, hnil, ite_self]
      have hlast : ∀ r ∈ (groupsCleared task c d).subtaskGroups.rows, r.taskPk = task.pk.toInt →
          r.groupIdx < (0 : Nat) := fun r hr hpk => absurd hpk (fetch_eq_nil_iff.mp hempty r hr)
      refine Or.inr ⟨d₁, heq, ?_⟩
      rw [fetch_insertGroup hins rfl hlast, hempty, manifestGroups, hgroups]
      simp [hentry, groupsFrom]
  · have hdelete := hkept hnil
    refine Or.inl (groupPoints_of_rooted (groupsCleared_rooted hrooted) ?_)
    rwa [fetch_groupsCleared, hdelete, if_neg Bool.false_ne_true]

theorem Undivided.lists (h : Undivided task manifest c d) (hrooted : d.Rooted) {s : Db}
    (hs : s ∈ loadPoints task manifest c d) : fetchSubtaskGroups s task.pk = fetchSubtaskGroups d task.pk ∨
      manifestGroups manifest = some (fetchSubtaskGroups s task.pk) := by
  obtain hsame | ⟨hreach, rfl | ⟨groups, hgroups, hinsert, hs⟩⟩ := mem_loadPoints hs
  · exact Or.inl (fetch_of_subtaskGroups_eq hsame)
  · rw [fetch_groupsCleared]
    split
    · rename_i hdelete
      unfold manifestGroups
      split
      · rename_i groups hgroups
        cases groups with
        | nil => exact Or.inr rfl
        | cons first rest =>
            left
            by_contra hne
            have hkept := (h first rest hgroups hreach).1 (Ne.symm hne)
            rw [hdelete] at hkept
            cases hkept
      · exact Or.inr rfl
    · exact Or.inl rfl
  · cases groups with
    | nil => cases hs
    | cons first rest =>
        obtain hnone | ⟨d₁, hone, hcomplete⟩ := h.groupPoints hrooted hgroups hreach hinsert
        · rw [hnone] at hs
          cases hs
        · rw [hone] at hs
          obtain rfl := List.mem_singleton.mp hs
          exact Or.inr hcomplete

theorem Undivided.rejected (h : Undivided task manifest c d) (hrooted : d.Rooted)
    (hcheck : checkEntry dir = .load task manifest) (hrejected : RejectedForGroup task manifest c d) :
    (readEntry dir c d).2.tasks.find task.pk.toInt = d.tasks.find task.pk.toInt ∧
      fetchSubtaskGroups (readEntry dir c d).2 task.pk = fetchSubtaskGroups d task.pk := by
  obtain ⟨hreach, hinsert, stored, group, rest, hgroups, hinvalid, hstored⟩ := hrejected
  rw [readEntry_stores hcheck hreach hinsert hgroups]
  cases stored with
  | nil =>
      obtain ⟨hkept, -, hrow⟩ := h group rest hgroups hreach
      have hdies : (storeGroups task.pk c (group :: rest) 1 0 (groupsCleared task c d)).2 =
          groupsCleared task c d := by
        rw [storeGroups, hinvalid]
      rw [List.nil_append, hdies, tasks_groupsCleared, fetch_groupsCleared]
      refine ⟨hrow hinsert hinvalid, ?_⟩
      by_cases hnil : fetchSubtaskGroups d task.pk = []
      · rw [hnil, ite_self]
      · rw [hkept hnil, if_neg Bool.false_ne_true]
  | cons first stored =>
      -- the groups before the invalid one have been stored, without it
      obtain hnone | ⟨d₁, -, hcomplete⟩ := h.groupPoints hrooted hgroups hreach hinsert
      · rw [storeGroups_of_no_points hnone] at hstored
        cases hstored
      · rw [manifestGroups, hgroups] at hcomplete
        have hall := (Option.ite_none_right_eq_some.mp hcomplete).1
        have hvalid := List.all_eq_true.mp hall group (by simp)
        rw [hinvalid] at hvalid
        cases hvalid

/-- A reload is all or nothing exactly when it has no old list to delete and at most one group to
store. -/
theorem allOrNothing_iff_undivided (as : List Action) (dir : TaskDir) (c : EntryCall) :
    AllOrNothing dir c (after as) ↔
      ∀ task manifest, checkEntry dir = .load task manifest → Undivided task manifest c (after as) := by
  have hrooted := Db.Rooted.after as
  refine ⟨fun h _ _ => Undivided.of_allOrNothing h, fun h => ⟨fun s hs pk => ?_, ?_⟩⟩
  · cases hcheck : checkEntry dir with
    | load task manifest =>
        rw [entryPoints_load hcheck] at hs
        obtain rfl | hs := List.mem_cons.mp hs
        · exact Or.inl rfl
        · by_cases hpk : task.pk = pk
          · subst hpk
            obtain hold | hnew := (h task manifest hcheck).lists hrooted hs
            · exact Or.inl hold
            · exact Or.inr ⟨task, manifest, rfl, rfl, hnew⟩
          · exact Or.inl (fetch_loadPoints_other hpk hs)
    | _ =>
        rw [entryPoints, hcheck] at hs
        rw [List.mem_singleton.mp hs]
        exact Or.inl rfl
  · intro task manifest hcheck hrejected
    exact (h task manifest hcheck).rejected hrooted hcheck hrejected

def oneAndTwo : TaskDir := threeCasesDir [hundredFor 1, hundredFor 2]

theorem checkEntry_oneAndTwo :
    checkEntry oneAndTwo = .load threeCasesTask (threeCases [hundredFor 1, hundredFor 2]) := by
  have haccepted : (readEntry oneAndTwo {} (after [])).1 = .accepted threeCasesTask := by decide +kernel
  obtain ⟨manifest, hcheck, -⟩ := readEntry_accepted haccepted
  obtain rfl : threeCases [hundredFor 1, hundredFor 2] = manifest :=
    Option.some.inj (Option.some.inj (checkEntry_load hcheck).1)
  exact hcheck

/-- Between the delete and the first insert a task that is loaded a second time has no groups. -/
theorem reload_loses_groups : ¬ ∀ as dir c, AllOrNothing dir c (after as) := by
  intro h
  have hundivided := Undivided.of_allOrNothing (h [.entry oneAndTwo {}] oneAndTwo {}) checkEntry_oneAndTwo
  obtain ⟨hkept, -⟩ := hundivided (hundredFor 1) [hundredFor 2] rfl rfl
  exact absurd (hkept (by decide +kernel)) (by decide)

end Tle.Tasks
