import Tle.Tasks.Lemmas.Groups

/-!
# The stored groups of an accepted task
-/

namespace Tle.Tasks
open Tle.Lib Tle.Grade

variable {dir : TaskDir} {task : Task} {manifest : Json} {c : EntryCall} {d : Db}

/-! ## Accepted entries -/

theorem checkInputs_load {task' : Task} {manifest' : Json}
    (h : checkInputs dir task manifest = .load task' manifest') :
    task = task' ∧ manifest = manifest' ∧ task.countCases.toNat ≠ 2 ^ 32 - 1 ∧
      ∀ k, 1 ≤ k → k ≤ task.countCases.toNat → dir.input k = true := by
  unfold checkInputs at h
  dsimp only at h
  split at h
  · split at h <;> cases h
  · rename_i hcount
    split at h
    · rename_i hall
      cases h
      refine ⟨rfl, rfl, hcount, ?_⟩
      intro k hpos hle
      exact List.all_eq_true.mp hall k (List.mem_range'_1.mpr ⟨hpos, by omega⟩)
    · cases h

theorem checkEntry_load (h : checkEntry dir = .load task manifest) :
    dir.manifest = some (some manifest) ∧ manifestTask dir.name manifest = some task ∧
      checkInputs dir task manifest = .load task manifest := by
  unfold checkEntry at h
  split at h
  · cases h
  split at h
  · cases h
  · cases h
  rename_i manifest' hmanifest
  split at h
  · cases h
  rename_i task' htask
  split at h
  · cases h
  split at h
  · cases h
  split at h
  · cases h
  split at h
  · cases h
  obtain ⟨rfl, rfl, -, -⟩ := checkInputs_load h
  exact ⟨hmanifest, htask, h⟩

/-- What an entry has been through when it is accepted. -/
theorem readEntry_accepted (h : (readEntry dir c d).1 = .accepted task) :
    ∃ manifest, checkEntry dir = .load task manifest ∧
      storeSubtaskGroups task.pk manifest c ((considerTask task d).insertSeen task.pk.toInt) =
        (true, (readEntry dir c d).2) := by
  obtain ⟨-, hnot⟩ | ⟨task', manifest, hcheck, heq | ⟨stored, hstored, heq⟩⟩ := readEntry_cases dir c d
  · exact absurd h (hnot task)
  · rw [heq] at h
    cases h
  · rw [heq] at h ⊢
    obtain ⟨accepted, d'⟩ := stored
    cases accepted with
    | false => cases h
    | true =>
        cases h
        exact ⟨manifest, hcheck, hstored⟩

/-! ## The groups and the cases -/

/-- The sum of the counts that a `subtasks` array declares. -/
def declaredCases (groups : List Json) : Int := ((groups.filterMap subtaskEntry).map (·.2)).sum

theorem declaredCases_eq {groups : List Json} {gs : List (Rat × Int)}
    (h : groups.map subtaskEntry = gs.map some) : declaredCases groups = (gs.map (·.2)).sum := by
  have hid : groups.filterMap subtaskEntry = (groups.map subtaskEntry).filterMap id := by
    rw [List.filterMap_map]
    rfl
  have hfilter : groups.filterMap subtaskEntry = gs := by
    rw [hid, h, List.filterMap_map]
    exact List.filterMap_some
  rw [declaredCases, hfilter]

/-- The groups stored for an accepted task partition its cases exactly when the declared counts add up
to `ncase`. -/
theorem groups_partition_iff (as : List Action) (dir : TaskDir) (c : EntryCall) (task : Task)
    (manifest : Json) (groups : List Json) (hmanifest : dir.manifest = some (some manifest))
    (hgroups : manifest.getObjectItem "subtasks" = some (.array groups)) (hne : groups ≠ [])
    (haccepted : (readEntry dir c (after as)).1 = .accepted task) :
    Range.Partition ((fetchSubtaskGroups (readEntry dir c (after as)).2 task.pk).map Group.range)
        task.countCases.toNat ↔
      declaredCases groups = task.countCases.toNat := by
  obtain ⟨manifest', hcheck, hstore⟩ := readEntry_accepted haccepted
  obtain ⟨hmanifest', -, hinputs⟩ := checkEntry_load hcheck
  obtain rfl : manifest = manifest' := by
    rw [hmanifest] at hmanifest'
    exact Option.some.inj (Option.some.inj hmanifest')
  obtain ⟨-, -, hcount, -⟩ := checkInputs_load hinputs
  have hrooted : ((considerTask task (after as)).insertSeen task.pk.toInt).Rooted :=
    (Db.Rooted.after as).of_subtaskGroups_eq (by simp [considerTask])
  obtain ⟨gs, hentries, hfetch⟩ := fetch_storeSubtaskGroups hrooted hgroups hne hstore
  have hbounds := fun e he => @bounds_of_entries groups gs hentries e he
  have hlt := task.countCases.isLt
  rw [hfetch, declaredCases_eq hentries]
  constructor
  · intro hpart
    rw [← @sizes_groupsFrom 1 gs hbounds, hpart.sum_size]
  · intro hsum
    have hstart : (1 : BitVec 32).toNat = 1 := rfl
    have hend : (1 : BitVec 32).toNat + (gs.map (·.2)).sum = (task.countCases.toNat + 1 : Nat) := by
      rw [hstart, hsum]
      omega
    exact (chain_groupsFrom hbounds hend (by omega)).partition

/-- A manifest with three cases and the given `subtasks`. -/
def threeCases (groups : List Json) : Json := .object [
  ("pk".toList, .number 9), ("ncase".toList, .number 3), ("time".toList, .number 50),
  ("mem".toList, .number 256000), ("cmp_type".toList, .string "tkcmp".toList),
  ("subtasks".toList, .array groups)]

/-- `[100, count]` -/
def hundredFor (count : Rat) : Json := .array [.number 100, .number count]

def threeCasesDir (groups : List Json) : TaskDir where
  name := "sum".toList
  isDirectory := true
  manifest := some (some (threeCases groups))
  juryCpp := false
  jury := false
  script := fun _ => .absent
  input := fun k => 1 ≤ k && k ≤ 3

/-- The task that the directory is read as. -/
def threeCasesTask : Task where
  name := "sum".toList
  pk := 9
  memoryLimit := 256000
  timeLimit := 50
  desc := "desc.pdf".toList
  comparison := "tkcmp".toList
  countCases := 3
  maxScore := 100

theorem groups_partition_one_and_two :
    Range.Partition ((fetchSubtaskGroups (readEntry (threeCasesDir [hundredFor 1, hundredFor 2]) {}
      (after [])).2 9).map Group.range) 3 :=
  (groups_partition_iff [] (threeCasesDir [hundredFor 1, hundredFor 2]) {} threeCasesTask
    (threeCases [hundredFor 1, hundredFor 2]) [hundredFor 1, hundredFor 2] rfl rfl nofun
    (by decide +kernel)).mpr (by decide +kernel)

/-- A task of three cases is accepted with one group of one case: the others belong to no group. -/
theorem groups_leave_cases_out :
    (readEntry (threeCasesDir [hundredFor 1]) {} (after [])).1 = .accepted threeCasesTask ∧
      ¬ Range.Partition ((fetchSubtaskGroups (readEntry (threeCasesDir [hundredFor 1]) {}
        (after [])).2 9).map Group.range) 3 := by
  refine ⟨by decide +kernel, ?_⟩
  intro hpart
  have hnone : ((fetchSubtaskGroups (readEntry (threeCasesDir [hundredFor 1]) {} (after [])).2 9).map
      Group.range).countP (fun r => decide (r.Has 2)) = 0 := by decide +kernel
  have honce := hpart.once 2 (by decide) (by decide)
  rw [hnone] at honce
  cases honce

end Tle.Tasks
