import Tle.Tasks.System

/-!
# What `store_subtask_groups` stores
-/

namespace Tle.Tasks
open Tle.Lib Tle.Grade

variable {d d' : Db} {taskPk start : BitVec 32} {c : EntryCall} {groups : List Json} {idx : Nat}

/-- The groups that the entries `gs` become when the first one starts at `start`. -/
def groupsFrom : BitVec 32 → List (Rat × Int) → List Group
  | _, [] => []
  | start, (score, count) :: gs =>
      ⟨start, BitVec.ofInt 32 count, score⟩ :: groupsFrom (start + BitVec.ofInt 32 count) gs

/-! ## The entries -/

theorem subtaskEntry_bounds {group : Json} {e : Rat × Int} (h : subtaskEntry group = some e) :
    0 < e.2 ∧ e.2 < 2 ^ 31 := by
  simp only [subtaskEntry, bind, Option.bind_eq_some_iff] at h
  obtain ⟨_, -, scoreItem, -, countItem, -, _, -, _, hguard, hreturn⟩ := h
  cases hreturn
  have hle := countItem.valueint_le
  have hpos : 0 < countItem.valueint := by
    by_contra hneg
    simp [guard, hneg] at hguard
  exact ⟨hpos, by omega⟩

theorem bounds_of_entries {gs : List (Rat × Int)} (h : groups.map subtaskEntry = gs.map some)
    {e : Rat × Int} (he : e ∈ gs) : 0 < e.2 ∧ e.2 < 2 ^ 31 := by
  have hmem : some e ∈ groups.map subtaskEntry := by
    rw [h]
    exact List.mem_map_of_mem he
  obtain ⟨group, -, hgroup⟩ := List.mem_map.mp hmem
  exact subtaskEntry_bounds hgroup

/-! ## Their ranges -/

theorem range_mk {score : Rat} {count : Int} (hpos : 0 < count) (hlt : count < 2 ^ 31) :
    Group.range ⟨start, BitVec.ofInt 32 count, score⟩ = ⟨start.toNat, count.toNat⟩ := by
  have hcount : (BitVec.ofInt 32 count).toNat = count.toNat := by
    rw [BitVec.toNat_ofInt, Int.emod_eq_of_lt (Int.le_of_lt hpos) (by omega)]
  rw [Group.range, hcount]

theorem sizes_groupsFrom {gs : List (Rat × Int)} (h : ∀ e ∈ gs, 0 < e.2 ∧ e.2 < 2 ^ 31) :
    (((groupsFrom start gs).map Group.range).map Range.size).sum = (gs.map (·.2)).sum := by
  induction gs generalizing start with
  | nil => rfl
  | cons e gs ih =>
      obtain ⟨score, count⟩ := e
      have hbounds : 0 < count ∧ count < 2 ^ 31 := h (score, count) (List.mem_cons_self ..)
      obtain ⟨hpos, hlt⟩ := hbounds
      have hrest := @ih (start + BitVec.ofInt 32 count) (fun e he => h e (List.mem_cons_of_mem _ he))
      simp only [groupsFrom, List.map_cons, List.sum_cons, range_mk hpos hlt, Nat.cast_add, hrest]
      omega

/-- While the running start does not wrap, each group starts where the one before it ends. -/
theorem chain_groupsFrom {gs : List (Rat × Int)} {n : Nat} (h : ∀ e ∈ gs, 0 < e.2 ∧ e.2 < 2 ^ 31)
    (hsum : start.toNat + (gs.map (·.2)).sum = n) (hn : n < 2 ^ 32) :
    Range.Chain start.toNat ((groupsFrom start gs).map Group.range) n := by
  induction gs generalizing start with
  | nil =>
      have hstart : start.toNat = n := by simpa using hsum
      exact hstart
  | cons e gs ih =>
      obtain ⟨score, count⟩ := e
      have hbounds : 0 < count ∧ count < 2 ^ 31 := h (score, count) (List.mem_cons_self ..)
      obtain ⟨hpos, hlt⟩ := hbounds
      have htail : ∀ e ∈ gs, 0 < e.2 ∧ e.2 < 2 ^ 31 := fun e he => h e (List.mem_cons_of_mem _ he)
      have hnonneg : 0 ≤ (gs.map (·.2)).sum := by
        rw [← @sizes_groupsFrom start gs htail]
        exact Int.natCast_nonneg _
      simp only [List.map_cons, List.sum_cons] at hsum
      have hnext : (start + BitVec.ofInt 32 count).toNat = start.toNat + count.toNat := by
        rw [BitVec.toNat_add, BitVec.toNat_ofInt, Int.emod_eq_of_lt (Int.le_of_lt hpos) (by omega)]
        exact Nat.mod_eq_of_lt (by omega)
      have hrest : (start + BitVec.ofInt 32 count).toNat + (gs.map (·.2)).sum = n := by
        rw [hnext, ← hsum, Nat.cast_add, Int.toNat_of_nonneg (Int.le_of_lt hpos), Int.add_assoc]
      simp only [groupsFrom, List.map_cons, range_mk hpos hlt]
      refine ⟨rfl, Int.lt_toNat.mpr hpos, ?_⟩
      rw [← hnext]
      exact ih htail hrest

/-! ## The rows -/

theorem insertGroup_eq_some {row : SubtaskGroup} (h : d.insertGroup row = some d') :
    d.subtaskGroups.insert? row = some d'.subtaskGroups := by
  unfold Db.insertGroup at h
  split at h
  · cases h
  · obtain ⟨table, htable, rfl⟩ := Option.map_eq_some_iff.mp h
    exact htable

theorem fetch_insertGroup {row : SubtaskGroup} (h : d.insertGroup row = some d')
    (hpk : row.taskPk = taskPk.toInt)
    (hlast : ∀ r ∈ d.subtaskGroups.rows, r.taskPk = taskPk.toInt → r.groupIdx < row.groupIdx) :
    fetchSubtaskGroups d' taskPk = fetchSubtaskGroups d taskPk ++
      [⟨BitVec.ofInt 32 row.caseStart, BitVec.ofInt 32 row.caseCount, row.score⟩] := by
  have hrows := Table.rows_insert? (insertGroup_eq_some h)
  have hfilter := Table.filter_insertRow (p := fun r => decide (r.taskPk = taskPk.toInt))
    d.subtaskGroups.sorted (r := row) (by simp [hpk]) (by
      intro r hr hrpk
      have hrpk : r.taskPk = taskPk.toInt := of_decide_eq_true hrpk
      exact Prod.Lex.toLex_lt_toLex.mpr (Or.inr ⟨hrpk.trans hpk.symm, hlast r hr hrpk⟩))
  unfold fetchSubtaskGroups
  rw [hrows, hfilter, List.map_append, List.map_singleton]

/-- The loop dies at its first entry, or inserts a row for it and goes on. -/
theorem storeGroups_cons (taskPk start : BitVec 32) (c : EntryCall) (group : Json) (rest : List Json)
    (idx : Nat) (d : Db) :
    storeGroups taskPk c (group :: rest) start idx d = (false, d) ∨
      ∃ score count d₁, subtaskEntry group = some (score, count) ∧
        d.insertGroup ⟨taskPk.toInt, idx, score, start.toInt, count⟩ = some d₁ ∧
        storeGroups taskPk c (group :: rest) start idx d =
          storeGroups taskPk c rest (start + BitVec.ofInt 32 count) (idx + 1) d₁ := by
  rw [storeGroups]
  cases hentry : subtaskEntry group with
  | none => exact Or.inl rfl
  | some e =>
      obtain ⟨score, count⟩ := e
      dsimp only
      split
      · exact Or.inl rfl
      · rename_i d₁ hins
        split at hins
        · exact Or.inr ⟨score, count, d₁, rfl, hins, rfl⟩
        · cases hins

/-- The loop appends its groups to those the task has. -/
theorem fetch_storeGroups (h : storeGroups taskPk c groups start idx d = (true, d'))
    (hlast : ∀ r ∈ d.subtaskGroups.rows, r.taskPk = taskPk.toInt → r.groupIdx < idx) :
    ∃ gs, groups.map subtaskEntry = gs.map some ∧
      fetchSubtaskGroups d' taskPk = fetchSubtaskGroups d taskPk ++ groupsFrom start gs := by
  induction groups generalizing start idx d with
  | nil =>
      cases h
      exact ⟨[], rfl, (List.append_nil _).symm⟩
  | cons group rest ih =>
      obtain hdied | ⟨score, count, d₁, hentry, hins, heq⟩ :=
        storeGroups_cons taskPk start c group rest idx d
      · rw [hdied] at h
        cases h
      · rw [heq] at h
        have hlast₁ : ∀ r ∈ d₁.subtaskGroups.rows, r.taskPk = taskPk.toInt →
            r.groupIdx < (idx + 1 : Nat) := by
          intro r hr hpk
          rw [Table.rows_insert? (insertGroup_eq_some hins)] at hr
          rcases Table.mem_insertRow.mp hr with rfl | hold
          · exact Int.ofNat_lt.mpr (Nat.lt_succ_self idx)
          · exact Int.lt_trans (hlast r hold hpk) (Int.ofNat_lt.mpr (Nat.lt_succ_self idx))
        obtain ⟨gs, hgs, hfetch⟩ := ih h hlast₁
        refine ⟨(score, count) :: gs, ?_, ?_⟩
        · rw [List.map_cons, hentry, hgs, List.map_cons]
        · rw [hfetch, fetch_insertGroup hins rfl hlast, groupsFrom, List.append_assoc,
            BitVec.ofInt_toInt]
          rfl

/-! ## One entry -/

/-- What an entry does to the tables: nothing, or all that comes before the first failing statement. -/
theorem readEntry_cases (dir : TaskDir) (c : EntryCall) (d : Db) :
    ((readEntry dir c d).2 = d ∧ ∀ task, (readEntry dir c d).1 ≠ .accepted task) ∨
      ∃ task manifest, checkEntry dir = .load task manifest ∧
        (readEntry dir c d = (.died, considerTask task d) ∨
          ∃ stored, storeSubtaskGroups task.pk manifest c
              ((considerTask task d).insertSeen task.pk.toInt) = stored ∧
            readEntry dir c d = (if stored.1 then .accepted task else .died, stored.2)) := by
  unfold readEntry
  split
  · exact Or.inl ⟨rfl, nofun⟩
  · exact Or.inl ⟨rfl, nofun⟩
  · exact Or.inl ⟨rfl, nofun⟩
  rename_i task manifest hcheck
  unfold loadTask
  split
  · exact Or.inl ⟨rfl, nofun⟩
  refine Or.inr ⟨task, manifest, hcheck, ?_⟩
  dsimp only
  split
  · exact Or.inl rfl
  refine Or.inr ⟨_, rfl, ?_⟩
  split
  · rename_i hstored
    rw [hstored, if_pos rfl]
  · rename_i hstored
    rw [hstored, if_neg Bool.false_ne_true]

@[simp] theorem subtaskGroups_considerTask (task : Task) (d : Db) :
    (considerTask task d).subtaskGroups = d.subtaskGroups := by
  simp [considerTask]

/-! ## The first group -/

/-- A task with groups has a first one. -/
def Db.Rooted (d : Db) : Prop :=
  ∀ r ∈ d.subtaskGroups.rows, ∃ r₀ ∈ d.subtaskGroups.rows, r₀.taskPk = r.taskPk ∧ r₀.groupIdx = 0

namespace Db.Rooted

theorem deleteGroups (h : d.Rooted) (pk : Int) : (d.deleteGroups pk).Rooted := by
  intro r hr
  obtain ⟨hmem, hne⟩ := List.mem_filter.mp hr
  obtain ⟨r₀, hr₀, hpk, hidx⟩ := h r hmem
  refine ⟨r₀, List.mem_filter.mpr ⟨hr₀, ?_⟩, hpk, hidx⟩
  simpa only [hpk] using hne

theorem insertGroup {row : SubtaskGroup} (h : d.Rooted) (hins : d.insertGroup row = some d')
    (hfirst : row.groupIdx = 0 ∨
      ∃ r₀ ∈ d.subtaskGroups.rows, r₀.taskPk = row.taskPk ∧ r₀.groupIdx = 0) : d'.Rooted := by
  have hrows := Table.rows_insert? (insertGroup_eq_some hins)
  have hmem : ∀ r, r ∈ d'.subtaskGroups.rows ↔ r = row ∨ r ∈ d.subtaskGroups.rows := by
    intro r
    rw [hrows]
    exact Table.mem_insertRow
  intro r hr
  rcases (hmem r).mp hr with rfl | hold
  · rcases hfirst with hidx | ⟨r₀, hr₀, hpk, hidx⟩
    · exact ⟨r, hr, rfl, hidx⟩
    · exact ⟨r₀, (hmem r₀).mpr (Or.inr hr₀), hpk, hidx⟩
  · obtain ⟨r₀, hr₀, hpk, hidx⟩ := h r hold
    exact ⟨r₀, (hmem r₀).mpr (Or.inr hr₀), hpk, hidx⟩

theorem storeGroups (h : d.Rooted)
    (hfirst : idx = 0 ∨ ∃ r₀ ∈ d.subtaskGroups.rows, r₀.taskPk = taskPk.toInt ∧ r₀.groupIdx = 0) :
    (storeGroups taskPk c groups start idx d).2.Rooted := by
  induction groups generalizing start idx d with
  | nil => exact h
  | cons group rest ih =>
      obtain hdied | ⟨score, count, d₁, -, hins, heq⟩ :=
        storeGroups_cons taskPk start c group rest idx d
      · rw [hdied]
        exact h
      · rw [heq]
        have hkept : d₁.Rooted := by
          refine insertGroup h hins ?_
          rcases hfirst with rfl | hold
          · exact Or.inl rfl
          · exact Or.inr hold
        refine ih hkept (Or.inr ?_)
        have hrows := Table.rows_insert? (insertGroup_eq_some hins)
        rw [hrows]
        rcases hfirst with rfl | ⟨r₀, hr₀, hpk, hidx⟩
        · exact ⟨_, Table.mem_insertRow.mpr (Or.inl rfl), rfl, rfl⟩
        · exact ⟨r₀, Table.mem_insertRow.mpr (Or.inr hr₀), hpk, hidx⟩

theorem of_subtaskGroups_eq (h : d.Rooted) (heq : d'.subtaskGroups = d.subtaskGroups) : d'.Rooted := by
  unfold Db.Rooted
  rw [heq]
  exact h

/-- Also when the delete fails. -/
theorem tryDelete (h : d.Rooted) :
    (if c.delete_ok then d.deleteGroups taskPk.toInt else d).Rooted := by
  split
  · exact deleteGroups h _
  · exact h

theorem storeSubtaskGroups {manifest : Json} (h : d.Rooted) :
    (storeSubtaskGroups taskPk manifest c d).2.Rooted := by
  unfold Tasks.storeSubtaskGroups
  split
  · exact h
  · dsimp only
    split
    · split
      · exact tryDelete h
      · exact storeGroups (tryDelete h) (Or.inl rfl)
    · exact tryDelete h

theorem readEntry (h : d.Rooted) (dir : TaskDir) : (readEntry dir c d).2.Rooted := by
  obtain ⟨heq, -⟩ | ⟨task, manifest, -, heq | ⟨stored, hstored, heq⟩⟩ := readEntry_cases dir c d
  · rw [heq]
    exact h
  · rw [heq]
    exact h.of_subtaskGroups_eq (by simp)
  · rw [heq, ← hstored]
    exact storeSubtaskGroups (h.of_subtaskGroups_eq (by simp))

theorem step (h : d.Rooted) (a : Action) : (d.step a).Rooted := by
  cases a with
  | beginTasks => exact h.of_subtaskGroups_eq rfl
  | entry dir c => exact readEntry h dir
  | endTasks => exact h.of_subtaskGroups_eq rfl
  | toggle pk => exact h.of_subtaskGroups_eq rfl

theorem after (as : List Action) : (after as).Rooted := by
  induction as using List.reverseRecOn with
  | nil => intro r hr; cases hr
  | append_singleton as a ih =>
      rw [Tasks.after, run_snoc]
      exact step ih a

end Db.Rooted

/-! ## The first insert -/

theorem fetch_eq_nil_iff : fetchSubtaskGroups d taskPk = [] ↔
    ∀ r ∈ d.subtaskGroups.rows, r.taskPk ≠ taskPk.toInt := by
  simp [fetchSubtaskGroups]

/-- The first group goes in when the task has none. -/
theorem insertGroup_of_nil (row : SubtaskGroup) (hpk : row.taskPk = taskPk.toInt)
    (htask : ∃ r, d.tasks.find taskPk.toInt = some r) (hnil : fetchSubtaskGroups d taskPk = []) :
    ∃ d₁, d.insertGroup row = some d₁ ∧ fetchSubtaskGroups d₁ taskPk =
      [⟨BitVec.ofInt 32 row.caseStart, BitVec.ofInt 32 row.caseCount, row.score⟩] := by
  obtain ⟨r, hr⟩ := htask
  have hnone := fetch_eq_nil_iff.mp hnil
  obtain ⟨d₁, hins⟩ : ∃ d₁, d.insertGroup row = some d₁ := by
    cases hinsert : d.subtaskGroups.insert? row with
    | none =>
        obtain ⟨x, hx⟩ := Table.insert?_eq_none_iff.mp hinsert
        have hkey := Table.find_key hx
        have hpk' : x.taskPk = row.taskPk := congrArg (fun k => (ofLex k).1) hkey
        exact absurd (hpk'.trans hpk) (hnone x (Table.find_mem hx))
    | some table => exact ⟨_, by simp only [Db.insertGroup, hpk, hr, hinsert]; rfl⟩
  refine ⟨d₁, hins, ?_⟩
  rw [fetch_insertGroup hins hpk (fun r hr hrpk => absurd hrpk (hnone r hr)), hnil, List.nil_append]

/-- It is refused when the task has any. -/
theorem insertGroup_of_rooted {row : SubtaskGroup} (hrooted : d.Rooted) (hpk : row.taskPk = taskPk.toInt)
    (hidx : row.groupIdx = 0) (hne : fetchSubtaskGroups d taskPk ≠ []) : d.insertGroup row ≠ some d' := by
  intro hins
  refine hne (fetch_eq_nil_iff.mpr fun r hr hrpk => ?_)
  obtain ⟨r₀, hr₀, hpk₀, hidx₀⟩ := hrooted r hr
  have hfree := Table.find_of_insert? (insertGroup_eq_some hins)
  refine Table.find_eq_none_iff.mp hfree r₀ hr₀ ?_
  rw [SubtaskGroup.key, SubtaskGroup.key, hpk₀, hrpk, hidx₀, hpk, hidx]

/-- The loop dies at its first group when the task has a group already. -/
theorem fetch_nil_of_storeGroups (hrooted : d.Rooted) (hne : groups ≠ [])
    (h : storeGroups taskPk c groups start 0 d = (true, d')) : fetchSubtaskGroups d taskPk = [] := by
  cases groups with
  | nil => exact absurd rfl hne
  | cons group rest =>
      obtain hdied | ⟨score, count, d₁, -, hins, -⟩ := storeGroups_cons taskPk start c group rest 0 d
      · rw [hdied] at h
        cases h
      · by_contra hsome
        exact insertGroup_of_rooted hrooted rfl rfl hsome hins

/-! ## A whole entry -/

/-- After an entry with groups has been accepted, its task has just these groups. -/
theorem fetch_storeSubtaskGroups {manifest : Json} (hrooted : d.Rooted)
    (hgroups : manifest.getObjectItem "subtasks" = some (.array groups)) (hne : groups ≠ [])
    (h : storeSubtaskGroups taskPk manifest c d = (true, d')) :
    ∃ gs, groups.map subtaskEntry = gs.map some ∧ fetchSubtaskGroups d' taskPk = groupsFrom 1 gs := by
  unfold storeSubtaskGroups at h
  split at h
  · cases h
  · simp only [hgroups] at h
    split at h
    · cases h
    · have hnil := fetch_nil_of_storeGroups hrooted.tryDelete hne h
      have hnone := fetch_eq_nil_iff.mp hnil
      obtain ⟨gs, hgs, hfetch⟩ := fetch_storeGroups h (fun r hr hpk => absurd hpk (hnone r hr))
      exact ⟨gs, hgs, by rw [hfetch, hnil, List.nil_append]⟩

/-! ## Other tasks -/

variable {other : BitVec 32}

theorem fetch_insertGroup_other {row : SubtaskGroup} (h : d.insertGroup row = some d')
    (hne : row.taskPk ≠ other.toInt) : fetchSubtaskGroups d' other = fetchSubtaskGroups d other := by
  have hrows := Table.rows_insert? (insertGroup_eq_some h)
  have hfilter := @Table.filter_insertRow_neg _ _ _ SubtaskGroup.key
    (fun r => decide (r.taskPk = other.toInt)) row d.subtaskGroups.rows (decide_eq_false hne)
  unfold fetchSubtaskGroups
  rw [hrows, hfilter]

theorem fetch_deleteGroups_other (hne : taskPk.toInt ≠ other.toInt) :
    fetchSubtaskGroups (d.deleteGroups taskPk.toInt) other = fetchSubtaskGroups d other := by
  have hrows : (d.deleteGroups taskPk.toInt).subtaskGroups.rows =
      d.subtaskGroups.rows.filter (fun r => !decide (r.taskPk = taskPk.toInt)) := rfl
  unfold fetchSubtaskGroups
  rw [hrows, List.filter_filter]
  congr 1
  apply List.filter_congr
  intro r _
  by_cases hr : r.taskPk = other.toInt
  · have hkept : r.taskPk ≠ taskPk.toInt := fun heq => hne (heq.symm.trans hr)
    simp [hr, hne.symm]
  · simp [hr]

theorem fetch_of_subtaskGroups_eq (h : d'.subtaskGroups = d.subtaskGroups) :
    fetchSubtaskGroups d' other = fetchSubtaskGroups d other := by
  unfold fetchSubtaskGroups
  rw [h]

end Tle.Tasks
