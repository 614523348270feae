import Tle.Schema.Lemmas.Columns

/-!
# The stored version while several processes replace it

A process that deletes the rows of `schema_version` inserts the sixth version before it ends.
-/

namespace Tle.Schema
open Tle.Lib Tle.Lib.Prog

variable {d : Database} {s : Statement} {k v : Int} {p : DbProg Unit} {f : Int → DbProg Unit}

def AtMostSix (d : Database) : Prop := ∀ versions, d.versions = some versions → ∀ v ∈ versions, v ≤ 6

def StoresSix (d : Database) : Prop := ∃ versions, d.versions = some versions ∧ 6 ∈ versions

theorem mem_of_maxVersion {versions : List Int} (h : maxVersion versions ≠ 0) :
    maxVersion versions ∈ versions := by
  unfold maxVersion at h ⊢
  rcases hmax : versions.max? with _ | m
  · simp [hmax] at h
  · exact List.max?_mem hmax

theorem maxVersion_eq_six {versions : List Int} (hle : ∀ v ∈ versions, v ≤ 6) (h : 6 ∈ versions) :
    maxVersion versions = 6 := by
  have hmax : versions.max? = some 6 := List.max?_eq_some_iff.mpr ⟨h, hle⟩
  rw [maxVersion, hmax, Option.getD_some]

theorem StoresSix.maxVersion (h : StoresSix d) (hle : AtMostSix d) :
    ∃ versions, d.versions = some versions ∧ maxVersion versions = 6 := by
  obtain ⟨versions, hversions, hsix⟩ := h
  exact ⟨versions, hversions, maxVersion_eq_six (hle versions hversions) hsix⟩

theorem Sound.atMostSix (h : Sound d) : AtMostSix d :=
  fun versions hversions v hv => (h.stored versions hversions v hv).1

/-- The statement leaves the rows of `schema_version` where they are. -/
def Quiet : Statement → Prop
  | .deleteVersions | .insertVersion _ => False
  | _ => True

/-- The file after a statement, whether it succeeds or not. -/
def Statement.after (s : Statement) (d : Database) : Database := ((s.exec d).map Prod.fst).getD d

/-- A quiet statement leaves the rows alone, or it is the first to insert one. -/
theorem versions_of_quiet (h : Quiet s) (d : Database) : (s.after d).versions = d.versions ∨
    (d.versions.getD [] = [] ∧ ((s.after d).versions = some [] ∨ (s.after d).versions = some [0])) := by
  cases s with
  | deleteVersions => exact h.elim
  | insertVersion version => exact h.elim
  | pragma setting => exact Or.inl rfl
  | createVersionTable =>
      rcases hversions : d.versions with _ | versions
      · exact Or.inr ⟨rfl, Or.inl (by simp [Statement.after, Statement.exec, hversions])⟩
      · exact Or.inl (by simp [Statement.after, Statement.exec, hversions])
  | insertFirstVersion =>
      rcases hversions : d.versions with _ | _ | ⟨v, versions⟩
      · exact Or.inl (by simp [Statement.after, Statement.exec, hversions])
      · exact Or.inr ⟨rfl, Or.inr (by simp [Statement.after, Statement.exec, hversions])⟩
      · exact Or.inl (by simp [Statement.after, Statement.exec, hversions])
  | selectVersion =>
      rcases hversions : d.versions with _ | versions <;>
        exact Or.inl (by simp [Statement.after, Statement.exec, hversions])
  | createTable t =>
      left
      simp only [Statement.after, Statement.exec, Option.map_some, Option.getD_some]
      split <;> rfl
  | createQueueIndex | addColumn t col | dropColumn t c =>
      left
      rw [Statement.after]
      rcases hexec : Statement.exec _ d with _ | r
      · rfl
      · obtain ⟨r, -, hexec⟩ := Option.bind_eq_some_iff.mp hexec
        split_ifs at hexec
        cases hexec
        rfl

theorem quiet_keeps (h : Quiet s) (hd : AtMostSix d) :
    AtMostSix (s.after d) ∧ (StoresSix d → StoresSix (s.after d)) := by
  obtain hsame | ⟨hnone, hnew⟩ := versions_of_quiet h d
  · simp only [AtMostSix, StoresSix, hsame]
    exact ⟨hd, id⟩
  · constructor
    · intro versions hversions v hv
      obtain heq | heq := hnew <;> rw [hversions] at heq <;> cases heq
      · cases hv
      · rw [List.mem_singleton.mp hv]
        decide
    · rintro ⟨versions, hversions, hsix⟩
      rw [hversions, Option.getD_some] at hnone
      rw [hnone] at hsix
      cases hsix

/-! ## Programs -/

abbrev Leading {α : Type} (done : α → Prop) (p : DbProg α) : Prop :=
  p.Leads sem (fun conn => AtMostSix conn.1) (fun conn => StoresSix conn.1) done

abbrev Restoring {α : Type} (done : α → Prop) (p : DbProg α) : Prop :=
  p.Restores sem (fun conn => AtMostSix conn.1) (fun conn => StoresSix conn.1) done

theorem restoring_sql {α : Type} {done : α → Prop} {next : Option Int → DbProg α} (h : Quiet s)
    (hnext : ∀ rc, Restoring done (next rc)) : Restoring done (.op (.sql s) next) := by
  intro conn hconn
  obtain ⟨hinv, hfact⟩ := quiet_keeps h hconn
  dsimp only
  rw [sem_sql_file]
  exact ⟨hinv, fun hsix => Or.inl (hfact hsix), hnext _⟩

theorem restoring_columnMetadata {α : Type} {done : α → Prop} {next : Option Int → DbProg α} {t : TableName}
    {c : Text} (hnext : ∀ rc, Restoring done (next rc)) : Restoring done (.op (.columnMetadata t c) next) :=
  fun _ hconn => ⟨hconn, Or.inl, hnext _⟩

theorem restoring_execSql {done : Unit → Prop} (h : Quiet s) : Restoring done (execSql s) := by
  refine restoring_sql h fun rc => ?_
  split <;> exact trivial

theorem restoring_createTable {done : Unit → Prop} (t : TableName) :
    Restoring done (execSql (.createTable t)) := restoring_execSql trivial

theorem restoring_ensureColumn {done : Unit → Prop} (t : TableName) (col : Column) :
    Restoring done (ensureColumn t col) := by
  refine restoring_columnMetadata fun rc => ?_
  split
  · exact trivial
  · exact restoring_execSql trivial

theorem restoring_dropColumnIfExists {done : Unit → Prop} (t : TableName) (c : Text) :
    Restoring done (dropColumnIfExists t c) := by
  refine restoring_columnMetadata fun rc => ?_
  split
  · exact restoring_execSql trivial
  · exact trivial

theorem restoring_dropLegacyColumns {done : Unit → Prop} : Restoring done dropLegacyColumns :=
  (restoring_dropColumnIfExists _ _).bind sem fun _ => (restoring_dropColumnIfExists _ _).bind sem fun _ =>
    (restoring_dropColumnIfExists _ _).bind sem fun _ => restoring_dropColumnIfExists _ _

theorem leading_insertSix {done : Unit → Prop} : Leading done (execSql (.insertVersion 6)) := by
  intro conn _
  rcases hversions : conn.1.versions with _ | versions
  · exact Or.inr (by simp [sem, Statement.exec, hversions, Leads])
  · exact Or.inl ⟨versions ++ [6], by simp [sem, Statement.exec, hversions], by simp⟩

theorem exec_insertVersion (hversions : d.versions = none) : (Statement.insertVersion k).exec d = none := by
  rw [Statement.exec, hversions, Option.map_none]

theorem exec_insertVersion_some {versions : List Int} (hversions : d.versions = some versions) :
    (Statement.insertVersion k).exec d = some ({ d with versions := some (versions ++ [k]) }, 0) := by
  rw [Statement.exec, hversions, Option.map_some]

theorem restoring_insertVersion {done : Unit → Prop} (hk : k ≤ 6) :
    Restoring done (execSql (.insertVersion k)) := by
  intro conn hconn
  rcases hversions : conn.1.versions with _ | versions
  · rw [sem_sql_of_error (exec_insertVersion hversions)]
    exact ⟨hconn, Or.inl, trivial⟩
  · rw [sem_sql_of_exec (exec_insertVersion_some hversions)]
    refine ⟨fun vs hvs v hv => ?_, fun ⟨vs, hvs, hsix⟩ => Or.inl ?_, trivial⟩
    · cases hvs
      rcases List.mem_append.mp hv with hv | hv
      · exact hconn versions hversions v hv
      · rwa [List.mem_singleton.mp hv]
    · rw [hversions] at hvs
      cases hvs
      exact ⟨_, rfl, List.mem_append_left _ hsix⟩

/-- The deletion is made good by the insertion, or by what comes after it. -/
theorem restoring_setSchemaVersion {done : Unit → Prop} (hk : k ≤ 6) (h : k = 6 ∨ done ()) :
    Restoring done (setSchemaVersion k) := by
  have hinsert : Leading done (execSql (.insertVersion k)) := by
    obtain rfl | h := h
    · exact leading_insertSix
    · exact Leads.of_all sem fun _ => h
  refine Restores.bind sem ?_ fun _ => restoring_insertVersion hk
  intro conn hconn
  rcases hversions : conn.1.versions with _ | versions
  · have hexec : Statement.deleteVersions.exec conn.1 = none := by
      rw [Statement.exec, hversions, Option.map_none]
    rw [sem_sql_of_error hexec]
    exact ⟨hconn, Or.inl, trivial⟩
  · have hexec : Statement.deleteVersions.exec conn.1 = some ({ conn.1 with versions := some [] }, 0) := by
      rw [Statement.exec, hversions, Option.map_some]
    rw [sem_sql_of_exec hexec]
    refine ⟨fun vs hvs v hv => ?_, fun _ => Or.inr hinsert, trivial⟩
    cases hvs
    cases hv

/-- A part of `db_init` with the value `v` of the local variable: before the sixth version it leads to it. -/
def Good (v : Int) (p : DbProg Unit) : Prop :=
  Restoring (fun _ => False) p ∧ (v < 6 → Leading (fun _ => False) p)

theorem good_quiet {q : DbProg Unit} (hq : ∀ done : Unit → Prop, Restoring done q) (h : Good v p) :
    Good v (q >>= fun _ => p) :=
  ⟨(hq _).bind sem fun _ => h.1, fun hv => Leads.bind sem (Leads.of_all sem fun _ => h.2 hv)⟩

theorem restoring_migrate {done : Int → Prop} {change : DbProg Unit} {after : Int} (hk : k ≤ 6)
    (hchange : ∀ done : Unit → Prop, Restoring done change) (h : v < k → k = 6 ∨ done after) :
    Restoring done (migrate v k change after) := by
  unfold migrate
  split_ifs with hold
  · refine (hchange _).bind sem fun _ => ?_
    exact (restoring_setSchemaVersion hk (h hold)).bind sem fun _ => trivial
  · exact trivial

theorem good_migrate {change : DbProg Unit} {after : Int} (hk : k < 6) (hafter : v < k → after < 6)
    (hchange : ∀ done : Unit → Prop, Restoring done change) (h : ∀ a, Good a (f a)) :
    Good v (migrate v k change after >>= f) := by
  constructor
  · refine (restoring_migrate hk.le hchange fun hold => Or.inr ?_).bind sem fun a => (h a).1
    exact (h after).2 (hafter hold)
  · intro hv
    unfold migrate
    split_ifs with hold
    · exact Leads.bind sem (Leads.bind sem (Leads.of_all sem fun _ => Leads.bind sem
        (Leads.of_all sem fun _ => (h after).2 (hafter hold))))
    · exact (h v).2 hv

theorem good_migrate_six {change : DbProg Unit} {after : Int}
    (hchange : ∀ done : Unit → Prop, Restoring done change)
    (h : ∀ a, Restoring (fun _ => False) (f a)) : Good v (migrate v 6 change after >>= f) := by
  constructor
  · exact (restoring_migrate (le_refl 6) hchange fun _ => Or.inl rfl).bind sem h
  · intro hv
    rw [migrate, if_pos hv]
    refine Leads.bind sem (Leads.bind sem (Leads.of_all sem fun _ => Leads.bind sem ?_))
    exact Leads.bind sem (Leads.of_all sem fun _ => leading_insertSix)

theorem good_dbInitFrom (v : Int) : Good v (dbInitFrom v) := by
  unfold dbInitFrom
  refine good_quiet (fun _ => restoring_createTable .tasks) ?_
  refine good_quiet (fun _ => restoring_createTable .users) ?_
  refine good_quiet (fun _ => restoring_createTable .submissions) ?_
  refine good_migrate (by decide) (fun _ => by decide) (fun _ => restoring_ensureColumn _ _) fun v₂ => ?_
  refine good_quiet (fun _ => restoring_createTable .sessions) ?_
  refine good_migrate (by decide) (fun _ => by omega) (fun _ => restoring_ensureColumn _ _) fun v₃ => ?_
  refine good_quiet (fun _ => restoring_createTable .bookmarks) ?_
  refine good_migrate (by decide) (fun _ => by decide) (fun _ => trivial) fun v₄ => ?_
  refine good_migrate (by decide) (fun _ => by omega) (fun _ => restoring_dropLegacyColumns) fun v₅ => ?_
  refine good_migrate_six (fun _ => restoring_ensureColumn _ _) fun v₆ => ?_
  refine (restoring_createTable .gradingJobs).bind sem fun _ => ?_
  refine (restoring_execSql (s := .createQueueIndex) trivial).bind sem fun _ => ?_
  exact restoring_createTable .subtaskGroups

/-- Whoever reads the version before the sixth one stores that one before it ends. -/
theorem leading_schemaVersion : Leading (fun v => Leading (fun _ => False) (dbInitFrom v)) schemaVersion := by
  intro conn hconn
  rcases hversions : conn.1.versions with _ | versions
  · refine Or.inr ?_
    have hexec : Statement.selectVersion.exec conn.1 = none := by
      rw [Statement.exec, hversions, Option.map_none]
    rw [sem_sql_of_error hexec]
    exact (good_dbInitFrom 0).2 (by decide)
  · have hexec : Statement.selectVersion.exec conn.1 = some (conn.1, maxVersion versions) := by
      rw [Statement.exec, hversions, Option.map_some]
    rw [sem_sql_of_exec hexec]
    by_cases hold : maxVersion versions < 6
    · exact Or.inr ((good_dbInitFrom _).2 hold)
    · have hne : maxVersion versions ≠ 0 := by omega
      have hmem := mem_of_maxVersion hne
      have hsix : maxVersion versions = 6 := le_antisymm (hconn versions hversions _ hmem) (not_lt.mp hold)
      exact Or.inl ⟨versions, hversions, hsix ▸ hmem⟩

theorem leading_dbInit : Leading (fun _ => False) dbInit :=
  Leads.bind sem (Leads.of_all sem fun _ => Leads.bind sem (Leads.of_all sem fun _ => Leads.bind sem
    (Leads.of_all sem fun _ => Leads.bind sem (Leads.of_all sem fun _ => Leads.bind sem
      leading_schemaVersion))))

theorem restoring_dbInit : Restoring (fun _ => False) dbInit := by
  have hversion : Restoring (fun v => Leading (fun _ => False) (dbInitFrom v)) schemaVersion :=
    restoring_sql trivial fun rc => trivial
  refine (restoring_execSql (s := .pragma _) trivial).bind sem fun _ => ?_
  refine (restoring_execSql (s := .pragma _) trivial).bind sem fun _ => ?_
  refine (restoring_execSql (s := .createVersionTable) trivial).bind sem fun _ => ?_
  refine (restoring_execSql (s := .insertFirstVersion) trivial).bind sem fun _ => ?_
  exact hversion.bind sem fun v => (good_dbInitFrom v).1

end Tle.Schema
