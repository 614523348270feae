import Tle.Schema.Lemmas.Columns

/-!
# What `db_init` has reached after each of its statements
-/

namespace Tle.Schema
open Tle.Lib Tle.Lib.Prog

variable {d d' : Database} {t : TableName} {c : Text} {k v : Int} {col : Column} {ts : List TableName}
  {s : Statement} {conn : Connection}

/-! ## One statement -/

theorem exec_createTable (d : Database) (t : TableName) : ∃ d' n,
    (Statement.createTable t).exec d = some (d', n) ∧ Grows d d' ∧ (d'.tables t).isSome = true := by
  refine ⟨_, 0, rfl, ?_⟩
  split_ifs with ht
  · exact ⟨Grows.refl d, ht⟩
  · exact ⟨grows_created (by simpa using ht), by rw [Database.tables_setTable_self]; rfl⟩

theorem exec_addColumn (ht : (d.tables t).isSome = true) (htasks : t ≠ .tasks)
    (hlacks : Lacks d t col.name)
    (hfinish : ∀ r, d.tables t = some r → finish t (r.addColumn col) = finish t r) : ∃ d' n,
    (Statement.addColumn t col).exec d = some (d', n) ∧ Grows d d' ∧ HasColumn d' t col.name := by
  obtain ⟨r, hr⟩ := Option.isSome_iff_exists.mp ht
  refine ⟨d.setTable t (r.addColumn col), 0, ?_, grows_addColumn hr htasks (hfinish r hr), ?_⟩
  · simp [Statement.exec, hr, hlacks r hr]
  · exact ⟨r.addColumn col, d.tables_setTable_self t _, Relation.has_addColumn.mpr (Or.inr rfl)⟩

theorem exec_dropColumn (hc : c ∈ legacyColumns) (h : HasColumn d .tasks c) : ∃ d' n,
    (Statement.dropColumn .tasks c).exec d = some (d', n) ∧ Grows d d' ∧ Lacks d' .tasks c := by
  obtain ⟨r, hr, hhas⟩ := h
  refine ⟨d.setTable .tasks (r.dropColumn c), 0, ?_, grows_dropColumn hr hc, ?_⟩
  · simp [Statement.exec, hr, hhas]
  · intro r' hr'
    rw [Database.tables_setTable_self] at hr'
    cases hr'
    exact Bool.eq_false_iff.mpr fun hgone => (Relation.has_dropColumn.mp hgone).2 rfl

/-! ## The cache -/

/-- The cache is empty or holds a layout that the file is known by. -/
def Informed (knows : Layout → Database → Prop) (conn : Connection) : Prop :=
  ∀ l, conn.2 = some l → knows l conn.1

/-- A fact about the file, for a connection that is informed. -/
def At (knows : Layout → Database → Prop) (P : Database → Prop) (conn : Connection) : Prop :=
  P conn.1 ∧ Informed knows conn

abbrev FileGrows (conn conn' : Connection) : Prop := Grows conn.1 conn'.1

/-! ## Stages -/

/-- The tables `ts` exist, and the changes of the versions up to `k`, and up to the value `v` of the local
variable, have been applied. -/
structure Stage (ts : List TableName) (k v : Int) (d : Database) : Prop where
  sound : Sound d
  versions : d.versions.isSome = true
  applied : Applied k d
  version : Applied v d
  tables : ∀ t ∈ ts, (d.tables t).isSome = true

theorem Stage.grows (h : Stage ts k v d) (hd : Grows d d') : Stage ts k v d' :=
  ⟨hd.sound h.sound, hd.versions h.versions, hd.applied k h.applied, hd.applied v h.version,
    fun t ht => hd.tables t (h.tables t ht)⟩

theorem Stage.next (h : Stage ts (k - 1) v d) (hchanged : Changed k d) (hts : .submissions ∈ ts) :
    Stage ts k v d :=
  ⟨h.sound, h.versions, h.applied.next hchanged fun _ => h.tables _ hts, h.version, h.tables⟩

/-- How others may interfere: they let the tables grow. What a connection has in its cache says enough about
the file for an alteration that is known to fit, or that no one else can have made. -/
structure Regime (fits : Operation → Connection → Prop) (rely : Connection → Connection → Prop)
    (knows : Layout → Database → Prop) : Prop where
  refl : ∀ conn, rely conn conn
  grows : ∀ conn conn', rely conn conn' → Grows conn.1 conn'.1
  cache : ∀ conn conn', rely conn conn' → conn'.2 = conn.2
  later : ∀ conn conn' l, rely conn conn' → knows l conn.1 → knows l conn'.1
  fresh : ∀ d, knows d.layout d
  trails : ∀ l d, knows l d → Trails l d
  add : ∀ conn l t col, knows l conn.1 → l.has t col.name = false → fits (.sql (.addColumn t col)) conn →
    Lacks conn.1 t col.name
  drop : ∀ conn l t c, knows l conn.1 → l.has t c = true → fits (.sql (.dropColumn t c)) conn →
    HasColumn conn.1 t c

section Triples

variable {fits : Operation → Connection → Prop} {rely : Connection → Connection → Prop}
  {knows : Layout → Database → Prop} {P Q : Database → Prop}

theorem stable_stage : Stable Grows (Stage ts k v) := fun _ _ hd h => h.grows hd

theorem Regime.informed (hreg : Regime fits rely knows) : Stable rely (Informed knows) := by
  intro conn conn' hrely h l hl
  rw [hreg.cache conn conn' hrely] at hl
  exact hreg.later conn conn' l hrely (h l hl)

theorem Regime.at (hreg : Regime fits rely knows) (hP : Stable Grows P) : Stable rely (At knows P) :=
  fun conn conn' hrely h => ⟨hP _ _ (hreg.grows conn conn' hrely) h.1, hreg.informed conn conn' hrely h.2⟩

theorem Regime.cached (hreg : Regime fits rely knows) (h : Informed knows conn) {n : Int}
    (hexec : s.exec conn.1 = some (d', n)) : Informed knows (d', s.cached conn.2 d') := by
  intro l hl
  cases s with
  | pragma setting =>
      cases hexec
      exact h l hl
  | _ =>
      cases hl
      exact hreg.fresh d'

/-- A lookup answers what some known layout says. -/
theorem Regime.lookup (hreg : Regime fits rely knows) (h : Informed knows conn) (t : TableName) (c : Text) :
    ∃ l, knows l conn.1 ∧ sem (.columnMetadata t c) conn =
      ((conn.1, some l), if l.has t c then some 0 else none) := by
  refine ⟨conn.2.getD conn.1.layout, ?_, rfl⟩
  cases hcache : conn.2 with
  | none => exact hreg.fresh conn.1
  | some l => exact h l hcache

/-- A statement that never fails where the program executes it. -/
theorem execSql_triple (hreg : Regime fits rely knows) (hP : Stable Grows P) (hQ : Stable Grows Q)
    (h : ∀ d, P d → ∃ d' n, s.exec d = some (d', n) ∧ Grows d d' ∧ Q d') :
    Triple sem fits rely FileGrows (At knows P) (execSql s) fun _ => At knows Q := by
  refine Triple.op (hreg.at hP) fun conn hconn _ => ?_
  obtain ⟨d', n, hexec, hgrows, hq⟩ := h conn.1 hconn.1
  rw [sem_sql_of_exec hexec]
  exact ⟨hgrows, fun conn' hrely => hreg.at hQ _ conn' hrely ⟨hq, hreg.cached hconn.2 hexec⟩⟩

theorem createTable_triple (hreg : Regime fits rely knows) : Triple sem fits rely FileGrows
    (At knows (Stage ts k v)) (execSql (.createTable t)) fun _ => At knows (Stage (t :: ts) k v) := by
  refine execSql_triple hreg stable_stage stable_stage fun d hd => ?_
  obtain ⟨d', n, hexec, hgrows, ht⟩ := exec_createTable d t
  have hd' := hd.grows hgrows
  exact ⟨d', n, hexec, hgrows, hd'.sound, hd'.versions, hd'.applied, hd'.version,
    List.forall_mem_cons.mpr ⟨ht, hd'.tables⟩⟩

theorem ensureColumn_triple (hreg : Regime fits rely knows) (ht : t ∈ ts) (htasks : t ≠ .tasks)
    (hfinish : ∀ d, Stage ts k v d → ∀ r, d.tables t = some r → r.has col.name = false →
      finish t (r.addColumn col) = finish t r) :
    Triple sem fits rely FileGrows (At knows (Stage ts k v)) (ensureColumn t col)
      fun _ => At knows fun d => Stage ts k v d ∧ HasColumn d t col.name := by
  have hkept : col.name ∉ forbidden 5 t := by
    rw [forbidden_eq_nil htasks]
    exact List.not_mem_nil
  have hstable : Stable Grows fun d => Stage ts k v d ∧ HasColumn d t col.name := fun d d' hd h =>
    ⟨h.1.grows hd, hd.has t _ hkept h.2⟩
  refine Triple.op (hreg.at stable_stage) fun conn hconn _ => ?_
  obtain ⟨l, hknows, hsem⟩ := hreg.lookup hconn.2 t col.name
  have hinformed : Informed knows (conn.1, some l) := by
    intro l' hl'
    cases hl'
    exact hknows
  rw [hsem]
  cases hhas : l.has t col.name with
  | true =>
      refine ⟨Grows.refl _, fun conn' hrely => hreg.at hstable _ conn' hrely ⟨⟨hconn.1, ?_⟩, hinformed⟩⟩
      exact (hreg.trails l _ hknows).has t _ hkept hhas
  | false =>
      refine ⟨Grows.refl _, fun conn₁ hrely hfits => ?_⟩
      -- the file may have grown since the lookup
      have hlacks := hreg.add conn₁ l t col (hreg.later _ conn₁ l hrely hknows) hhas hfits
      obtain ⟨hstage, hinformed₁⟩ := hreg.at stable_stage _ conn₁ hrely ⟨hconn.1, hinformed⟩
      obtain ⟨d₂, n, hexec, hgrows, hadded⟩ := exec_addColumn (hstage.tables t ht) htasks hlacks
        fun r hr => hfinish conn₁.1 hstage r hr (hlacks r hr)
      rw [sem_sql_of_exec hexec]
      exact ⟨hgrows, fun conn' hrely' => hreg.at hstable _ conn' hrely'
        ⟨⟨hstage.grows hgrows, hadded⟩, hreg.cached hinformed₁ hexec⟩⟩

theorem dropColumnIfExists_triple (hreg : Regime fits rely knows) (hc : c ∈ legacyColumns) :
    Triple sem fits rely FileGrows (Informed knows) (dropColumnIfExists .tasks c)
      fun _ => At knows fun d => Lacks d .tasks c := by
  have hforbidden := mem_legacyColumns.mpr hc
  have hstable : Stable Grows fun d => Lacks d .tasks c := fun d d' hd h => hd.lacks .tasks c hforbidden h
  refine Triple.op hreg.informed fun conn hconn _ => ?_
  obtain ⟨l, hknows, hsem⟩ := hreg.lookup hconn .tasks c
  have hinformed : Informed knows (conn.1, some l) := by
    intro l' hl'
    cases hl'
    exact hknows
  rw [hsem]
  cases hhas : l.has .tasks c with
  | true =>
      refine ⟨Grows.refl _, fun conn₁ hrely hfits => ?_⟩
      have hthere := hreg.drop conn₁ l .tasks c (hreg.later _ conn₁ l hrely hknows) hhas hfits
      obtain ⟨d₂, n, hexec, hgrows, hlacks⟩ := exec_dropColumn hc hthere
      rw [sem_sql_of_exec hexec]
      exact ⟨hgrows, fun conn' hrely' => hreg.at hstable _ conn' hrely'
        ⟨hlacks, hreg.cached (hreg.informed _ conn₁ hrely hinformed) hexec⟩⟩
  | false =>
      refine ⟨Grows.refl _, fun conn' hrely => hreg.at hstable _ conn' hrely ⟨?_, hinformed⟩⟩
      exact (hreg.trails l _ hknows).lacks .tasks c hforbidden hhas

/-- The columns `cs` have gone. -/
def Dropped (ts : List TableName) (k v : Int) (cs : List Text) (d : Database) : Prop :=
  Stage ts k v d ∧ ∀ c ∈ cs, c ∈ legacyColumns ∧ Lacks d .tasks c

theorem Dropped.grows {cs : List Text} (h : Dropped ts k v cs d) (hd : Grows d d') :
    Dropped ts k v cs d' :=
  ⟨h.1.grows hd, fun c hc => ⟨(h.2 c hc).1,
    hd.lacks .tasks c (mem_legacyColumns.mpr (h.2 c hc).1) (h.2 c hc).2⟩⟩

theorem dropOne_triple (hreg : Regime fits rely knows) {cs : List Text} (hc : c ∈ legacyColumns) :
    Triple sem fits rely FileGrows (At knows (Dropped ts k v cs)) (dropColumnIfExists .tasks c)
      fun _ => At knows (Dropped ts k v (c :: cs)) := by
  have hframe := (dropColumnIfExists_triple hreg hc).frame (F := fun conn : Connection => Dropped ts k v cs conn.1)
    (fun _ _ hrely h => h.grows (hreg.grows _ _ hrely)) (fun _ _ hd h => h.grows hd)
  intro conn hconn
  refine (hframe conn ⟨hconn.2, hconn.1⟩).weaken fun _ conn' h => ⟨⟨h.2.1, ?_⟩, h.1.2⟩
  exact List.forall_mem_cons.mpr ⟨⟨hc, h.1.1⟩, h.2.2⟩

theorem dropLegacyColumns_triple (hreg : Regime fits rely knows) (hts : .submissions ∈ ts) :
    Triple sem fits rely FileGrows (At knows (Stage ts 4 v)) dropLegacyColumns
      fun _ => At knows (Stage ts 5 v) := by
  obtain ⟨h₁, h₂, h₃, h₄⟩ := mem_legacy
  have hfirst : Triple sem fits rely FileGrows (At knows (Stage ts 4 v))
      (dropColumnIfExists .tasks "difficulty".toList)
      fun _ => At knows (Dropped ts 4 v ["difficulty".toList]) := by
    have hnone (conn : Connection) (h : At knows (Stage ts 4 v) conn) : At knows (Dropped ts 4 v []) conn :=
      ⟨⟨h.1, fun c hc => nomatch hc⟩, h.2⟩
    exact (dropOne_triple hreg h₁).consequence hnone
  have hlast : Triple sem fits rely FileGrows (At knows (Dropped ts 4 v legacyColumns.reverse.tail))
      (dropColumnIfExists .tasks "estimated_minutes".toList) fun _ => At knows (Stage ts 5 v) := by
    intro conn hconn
    refine (dropOne_triple hreg h₄ conn hconn).weaken fun _ conn' h => ⟨?_, h.2⟩
    exact h.1.1.next (changed_five fun c hc => (h.1.2 c (List.mem_reverse.mpr hc)).2) hts
  exact hfirst.bind hreg.refl fun _ => (dropOne_triple hreg h₂).bind hreg.refl fun _ =>
    (dropOne_triple hreg h₃).bind hreg.refl fun _ => hlast

theorem setSchemaVersion_triple (hreg : Regime fits rely knows) (hk : k ≤ 6) :
    Triple sem fits rely FileGrows (At knows (Stage ts k v)) (setSchemaVersion k)
      fun _ => At knows (Stage ts k v) := by
  refine Triple.bind hreg.refl (Q := fun _ => At knows (Stage ts k v)) ?_ fun _ => ?_
  · refine execSql_triple hreg stable_stage stable_stage fun d hd => ?_
    obtain ⟨versions, hversions⟩ := Option.isSome_iff_exists.mp hd.versions
    have hgrows : Grows d { d with versions := some [] } :=
      grows_of_tables rfl id (fun _ => rfl) fun _ vs hvs u hu => by
        cases hvs
        cases hu
    exact ⟨_, 0, by simp only [Statement.exec, hversions, Option.map_some], hgrows, hd.grows hgrows⟩
  · refine execSql_triple hreg stable_stage stable_stage fun d hd => ?_
    obtain ⟨versions, hversions⟩ := Option.isSome_iff_exists.mp hd.versions
    have hgrows : Grows d { d with versions := some (versions ++ [k]) } :=
      grows_of_tables rfl id (fun _ => rfl) fun hsound vs hvs u hu => by
        cases hvs
        rcases List.mem_append.mp hu with hu | hu
        · exact hsound.stored versions hversions u hu
        · rw [List.mem_singleton.mp hu]
          exact ⟨hk, hd.applied⟩
    exact ⟨_, 0, by simp only [Statement.exec, hversions, Option.map_some], hgrows, hd.grows hgrows⟩

/-- One migration, from what it changes. -/
theorem migrate_triple (hreg : Regime fits rely knows) {change : DbProg Unit} {after : Int} (hk : k ≤ 6)
    (hafter : after = k ∨ after = v)
    (hchange : Triple sem fits rely FileGrows (At knows (Stage ts (k - 1) v)) change
      fun _ => At knows (Stage ts k v)) :
    Triple sem fits rely FileGrows (At knows (Stage ts (k - 1) v)) (migrate v k change after)
      fun v' => At knows (Stage ts k v') := by
  have hret (u : Int) : Triple sem fits rely FileGrows (At knows (Stage ts k u)) (.ret u)
      fun v' => At knows (Stage ts k v') :=
    Triple.ret (Q := fun v' => At knows (Stage ts k v')) (hreg.at stable_stage)
  unfold migrate
  split_ifs with hold
  · refine hchange.bind hreg.refl fun _ => ?_
    refine (setSchemaVersion_triple hreg hk).bind hreg.refl fun _ => ?_
    refine (hret after).consequence fun conn h => ⟨?_, h.2⟩
    obtain rfl | rfl := hafter
    · exact ⟨h.1.sound, h.1.versions, h.1.applied, h.1.applied, h.1.tables⟩
    · exact h.1
  · refine (hret v).consequence fun conn h => ⟨?_, h.2⟩
    exact ⟨h.1.sound, h.1.versions, h.1.version.mono (not_lt.mp hold), h.1.version, h.1.tables⟩

/-! ## The whole run -/

theorem createSubmissions_triple (hreg : Regime fits rely knows) :
    Triple sem fits rely FileGrows (At knows (Stage ts 0 v)) (execSql (.createTable .submissions))
      fun _ => At knows (Stage (.submissions :: ts) 1 v) := by
  intro conn hconn
  refine (createTable_triple hreg conn hconn).weaken fun _ conn' h => ⟨?_, h.2⟩
  exact h.1.next (changed_of_ne (by decide) (by decide) (by decide) (by decide)) List.mem_cons_self

theorem migration_two (hreg : Regime fits rely knows) (hts : .submissions ∈ ts) :
    Triple sem fits rely FileGrows (At knows (Stage ts 1 v))
      (migrate v 2 (ensureColumn .submissions compilerOutput) 2) fun v' => At knows (Stage ts 2 v') := by
  refine migrate_triple (k := 2) hreg (by decide) (Or.inl rfl) fun conn hconn => ?_
  refine (ensureColumn_triple hreg hts (by decide) ?_ conn hconn).weaken fun _ conn' h =>
    ⟨h.1.1.next (changed_two h.1.2) hts, h.2⟩
  intro d _ r _ hlacks
  change (Relation.ensure _ _).ensure _ = (Relation.ensure _ _).ensure _
  rw [Relation.ensure_addColumn hlacks]

theorem migration_three (hreg : Regime fits rely knows) (hts : .submissions ∈ ts) (hsessions : .sessions ∈ ts) :
    Triple sem fits rely FileGrows (At knows (Stage ts 2 v))
      (migrate v 3 (ensureColumn .sessions csrfToken) v) fun v' => At knows (Stage ts 3 v') := by
  refine migrate_triple (k := 3) hreg (by decide) (Or.inr rfl) fun conn hconn => ?_
  refine (ensureColumn_triple hreg hsessions (by decide) ?_ conn hconn).weaken fun _ conn' h =>
    ⟨h.1.1.next (changed_three h.1.2) hts, h.2⟩
  exact fun d _ r _ hlacks => Relation.ensure_addColumn hlacks

theorem migration_four (hreg : Regime fits rely knows) (hts : .submissions ∈ ts) :
    Triple sem fits rely FileGrows (At knows (Stage ts 3 v)) (migrate v 4 (pure ()) 4)
      fun v' => At knows (Stage ts 4 v') := by
  refine migrate_triple (k := 4) hreg (by decide) (Or.inl rfl) fun conn hconn conn' hrely => ?_
  obtain ⟨hstage, hinformed⟩ := hreg.at stable_stage _ conn' hrely hconn
  exact ⟨hstage.next (changed_of_ne (by decide) (by decide) (by decide) (by decide)) hts, hinformed⟩

theorem migration_six (hreg : Regime fits rely knows) (hts : .submissions ∈ ts) :
    Triple sem fits rely FileGrows (At knows (Stage ts 5 v))
      (migrate v 6 (ensureColumn .submissions subtaskResults) 6) fun v' => At knows (Stage ts 6 v') := by
  refine migrate_triple (k := 6) hreg (by decide) (Or.inl rfl) fun conn hconn => ?_
  refine (ensureColumn_triple hreg hts (by decide) ?_ conn hconn).weaken fun _ conn' h =>
    ⟨h.1.1.next (changed_six h.1.2) hts, h.2⟩
  intro d hd r hr hlacks
  -- the column of the second version comes first in any case
  have hcompiler : r.has compilerOutput.name = true :=
    (hd.applied.fits _ r hr).required _ (mem_required.mpr (Or.inr ⟨2, by decide, by simp [added]⟩))
  change (Relation.ensure _ _).ensure _ = (Relation.ensure _ _).ensure _
  rw [Relation.ensure_of_has hcompiler, Relation.ensure_of_has (Relation.has_addColumn.mpr (Or.inl hcompiler)),
    Relation.ensure_addColumn hlacks]

/-- The tables and the index. -/
def Indexed (ts : List TableName) (v : Int) (d : Database) : Prop := Stage ts 6 v d ∧ d.queueIndex = true

theorem createQueueIndex_triple (hreg : Regime fits rely knows) (hts : .gradingJobs ∈ ts) :
    Triple sem fits rely FileGrows (At knows (Stage ts 6 v)) (execSql .createQueueIndex)
      fun _ => At knows (Indexed ts v) := by
  have hstable : Stable Grows (Indexed ts v) := fun d d' hd h => ⟨h.1.grows hd, hd.index h.2⟩
  refine execSql_triple hreg stable_stage hstable fun d hd => ?_
  obtain ⟨r, hr⟩ := Option.isSome_iff_exists.mp (hd.tables _ hts)
  have hcolumn {c : Text} (hc : c ∈ (created .gradingJobs).names) : r.has c = true :=
    (hd.applied.fits _ r hr).required c (mem_required.mpr (Or.inl ⟨hc, fun p hp => nomatch hp⟩))
  have hid : r.has "submission_id".toList = true := hcolumn (.head _)
  have hstatus : r.has "status".toList = true := hcolumn (.tail _ (.head _))
  have hgrows : Grows d { d with queueIndex := true } :=
    grows_of_tables rfl (fun _ => rfl) id fun hsound => hsound.stored
  refine ⟨{ d with queueIndex := true }, 0, ?_, hgrows, hd.grows hgrows, rfl⟩
  simp only [Statement.exec, hr, Option.bind_some, hstatus, hid, Bool.and_self, if_true]

/-- Everything that the sixth version has. -/
structure Complete (d : Database) : Prop where
  applied : Applied 6 d
  tables : ∀ t, (d.tables t).isSome = true
  index : d.queueIndex = true

theorem createSubtaskGroups_triple (hreg : Regime fits rely knows)
    (hts : ∀ t, t = .subtaskGroups ∨ t ∈ ts) :
    Triple sem fits rely FileGrows (At knows (Indexed ts v)) (execSql (.createTable .subtaskGroups))
      fun _ conn => Complete conn.1 := by
  have hframe := (@createTable_triple .subtaskGroups 6 v ts fits rely knows hreg).frame
    (F := fun conn : Connection => conn.1.queueIndex = true) (fun _ _ hrely => (hreg.grows _ _ hrely).index)
    (fun _ _ hd => hd.index)
  intro conn hconn
  refine (hframe conn ⟨⟨hconn.1.1, hconn.2⟩, hconn.1.2⟩).weaken fun _ conn' h => ⟨h.1.1.applied, fun t => ?_, h.2⟩
  exact h.1.1.tables t (List.mem_cons.mpr (hts t))

theorem dbInitFrom_triple (hreg : Regime fits rely knows) (v : Int) :
    Triple sem fits rely FileGrows (At knows (Stage [] 0 v)) (dbInitFrom v) fun _ conn => Complete conn.1 := by
  unfold dbInitFrom
  refine (createTable_triple hreg).bind hreg.refl fun _ => ?_
  refine (createTable_triple hreg).bind hreg.refl fun _ => ?_
  refine (createSubmissions_triple hreg).bind hreg.refl fun _ => ?_
  refine (migration_two hreg (by simp)).bind hreg.refl fun v₂ => ?_
  refine (createTable_triple hreg).bind hreg.refl fun _ => ?_
  refine (migration_three hreg (by simp) (by simp)).bind hreg.refl fun v₃ => ?_
  refine (createTable_triple hreg).bind hreg.refl fun _ => ?_
  refine (migration_four hreg (by simp)).bind hreg.refl fun v₄ => ?_
  refine Triple.bind hreg.refl (migrate_triple (k := 5) hreg (by decide) (Or.inr rfl)
    (dropLegacyColumns_triple hreg (by simp))) fun v₅ => ?_
  refine (migration_six hreg (by simp)).bind hreg.refl fun v₆ => ?_
  refine (createTable_triple hreg).bind hreg.refl fun _ => ?_
  refine (createQueueIndex_triple hreg (by simp)).bind hreg.refl fun _ => ?_
  refine createSubtaskGroups_triple hreg fun t => ?_
  cases t <;> simp

theorem maxVersion_applied (h : Sound d) {versions : List Int} (hversions : d.versions = some versions) :
    Applied (maxVersion versions) d := by
  rcases hmax : versions.max? with _ | m
  · rw [maxVersion, hmax, Option.getD_none]
    exact h.base
  · rw [maxVersion, hmax, Option.getD_some]
    exact (h.stored versions hversions m (List.max?_mem hmax)).2

/-- The table of the version is there. -/
def Ready (d : Database) : Prop := Sound d ∧ d.versions.isSome = true

theorem stable_sound : Stable Grows Sound := fun _ _ hd => hd.sound

theorem stable_ready : Stable Grows Ready := fun _ _ hd h => ⟨hd.sound h.1, hd.versions h.2⟩

theorem schemaVersion_triple (hreg : Regime fits rely knows) : Triple sem fits rely FileGrows
    (At knows Ready) schemaVersion fun v => At knows (Stage [] 0 v) := by
  refine Triple.op (hreg.at stable_ready) fun conn hconn _ => ?_
  obtain ⟨versions, hversions⟩ := Option.isSome_iff_exists.mp hconn.1.2
  have hexec : Statement.selectVersion.exec conn.1 = some (conn.1, maxVersion versions) := by
    simp only [Statement.exec, hversions, Option.map_some]
  rw [sem_sql_of_exec hexec]
  have hstage : Stage [] 0 (maxVersion versions) conn.1 :=
    ⟨hconn.1.1, hconn.1.2, hconn.1.1.base, maxVersion_applied hconn.1.1 hversions, by simp⟩
  exact ⟨Grows.refl _, fun conn' hrely => hreg.at stable_stage _ conn' hrely ⟨hstage, hreg.cached hconn.2 hexec⟩⟩

theorem dbInit_triple (hreg : Regime fits rely knows) :
    Triple sem fits rely FileGrows (At knows Sound) dbInit fun _ conn => Complete conn.1 := by
  have hpragma (setting : String) : Triple sem fits rely FileGrows (At knows Sound)
      (execSql (.pragma setting)) fun _ => At knows Sound :=
    execSql_triple hreg stable_sound stable_sound fun d hd => ⟨d, 0, rfl, Grows.refl d, hd⟩
  unfold dbInit
  refine (hpragma _).bind hreg.refl fun _ => ?_
  refine (hpragma _).bind hreg.refl fun _ => ?_
  refine Triple.bind hreg.refl (Q := fun _ => At knows Ready) ?_ fun _ => ?_
  · refine execSql_triple hreg stable_sound stable_ready fun d hd => ?_
    have hgrows : Grows d { d with versions := some (d.versions.getD []) } := by
      refine grows_of_tables rfl id (fun _ => rfl) fun _ vs hvs u hu => ?_
      cases hvs
      rcases hversions : d.versions with _ | versions
      · rw [hversions] at hu
        cases hu
      · rw [hversions] at hu
        exact hd.stored versions hversions u hu
    exact ⟨_, 0, rfl, hgrows, hgrows.sound hd, rfl⟩
  refine Triple.bind hreg.refl (Q := fun _ => At knows Ready) ?_ fun _ => ?_
  · refine execSql_triple hreg stable_ready stable_ready fun d hd => ?_
    obtain ⟨versions, hversions⟩ := Option.isSome_iff_exists.mp hd.2
    have hgrows : Grows d { d with versions := some (if versions = [] then [0] else versions) } := by
      refine grows_of_tables rfl id (fun _ => rfl) fun _ vs hvs u hu => ?_
      cases hvs
      split_ifs at hu
      · rw [List.mem_singleton.mp hu]
        exact ⟨by decide, hd.1.base⟩
      · exact hd.1.stored versions hversions u hu
    exact ⟨_, 0, by simp only [Statement.exec, hversions, Option.map_some], hgrows, hgrows.sound hd.1, rfl⟩
  exact (schemaVersion_triple hreg).bind hreg.refl fun v => dbInitFrom_triple hreg v

end Triples

end Tle.Schema
