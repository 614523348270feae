import Tle.Schema.Init

/-!
# What a schema version asks of the tables, and what the operations keep of it
-/

namespace Tle.Schema
open Tle.Lib

variable {d d' d'' : Database} {t : TableName} {r r' : Relation} {c : Text} {k v : Int} {col : Column}

/-! ## Columns -/

@[simp] theorem Relation.names_addColumn : (r.addColumn col).names = r.names ++ [col.name] := by
  simp [Relation.names, Relation.addColumn]

@[simp] theorem Relation.names_dropColumn : (r.dropColumn c).names = r.names.filter (· ≠ c) := by
  simp [Relation.names, Relation.dropColumn, List.filter_map, Function.comp_def]

@[simp] theorem Relation.has_addColumn {x : Text} :
    (r.addColumn col).has x = true ↔ r.has x = true ∨ x = col.name := by
  simp [Relation.has]

@[simp] theorem Relation.has_dropColumn {x : Text} :
    (r.dropColumn c).has x = true ↔ r.has x = true ∧ x ≠ c := by
  simp [Relation.has]

/-- The columns of `tasks` that older versions had. -/
def legacyColumns : List Text :=
  ["difficulty".toList, "tags".toList, "source".toList, "estimated_minutes".toList]

theorem mem_legacy : "difficulty".toList ∈ legacyColumns ∧ "tags".toList ∈ legacyColumns ∧
    "source".toList ∈ legacyColumns ∧ "estimated_minutes".toList ∈ legacyColumns :=
  ⟨.head _, .tail _ (.head _), .tail _ (.tail _ (.head _)), .tail _ (.tail _ (.tail _ (.head _)))⟩

/-- The columns that were not in the first version, each with the version that adds it. -/
def added : TableName → List (Int × Text)
  | .submissions => [(2, compilerOutput.name), (6, subtaskResults.name)]
  | .sessions => [(3, csrfToken.name)]
  | _ => []

def dropped : TableName → List (Int × Text)
  | .tasks => legacyColumns.map (5, ·)
  | _ => []

theorem mem_added : (v, c) ∈ added t ↔
    (t = .submissions ∧ (v = 2 ∧ c = compilerOutput.name ∨ v = 6 ∧ c = subtaskResults.name)) ∨
      (t = .sessions ∧ v = 3 ∧ c = csrfToken.name) := by
  cases t <;> simp [added]

theorem mem_dropped : (v, c) ∈ dropped t ↔ t = .tasks ∧ v = 5 ∧ c ∈ legacyColumns := by
  cases t <;> simp [dropped, eq_comm, and_comm]

/-- The columns that version `k` asks for. -/
def required (k : Int) (t : TableName) : List Text :=
  (created t).names.filter (fun c => (added t).all (·.2 ≠ c)) ++ ((added t).filter (·.1 ≤ k)).map (·.2)

/-- The columns that version `k` does without. -/
def forbidden (k : Int) (t : TableName) : List Text := ((dropped t).filter (·.1 ≤ k)).map (·.2)

theorem mem_required : c ∈ required k t ↔
    (c ∈ (created t).names ∧ ∀ p ∈ added t, p.2 ≠ c) ∨ ∃ v ≤ k, (v, c) ∈ added t := by
  simp [required, and_comm]

theorem mem_forbidden : c ∈ forbidden k t ↔ ∃ v ≤ k, (v, c) ∈ dropped t := by
  simp [forbidden, and_comm]

structure Fits (k : Int) (t : TableName) (r : Relation) : Prop where
  required : ∀ c ∈ required k t, r.has c = true
  forbidden : ∀ c ∈ forbidden k t, r.has c = false

/-- The changes of all versions up to `k` have been applied to the tables that exist. -/
structure Applied (k : Int) (d : Database) : Prop where
  fits : ∀ t r, d.tables t = some r → Fits k t r
  submissions : 6 ≤ k → (d.tables .submissions).isSome = true

/-- Every stored version is one up to the sixth, and its changes have been applied. -/
structure Sound (d : Database) : Prop where
  base : Applied 0 d
  stored : ∀ versions, d.versions = some versions → ∀ v ∈ versions, v ≤ 6 ∧ Applied v d

theorem sound_empty : Sound {} where
  base := ⟨fun _ _ hr => (nomatch hr), fun h => absurd h (by decide)⟩
  stored _ hversions := nomatch hversions

theorem required_mono {j k : Int} (h : j ≤ k) : required j t ⊆ required k t := by
  intro c hc
  rw [mem_required] at hc ⊢
  exact hc.imp_right fun ⟨v, hv, hmem⟩ => ⟨v, hv.trans h, hmem⟩

theorem forbidden_mono {j k : Int} (h : j ≤ k) : forbidden j t ⊆ forbidden k t := by
  intro c hc
  rw [mem_forbidden] at hc ⊢
  obtain ⟨v, hv, hmem⟩ := hc
  exact ⟨v, hv.trans h, hmem⟩

theorem Applied.mono {j : Int} (h : Applied k d) (hj : j ≤ k) : Applied j d where
  fits t r hr := ⟨fun c hc => (h.fits t r hr).required c (required_mono hj hc),
    fun c hc => (h.fits t r hr).forbidden c (forbidden_mono hj hc)⟩
  submissions h6 := h.submissions (h6.trans hj)

/-! ## Where the changes lead -/

namespace Relation

theorem eq_of_columns_rows (hcolumns : r.columns = r'.columns) (hrows : r.rows = r'.rows) : r = r' := by
  cases r
  cases r'
  cases hcolumns
  cases hrows
  rfl

def ensure (r : Relation) (col : Column) : Relation := if r.has col.name then r else r.addColumn col

def dropColumns (r : Relation) (cs : List Text) : Relation where
  columns := r.columns.filter (!isOneOf cs ·.name)
  rows := r.rows.map fun row x => if isOneOf cs x then none else row x
  blank row hrow x hx := by
    obtain ⟨old, hold, rfl⟩ := List.mem_map.mp hrow
    dsimp only
    split_ifs with hmem
    · rfl
    · refine r.blank old hold x fun h => hx ?_
      obtain ⟨col, hcol, rfl⟩ := List.mem_map.mp h
      exact List.mem_map.mpr ⟨col, List.mem_filter.mpr ⟨hcol, by simpa using hmem⟩, rfl⟩

theorem ensure_of_has (h : r.has col.name = true) : r.ensure col = r := by rw [ensure, if_pos h]

theorem ensure_addColumn (h : r.has col.name = false) : (r.addColumn col).ensure col = r.ensure col := by
  rw [ensure_of_has (has_addColumn.mpr (Or.inr rfl)), ensure, h, if_neg Bool.false_ne_true]

theorem dropColumns_dropColumn {cs : List Text} (h : c ∈ cs) :
    (r.dropColumn c).dropColumns cs = r.dropColumns cs := by
  apply eq_of_columns_rows
  · simp only [dropColumns, dropColumn, List.filter_filter]
    apply List.filter_congr
    intro col _
    by_cases hcol : isOneOf cs col.name = true
    · simp [hcol]
    · have hne : col.name ≠ c := fun heq => hcol (isOneOf_iff.mpr (heq ▸ h))
      simp [hcol, hne]
  · simp only [dropColumns, dropColumn, List.map_map]
    refine List.map_congr_left fun row _ => funext fun x => ?_
    by_cases hx : isOneOf cs x = true
    · simp [hx]
    · have hne : x ≠ c := fun heq => hx (isOneOf_iff.mpr (heq ▸ h))
      simp [hx, hne]

theorem dropColumns_eq_self {cs : List Text} (h : ∀ c ∈ cs, r.has c = false) : r.dropColumns cs = r := by
  have hnot {x : Text} (hx : x ∈ cs) : x ∉ r.names := fun hmem => by
    have hhas : r.has x = true := by simpa [has] using hmem
    rw [h x hx] at hhas
    cases hhas
  apply eq_of_columns_rows
  · apply List.filter_eq_self.mpr
    intro col hcol
    have hmem : col.name ∈ r.names := List.mem_map.mpr ⟨col, hcol, rfl⟩
    simpa using fun hcs => hnot (isOneOf_iff.mp hcs) hmem
  · refine (List.map_congr_left fun row hrow => funext fun x => ?_).trans (List.map_id _)
    simp only [id_eq, ite_eq_right_iff]
    exact fun hx => (r.blank row hrow x (hnot (isOneOf_iff.mp hx))).symm

end Relation

/-- A table once all versions have changed it. -/
def finish (t : TableName) (r : Relation) : Relation :=
  match t with
  | .tasks => r.dropColumns legacyColumns
  | .submissions => (r.ensure compilerOutput).ensure subtaskResults
  | .sessions => r.ensure csrfToken
  | _ => r

/-- The tables that a complete run leaves. -/
def target (d : Database) (t : TableName) : Relation := finish t ((d.tables t).getD (created t))

theorem finish_of_fits (h : Fits 6 t r) : finish t r = r := by
  have hadded (v : Int) (c : Text) (hc : (v, c) ∈ added t) : r.has c = true := by
    refine h.required c (mem_required.mpr (Or.inr ⟨v, ?_, hc⟩))
    obtain ⟨-, ⟨rfl, -⟩ | ⟨rfl, -⟩⟩ | ⟨-, rfl, -⟩ := mem_added.mp hc <;> decide
  cases t with
  | tasks =>
      refine Relation.dropColumns_eq_self fun c hc => h.forbidden c ?_
      exact mem_forbidden.mpr ⟨5, by decide, mem_dropped.mpr ⟨rfl, rfl, hc⟩⟩
  | submissions =>
      have hcompiler := hadded 2 compilerOutput.name (by simp [added])
      have hsubtask := hadded 6 subtaskResults.name (by simp [added])
      rw [finish, Relation.ensure_of_has hcompiler, Relation.ensure_of_has hsubtask]
  | sessions => exact Relation.ensure_of_has (hadded 3 csrfToken.name (by simp [added]))
  | users | bookmarks | gradingJobs | subtaskGroups => rfl

/-! ## Growth -/

def HasColumn (d : Database) (t : TableName) (c : Text) : Prop := ∃ r, d.tables t = some r ∧ r.has c = true

def Lacks (d : Database) (t : TableName) (c : Text) : Prop := ∀ r, d.tables t = some r → r.has c = false

/-- What the operations of `db_init` keep, whichever process performs them. -/
structure Grows (d d' : Database) : Prop where
  versions : d.versions.isSome = true → d'.versions.isSome = true
  tables : ∀ t, (d.tables t).isSome = true → (d'.tables t).isSome = true
  has : ∀ t c, c ∉ forbidden 5 t → HasColumn d t c → HasColumn d' t c
  lacks : ∀ t, ∀ c ∈ forbidden 5 t, Lacks d t c → Lacks d' t c
  applied : ∀ k, Applied k d → Applied k d'
  sound : Sound d → Sound d'
  target : target d' = target d
  index : d.queueIndex = true → d'.queueIndex = true

theorem Grows.refl (d : Database) : Grows d d :=
  ⟨id, fun _ => id, fun _ _ _ => id, fun _ _ _ => id, fun _ => id, id, rfl, id⟩

theorem Grows.trans (h : Grows d d') (h' : Grows d' d'') : Grows d d'' where
  versions hv := h'.versions (h.versions hv)
  tables t ht := h'.tables t (h.tables t ht)
  has t c hc hhas := h'.has t c hc (h.has t c hc hhas)
  lacks t c hc hlacks := h'.lacks t c hc (h.lacks t c hc hlacks)
  applied k hk := h'.applied k (h.applied k hk)
  sound hs := h'.sound (h.sound hs)
  target := h'.target.trans h.target
  index hi := h'.index (h.index hi)

/-! ## Layouts -/

theorem layout_has : d.layout.has t c = true ↔ HasColumn d t c := by
  unfold Database.layout Layout.has HasColumn
  cases htable : d.tables t <;> simp [htable, Relation.has]

theorem layout_lacks : d.layout.has t c = false ↔ Lacks d t c := by
  unfold Database.layout Layout.has Lacks
  cases htable : d.tables t <;> simp [htable, Relation.has]

/-- What a layout that was read earlier still says about the file. -/
structure Trails (l : Layout) (d : Database) : Prop where
  has : ∀ t c, c ∉ forbidden 5 t → l.has t c = true → HasColumn d t c
  lacks : ∀ t, ∀ c ∈ forbidden 5 t, l.has t c = false → Lacks d t c

theorem trails_layout (d : Database) : Trails d.layout d :=
  ⟨fun _ _ _ => layout_has.mp, fun _ _ _ => layout_lacks.mp⟩

theorem Trails.grows {l : Layout} (h : Trails l d) (hd : Grows d d') : Trails l d' where
  has t c hc hhas := hd.has t c hc (h.has t c hc hhas)
  lacks t c hc hlacks := hd.lacks t c hc (h.lacks t c hc hlacks)

/-! ## Changes of one table -/

/-- A table that takes the place of another, or of none. -/
theorem grows_setTable (hfits : ∀ k, Applied k d → Fits k t r')
    (hfinish : finish t r' = finish t ((d.tables t).getD (created t)))
    (hhas : ∀ c ∉ forbidden 5 t, HasColumn d t c → r'.has c = true)
    (hlacks : ∀ c ∈ forbidden 5 t, Lacks d t c → r'.has c = false) : Grows d (d.setTable t r') := by
  have hself := d.tables_setTable_self t r'
  have hother {t' : TableName} (h : t' ≠ t) := d.tables_setTable_of_ne h r'
  have htables (t' : TableName) (h : (d.tables t').isSome = true) :
      ((d.setTable t r').tables t').isSome = true := by
    by_cases ht : t' = t
    · rw [ht, hself]
      rfl
    · rwa [hother ht]
  have happlied (k : Int) (h : Applied k d) : Applied k (d.setTable t r') := by
    refine ⟨fun t' r₁ hr₁ => ?_, fun h6 => htables _ (h.submissions h6)⟩
    by_cases ht : t' = t
    · subst ht
      rw [hself] at hr₁
      cases hr₁
      exact hfits k h
    · exact h.fits t' r₁ (hother ht ▸ hr₁)
  refine ⟨id, htables, fun t' c hc h => ?_, fun t' c hc h => ?_, happlied, fun h => ?_,
    funext fun t' => ?_, id⟩
  · by_cases ht : t' = t
    · subst ht
      exact ⟨r', hself, hhas c hc h⟩
    · obtain ⟨r₁, hr₁, hhas⟩ := h
      exact ⟨r₁, (hother ht).trans hr₁, hhas⟩
  · intro r₁ hr₁
    by_cases ht : t' = t
    · subst ht
      rw [hself] at hr₁
      cases hr₁
      exact hlacks c hc h
    · exact h r₁ (hother ht ▸ hr₁)
  · exact ⟨happlied 0 h.base, fun vs hvs v hv => ⟨(h.stored vs hvs v hv).1, happlied v (h.stored vs hvs v hv).2⟩⟩
  · by_cases ht : t' = t
    · subst ht
      rw [target, hself]
      exact hfinish
    · rw [target, hother ht, target]

/-- The tables stay as they are. -/
theorem grows_of_tables (htables : d'.tables = d.tables)
    (hindex : d.queueIndex = true → d'.queueIndex = true)
    (hversions : d.versions.isSome = true → d'.versions.isSome = true)
    (hstored : Sound d → ∀ versions, d'.versions = some versions → ∀ v ∈ versions, v ≤ 6 ∧ Applied v d) :
    Grows d d' := by
  have happlied (k : Int) (h : Applied k d) : Applied k d' :=
    ⟨by rw [htables]; exact h.fits, by rw [htables]; exact h.submissions⟩
  refine ⟨hversions, fun t h => by rwa [htables], fun t c _ h => ?_, fun t c _ h => ?_, happlied,
    fun h => ⟨happlied 0 h.base, fun versions hv v hmem => ?_⟩, ?_, hindex⟩
  · rwa [HasColumn, htables]
  · rwa [Lacks, htables]
  · exact ⟨(hstored h versions hv v hmem).1, happlied v (hstored h versions hv v hmem).2⟩
  · funext t
    rw [target, htables, target]

/-! ## The tables that are created -/

theorem legacy_not_created : ∀ c ∈ legacyColumns, (created .tasks).has c = false := by
  have h : legacyColumns.all (fun c => !(created .tasks).has c) = true := by decide
  simpa using h

theorem has_of_mem_names (h : c ∈ r.names) : r.has c = true := by simpa [Relation.has] using h

theorem forbidden_eq_nil (h : t ≠ .tasks) : forbidden k t = [] := by
  cases t with
  | tasks => exact absurd rfl h
  | users | submissions | sessions | bookmarks | gradingJobs | subtaskGroups => rfl

theorem mem_legacyColumns : c ∈ forbidden 5 .tasks ↔ c ∈ legacyColumns := by
  simp [mem_forbidden, dropped]

/-- A table is created with all that was added to it later, but for the results of the subtasks. -/
theorem added_created (h : (v, c) ∈ added t) : (created t).has c = true ∨ v = 6 ∧ t = .submissions := by
  obtain ⟨rfl, ⟨-, rfl⟩ | ⟨rfl, -⟩⟩ | ⟨rfl, -, rfl⟩ := mem_added.mp h
  · exact Or.inl (by decide)
  · exact Or.inr ⟨rfl, rfl⟩
  · exact Or.inl (by decide)

theorem fits_created (h : ¬(6 ≤ k ∧ t = .submissions)) : Fits k t (created t) := by
  constructor
  · intro c hc
    obtain ⟨hc, -⟩ | ⟨v, hv, hmem⟩ := mem_required.mp hc
    · exact has_of_mem_names hc
    · obtain hhas | ⟨rfl, ht⟩ := added_created hmem
      · exact hhas
      · exact absurd ⟨hv, ht⟩ h
  · intro c hc
    by_cases ht : t = .tasks
    · subst ht
      obtain ⟨v, -, hmem⟩ := mem_forbidden.mp hc
      exact legacy_not_created c (mem_dropped.mp hmem).2.2
    · rw [forbidden_eq_nil ht] at hc
      cases hc

theorem grows_created (h : d.tables t = none) : Grows d (d.setTable t (created t)) := by
  refine grows_setTable (fun k hk => fits_created ?_) (by rw [h, Option.getD_none]) ?_ ?_
  · rintro ⟨h6, rfl⟩
    have hsome := hk.submissions h6
    rw [h] at hsome
    cases hsome
  · rintro c - ⟨r, hr, -⟩
    rw [h] at hr
    cases hr
  · intro c hc _
    by_cases ht : t = .tasks
    · subst ht
      exact legacy_not_created c (mem_legacyColumns.mp hc)
    · rw [forbidden_eq_nil ht] at hc
      cases hc

theorem grows_addColumn (hr : d.tables t = some r) (ht : t ≠ .tasks)
    (hfinish : finish t (r.addColumn col) = finish t r) : Grows d (d.setTable t (r.addColumn col)) := by
  refine grows_setTable (fun k hk => ⟨fun c hc => ?_, fun c hc => ?_⟩) (by rw [hfinish, hr, Option.getD_some])
    ?_ ?_
  · exact Relation.has_addColumn.mpr (Or.inl ((hk.fits t r hr).required c hc))
  · rw [forbidden_eq_nil ht] at hc
    cases hc
  · rintro c - ⟨r₁, hr₁, hhas⟩
    rw [hr] at hr₁
    cases hr₁
    exact Relation.has_addColumn.mpr (Or.inl hhas)
  · intro c hc
    rw [forbidden_eq_nil ht] at hc
    cases hc

theorem grows_dropColumn (hr : d.tables .tasks = some r) (hc : c ∈ legacyColumns) :
    Grows d (d.setTable .tasks (r.dropColumn c)) := by
  have hgone {x : Text} (h : r.has x = false) : (r.dropColumn c).has x = false :=
    Bool.eq_false_iff.mpr fun hhas => by simp [h] at hhas
  refine grows_setTable (fun k hk => ⟨fun x hx => ?_, fun x hx => ?_⟩) ?_ ?_ ?_
  · refine Relation.has_dropColumn.mpr ⟨(hk.fits .tasks r hr).required x hx, ?_⟩
    rintro rfl
    obtain ⟨hcreated, -⟩ | ⟨v, -, hmem⟩ := mem_required.mp hx
    · have hhas := has_of_mem_names hcreated
      rw [legacy_not_created x hc] at hhas
      cases hhas
    · cases hmem
  · exact hgone ((hk.fits .tasks r hr).forbidden x hx)
  · rw [hr, Option.getD_some]
    exact Relation.dropColumns_dropColumn hc
  · rintro x hx ⟨r₁, hr₁, hhas⟩
    rw [hr] at hr₁
    cases hr₁
    refine Relation.has_dropColumn.mpr ⟨hhas, ?_⟩
    rintro rfl
    exact hx (mem_legacyColumns.mpr hc)
  · exact fun x _ hlacks => hgone (hlacks r hr)

/-! ## From one version to the next -/

/-- What version `k` changes has been changed. -/
structure Changed (k : Int) (d : Database) : Prop where
  added : ∀ t c, (k, c) ∈ added t → HasColumn d t c
  dropped : ∀ t c, (k, c) ∈ dropped t → Lacks d t c

theorem Applied.next (h : Applied (k - 1) d) (hchanged : Changed k d)
    (hsubmissions : 6 ≤ k → (d.tables .submissions).isSome = true) : Applied k d := by
  refine ⟨fun t r hr => ⟨fun c hc => ?_, fun c hc => ?_⟩, hsubmissions⟩
  · rw [mem_required] at hc
    obtain hbase | ⟨v, hv, hmem⟩ := hc
    · exact (h.fits t r hr).required c (mem_required.mpr (Or.inl hbase))
    · obtain hold | rfl := (Int.lt_or_eq_of_le hv)
      · exact (h.fits t r hr).required c (mem_required.mpr (Or.inr ⟨v, by omega, hmem⟩))
      · obtain ⟨r₁, hr₁, hhas⟩ := hchanged.added t c hmem
        rw [hr] at hr₁
        cases hr₁
        exact hhas
  · obtain ⟨v, hv, hmem⟩ := mem_forbidden.mp hc
    obtain hold | rfl := (Int.lt_or_eq_of_le hv)
    · exact (h.fits t r hr).forbidden c (mem_forbidden.mpr ⟨v, by omega, hmem⟩)
    · exact hchanged.dropped t c hmem r hr

theorem changed_two (h : HasColumn d .submissions compilerOutput.name) : Changed 2 d where
  added t c hc := by
    obtain ⟨rfl, ⟨-, rfl⟩ | ⟨h6, -⟩⟩ | ⟨-, h3, -⟩ := mem_added.mp hc
    · exact h
    all_goals omega
  dropped t c hc := absurd (mem_dropped.mp hc).2.1 (by decide)

theorem changed_three (h : HasColumn d .sessions csrfToken.name) : Changed 3 d where
  added t c hc := by
    obtain ⟨-, ⟨h2, -⟩ | ⟨h6, -⟩⟩ | ⟨rfl, -, rfl⟩ := mem_added.mp hc
    · omega
    · omega
    · exact h
  dropped t c hc := absurd (mem_dropped.mp hc).2.1 (by decide)

theorem changed_of_ne (h2 : k ≠ 2) (h3 : k ≠ 3) (h5 : k ≠ 5) (h6 : k ≠ 6) : Changed k d where
  added t c hc := by
    obtain ⟨-, ⟨h, -⟩ | ⟨h, -⟩⟩ | ⟨-, h, -⟩ := mem_added.mp hc
    all_goals omega
  dropped t c hc := absurd (mem_dropped.mp hc).2.1 h5

theorem changed_five (h : ∀ c ∈ legacyColumns, Lacks d .tasks c) : Changed 5 d where
  added t c hc := by
    obtain ⟨-, ⟨h2, -⟩ | ⟨h6, -⟩⟩ | ⟨-, h3, -⟩ := mem_added.mp hc
    all_goals omega
  dropped t c hc := by
    obtain ⟨rfl, -, hmem⟩ := mem_dropped.mp hc
    exact h c hmem

theorem changed_six (h : HasColumn d .submissions subtaskResults.name) : Changed 6 d where
  added t c hc := by
    obtain ⟨rfl, ⟨h2, -⟩ | ⟨-, rfl⟩⟩ | ⟨-, h3, -⟩ := mem_added.mp hc
    · omega
    · exact h
    · omega
  dropped t c hc := absurd (mem_dropped.mp hc).2.1 (by decide)

end Tle.Schema
