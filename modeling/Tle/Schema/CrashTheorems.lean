import Tle.Schema.Lemmas.Stages
import Tle.Schema.Lemmas.Versions
import Mathlib.Data.List.Forall2

/-!
# A start that is cut off, again and again
-/

namespace Tle.Schema
open Tle.Lib Tle.Lib.Prog

variable {d d' : Database} {t : TableName} {r r' : Relation}

/-- The rows of a table are there again, with all cells but those of the dropped columns. -/
structure RowsKept (t : TableName) (r r' : Relation) : Prop where
  names : ∀ c ∈ r.names, c ∈ r'.names ∨ (t = .tasks ∧ c ∈ legacyColumns)
  rows : List.Forall₂ (fun row row' => ∀ c ∈ r'.names, row' c = row c) r.rows r'.rows

theorem ensure_rows (r : Relation) (col : Column) : (r.ensure col).rows = r.rows := by
  unfold Relation.ensure
  split <;> rfl

theorem mem_names_ensure {c : Text} {col : Column} (h : c ∈ r.names) : c ∈ (r.ensure col).names := by
  unfold Relation.ensure
  split
  · exact h
  · rw [Relation.names_addColumn]
    exact List.mem_append_left _ h

theorem rowsKept_of_rows (hnames : ∀ c ∈ r.names, c ∈ r'.names) (hrows : r'.rows = r.rows) :
    RowsKept t r r' := by
  refine ⟨fun c hc => Or.inl (hnames c hc), ?_⟩
  rw [hrows]
  exact List.forall₂_same.mpr fun row _ c _ => rfl

theorem rowsKept_finish (t : TableName) (r : Relation) : RowsKept t r (finish t r) := by
  cases t with
  | tasks =>
      refine ⟨fun c hc => ?_, ?_⟩
      · by_cases hlegacy : isOneOf legacyColumns c = true
        · exact Or.inr ⟨rfl, isOneOf_iff.mp hlegacy⟩
        · obtain ⟨col, hcol, rfl⟩ := List.mem_map.mp hc
          exact Or.inl (List.mem_map.mpr ⟨col, List.mem_filter.mpr ⟨hcol, by simpa using hlegacy⟩, rfl⟩)
      · refine List.forall₂_map_right_iff.mpr (List.forall₂_same.mpr fun row _ c hc => ?_)
        obtain ⟨col, hcol, rfl⟩ := List.mem_map.mp hc
        have hkept : ¬isOneOf legacyColumns col.name = true := by simpa using (List.mem_filter.mp hcol).2
        exact if_neg hkept
  | submissions =>
      refine rowsKept_of_rows (fun c hc => mem_names_ensure (mem_names_ensure hc)) ?_
      exact (ensure_rows _ _).trans (ensure_rows _ _)
  | sessions => exact rowsKept_of_rows (fun c hc => mem_names_ensure hc) (ensure_rows _ _)
  | users | bookmarks | gradingJobs | subtaskGroups => exact rowsKept_of_rows (fun c hc => hc) rfl

/-! ## Runs of one process -/

/-- Without others the cache is never an old one. -/
theorem regime_alone : Regime (fun _ _ => True) Eq fun l d => l = d.layout where
  refl _ := rfl
  grows conn _ h := h ▸ Grows.refl conn.1
  cache _ _ h := h ▸ rfl
  later _ _ _ h hknows := h ▸ hknows
  fresh _ := rfl
  trails _ d h := h ▸ trails_layout d
  add _ _ _ _ hknows hlacks _ := layout_lacks.mp (hknows ▸ hlacks)
  drop _ _ _ _ hknows hhas _ := layout_has.mp (hknows ▸ hhas)

/-- A new connection. -/
def opened (d : Database) : Connection := (d, none)

theorem at_opened {knows : Layout → Database → Prop} (h : Sound d) : At knows Sound (opened d) :=
  ⟨h, fun _ hl => nomatch hl⟩

/-- A run of `db_init` that is cut off after `n` operations. -/
def cutOffRun (d : Database) (n : Nat) : Database := (dbInit.cutOff sem (opened d) n).1

/-- A run of `db_init` to the end. -/
def completeRun (d : Database) : Option Database := (dbInit.eval sem (opened d)).map fun r => r.2.1

theorem grows_cutOffRun (h : Sound d) (n : Nat) : Grows d (cutOffRun d n) := by
  have hrefl (conn : Connection) : FileGrows conn conn := Grows.refl conn.1
  have htrans (a b c : Connection) (hab : FileGrows a b) (hbc : FileGrows b c) : FileGrows a c := hab.trans hbc
  exact (dbInit_triple regime_alone (opened d) (at_opened h)).cutOff hrefl htrans n

theorem grows_cutOffRuns (h : Sound d) (cuts : List Nat) : Grows d (run cutOffRun d cuts) := by
  have hboth : Sound (run cutOffRun d cuts) ∧ Grows d (run cutOffRun d cuts) :=
    run_keeps (P := fun d' => Sound d' ∧ Grows d d') ⟨h, Grows.refl d⟩
      (fun d' n hd' => ⟨(grows_cutOffRun hd'.1 n).sound hd'.1, hd'.2.trans (grows_cutOffRun hd'.1 n)⟩) cuts
  exact hboth.2

theorem Complete.tables_eq (h : Complete d) (t : TableName) : d.tables t = some (target d t) := by
  obtain ⟨r, hr⟩ := Option.isSome_iff_exists.mp (h.tables t)
  rw [target, hr, Option.getD_some, finish_of_fits (h.applied.fits t r hr)]

/-- A run that is not cut off ends with the tables and the version of the sixth. -/
theorem completeRun_eq (h : Sound d) : ∃ e, completeRun d = some e ∧
    (∀ t, e.tables t = some (target d t)) ∧ e.queueIndex = true ∧
      ∃ versions, e.versions = some versions ∧ maxVersion versions = 6 := by
  have halone : Stable Eq fun conn : Connection => target conn.1 = target d := fun _ _ hconn htarget => hconn ▸ htarget
  have hgrows : Stable FileGrows fun conn => target conn.1 = target d :=
    fun _ _ hd htarget => hd.target.trans htarget
  have hsafe := (dbInit_triple regime_alone (opened d) (at_opened h)).frame halone hgrows rfl
  obtain ⟨⟨⟩, e, heval, hcomplete, htarget⟩ := hsafe.eval
  obtain ⟨hle, hsix⟩ := Leads.eval sem restoring_dbInit h.atMostSix (Or.inr leading_dbInit) heval
  exact ⟨e.1, by rw [completeRun, heval, Option.map_some], fun t => by rw [hcomplete.tables_eq, htarget],
    hcomplete.index, hsix.maxVersion hle⟩

/-- However often `db_init` is cut off: a run that ends leaves what it would have left without the cuts, and
no row is lost. -/
theorem survives_cuts (h : Sound d) (cuts : List Nat) : ∃ e f,
    completeRun (run cutOffRun d cuts) = some e ∧ completeRun d = some f ∧
      e.tables = f.tables ∧ e.queueIndex = f.queueIndex ∧
      (∃ versions, e.versions = some versions ∧ maxVersion versions = 6) ∧
      (∃ versions, f.versions = some versions ∧ maxVersion versions = 6) ∧
      ∀ t r, d.tables t = some r → ∃ r', e.tables t = some r' ∧ RowsKept t r r' := by
  have hgrows := grows_cutOffRuns h cuts
  obtain ⟨e, he, hetables, heindex, heversion⟩ := completeRun_eq (hgrows.sound h)
  obtain ⟨f, hf, hftables, hfindex, hfversion⟩ := completeRun_eq h
  refine ⟨e, f, he, hf, funext fun t => ?_, heindex.trans hfindex.symm, heversion, hfversion,
    fun t r hr => ⟨finish t r, ?_, rowsKept_finish t r⟩⟩
  · rw [hetables, hftables, hgrows.target]
  · rw [hetables, hgrows.target, target, hr, Option.getD_some]

theorem survives_cuts_empty : ∃ e f,
    completeRun (run cutOffRun {} [9, 20]) = some e ∧ completeRun {} = some f ∧
      e.tables = f.tables ∧ e.queueIndex = f.queueIndex ∧
      (∃ versions, e.versions = some versions ∧ maxVersion versions = 6) ∧
      (∃ versions, f.versions = some versions ∧ maxVersion versions = 6) ∧
      ∀ t r, ({} : Database).tables t = some r → ∃ r', e.tables t = some r' ∧ RowsKept t r r' :=
  survives_cuts sound_empty [9, 20]

end Tle.Schema
