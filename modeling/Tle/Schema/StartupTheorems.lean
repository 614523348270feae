import Tle.Schema.Lemmas.Stages
import Tle.Schema.Lemmas.Versions

/-!
# The grader and the web server starting at the same time
-/

namespace Tle.Schema
open Tle.Lib Tle.Lib.Prog

/-- An alteration of columns that SQLite can carry out. -/
def Operation.Fits (o : Operation) (conn : Connection) : Prop :=
  match o with
  | sql (.addColumn t col) => Lacks conn.1 t col.name
  | sql (.dropColumn t c) => HasColumn conn.1 t c
  | _ => True

inductive Process where
  | grader
  | web
  deriving DecidableEq

/-- Two processes with a connection each. -/
abbrev Startup := System Process Operation (Option Int) Unit Database (Option Layout)

/-- Both processes before their first statement. -/
def startup (d : Database) : Startup := { procs := fun _ => dbInit, own := fun _ => none, store := d }

def turn : Startup → Process → Startup := System.step sem

/-- No process has died, and when both have ended, the tables and the version are those of the sixth. -/
structure Startup.Safe (c : Startup) : Prop where
  alive : ∀ i, c.procs i ≠ .died
  complete : (∀ i, c.procs i = .ret ()) →
    (∀ t, ∀ col ∈ required 6 t, HasColumn c.store t col) ∧
      ∃ versions, c.store.versions = some versions ∧ maxVersion versions = 6

/-- The file has only grown since a layout was read, however old it is. -/
theorem regime_fits : Regime Operation.Fits
    (fun conn conn' => Grows conn.1 conn'.1 ∧ conn'.2 = conn.2) Trails where
  refl conn := ⟨Grows.refl conn.1, rfl⟩
  grows _ _ := And.left
  cache _ _ := And.right
  later _ _ _ hrely hknows := hknows.grows hrely.1
  fresh := trails_layout
  trails _ _ := id
  add _ _ _ _ _ _ hfits := hfits
  drop _ _ _ _ _ _ hfits := hfits

theorem owed_startup {d : Database} (h : Sound d) (turns : List Process) :
    (run turn (startup d) turns).Owed sem AtMostSix StoresSix fun _ => False :=
  System.Owed.run ⟨h.atMostSix, fun _ => restoring_dbInit, Or.inr ⟨.web, leading_dbInit⟩⟩ turns

theorem Complete.hasColumn {d : Database} (h : Complete d) {t : TableName} {c : Text}
    (hc : c ∈ required 6 t) : HasColumn d t c := by
  obtain ⟨r, hr⟩ := Option.isSome_iff_exists.mp (h.tables t)
  exact ⟨r, hr, (h.applied.fits t r hr).required c hc⟩

/-! ## Alterations that come too late -/

theorem reply_of_not_fits {s : Statement} {conn : Connection} (h : ¬(Operation.sql s).Fits conn) :
    (sem (.sql s) conn).2 = none := by
  have hexec : s.exec conn.1 = none := by
    cases s with
    | addColumn t col =>
        simp only [Operation.Fits, Lacks, not_forall, Bool.not_eq_false] at h
        obtain ⟨r, hr, hhas⟩ := h
        simp [Statement.exec, hr, hhas]
    | dropColumn t c =>
        rcases hr : conn.1.tables t with _ | r
        · simp [Statement.exec, hr]
        · have hhas : r.has c = false := Bool.eq_false_iff.mpr fun hhas => h ⟨r, hr, hhas⟩
          simp [Statement.exec, hr, hhas]
    | _ => exact absurd trivial h
  rw [sem_sql_of_error hexec]

theorem strict_execSql (s : Statement) : (execSql s).Strict sem Operation.Fits := by
  refine ⟨fun conn hconn => ?_, fun rc => ?_⟩
  · rw [reply_of_not_fits hconn]
    rfl
  · dsimp only
    split <;> exact trivial

theorem strict_ensureColumn (t : TableName) (col : Column) :
    (ensureColumn t col).Strict sem Operation.Fits := by
  refine ⟨fun d hd => absurd trivial hd, fun rc => ?_⟩
  dsimp only
  split
  · exact trivial
  · exact strict_execSql _

theorem strict_dropColumnIfExists (t : TableName) (c : Text) :
    (dropColumnIfExists t c).Strict sem Operation.Fits := by
  refine ⟨fun d hd => absurd trivial hd, fun rc => ?_⟩
  dsimp only
  split
  · exact strict_execSql _
  · exact trivial

theorem strict_dropLegacyColumns : dropLegacyColumns.Strict sem Operation.Fits :=
  (strict_dropColumnIfExists _ _).bind fun _ => (strict_dropColumnIfExists _ _).bind fun _ =>
    (strict_dropColumnIfExists _ _).bind fun _ => strict_dropColumnIfExists _ _

theorem strict_migrate {v k after : Int} {change : DbProg Unit} (h : change.Strict sem Operation.Fits) :
    (migrate v k change after).Strict sem Operation.Fits := by
  unfold migrate
  split_ifs
  · refine h.bind fun _ => Strict.bind ?_ fun _ => trivial
    exact (strict_execSql _).bind fun _ => strict_execSql _
  · exact trivial

theorem strict_dbInit : dbInit.Strict sem Operation.Fits := by
  unfold dbInit dbInitFrom schemaVersion
  refine (strict_execSql _).bind fun _ => (strict_execSql _).bind fun _ => ?_
  refine (strict_execSql _).bind fun _ => (strict_execSql _).bind fun _ => ?_
  refine Strict.bind ⟨fun d hd => absurd trivial hd, fun rc => trivial⟩ fun v => ?_
  refine (strict_execSql _).bind fun _ => (strict_execSql _).bind fun _ => ?_
  refine (strict_execSql _).bind fun _ => (strict_migrate (strict_ensureColumn _ _)).bind fun _ => ?_
  refine (strict_execSql _).bind fun _ => (strict_migrate (strict_ensureColumn _ _)).bind fun _ => ?_
  refine (strict_execSql _).bind fun _ => (strict_migrate (by exact trivial)).bind fun _ => ?_
  refine (strict_migrate strict_dropLegacyColumns).bind fun _ => ?_
  refine (strict_migrate (strict_ensureColumn _ _)).bind fun _ => (strict_execSql _).bind fun _ => ?_
  exact (strict_execSql _).bind fun _ => strict_execSql _

theorem strict_startup (d : Database) (turns : List Process) (i : Process) :
    ((run turn (startup d) turns).procs i).Strict sem Operation.Fits := by
  have hall : ∀ i, ((run turn (startup d) turns).procs i).Strict sem Operation.Fits :=
    run_keeps (P := fun c : Startup => ∀ i, (c.procs i).Strict sem Operation.Fits)
      (fun _ => strict_dbInit) (fun c i hc => System.strict_step hc i) turns
  exact hall i

theorem fits_of_safe {d : Database} {turns : List Process}
    (h : ∀ pre, pre <+: turns → (run turn (startup d) pre).Safe) :
    ∀ pre i, pre ++ [i] <+: turns → (run turn (startup d) pre).Fits Operation.Fits i := by
  intro pre i hpre
  by_contra hmisfit
  have hdied := System.dies_of_not_fits (strict_startup d pre) hmisfit
  refine (h (pre ++ [i]) hpre).alive i ?_
  rw [run_snoc]
  exact hdied

theorem safe_of_fits {d : Database} (h : Sound d) {turns : List Process}
    (hfits : ∀ pre i, pre ++ [i] <+: turns → (run turn (startup d) pre).Fits Operation.Fits i) :
    ∀ pre, pre <+: turns → (run turn (startup d) pre).Safe := by
  intro pre hpre
  have hsafe (j : Process) : ((run turn (startup d) pre).procs j).Safe sem Operation.Fits
      (fun conn conn' => Grows conn.1 conn'.1 ∧ conn'.2 = conn.2) FileGrows (fun _ conn => Complete conn.1)
      ((run turn (startup d) pre).view j) := by
    refine System.safe_run ?_ ?_ regime_fits.refl ?_ pre ?_ j
    · exact fun _ _ _ hab hbc => ⟨hab.1.trans hbc.1, hbc.2.trans hab.2⟩
    · exact fun _ _ _ hgrows => ⟨hgrows, rfl⟩
    · exact fun _ => dbInit_triple regime_fits _ ⟨h, fun _ hl => nomatch hl⟩
    · exact fun pre' i hpre' => hfits pre' i (hpre'.trans hpre)
  refine ⟨fun i hdied => ?_, fun hret => ⟨fun t col hcol => ?_, ?_⟩⟩
  · have hi := hsafe i
    rw [hdied] at hi
    exact hi
  · have hweb := hsafe .web
    rw [hret .web] at hweb
    exact (hweb _ (regime_fits.refl _)).hasColumn hcol
  · have howed := owed_startup h pre
    obtain hsix | ⟨i, hi⟩ := howed.owed
    · exact hsix.maxVersion howed.kept
    · rw [hret i] at hi
      exact hi.elim

/-- Two processes that migrate one file do not hurt each other exactly as long as neither adds a column that
the other has added, or drops one that the other has dropped, since it last read the layout of the tables. -/
theorem startup_safe_iff {d : Database} (h : Sound d) (turns : List Process) :
    (∀ pre, pre <+: turns → (run turn (startup d) pre).Safe) ↔
      ∀ pre i, pre ++ [i] <+: turns → (run turn (startup d) pre).Fits Operation.Fits i :=
  ⟨fits_of_safe, safe_of_fits h⟩

-- a lookup in a layout that was read before the grader has added the column
example : (run turn (startup {})
    (List.replicate 25 .grader ++ List.replicate 10 .web ++ [.grader, .web, .web])).procs .web = .died := rfl

/-- The first statements change nothing. -/
theorem startup_safe_begins : (run turn (startup {}) [.grader, .web]).Safe := by
  refine (startup_safe_iff sound_empty [.grader, .web]).mpr (fun pre i hpre o next hp => ?_) _
    (List.prefix_refl _)
  obtain ⟨rest, hrest⟩ := hpre
  rcases pre with _ | ⟨first, _ | ⟨second, pre⟩⟩
  · cases hp
    exact trivial
  · simp only [List.cons_append, List.nil_append, List.cons.injEq] at hrest
    obtain ⟨rfl, rfl, -⟩ := hrest
    cases hp
    exact trivial
  · simp at hrest

/-- The grader has found the results of the subtasks missing, the web server finds them missing as well,
and both add the column. -/
def bothAdd : List Process :=
  List.replicate 25 .grader ++ List.replicate 11 .web ++ [.grader, .web]

theorem startup_not_safe : ¬∀ (d : Database) (turns : List Process), Sound d →
    ∀ pre, pre <+: turns → (run turn (startup d) pre).Safe := by
  intro h
  have hdied : (run turn (startup {}) bothAdd).procs .web = .died := rfl
  exact (h {} bothAdd sound_empty bothAdd (List.prefix_refl _)).alive .web hdied

end Tle.Schema
