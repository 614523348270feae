import Tle.Grade.OutcomeTheorems

/-!
# Accepted runs and composed scores
-/

namespace Tle.Grade
open Tle.Lib

variable {task : Task} {w : Nat → CaseWorld} {tmp : Tmp} {r : Run} {s : Stat} {file raw : Text} {k n : Nat}

/-! ## The limits of an accepted run -/

namespace ScoreRun

/-- The script exits with another status than 0, is killed, or leaves no `score=` line. -/
def Fails (script : ScoreRun) : Prop :=
  script = failed ∨ ∃ written, script = done written ∧ written.bind scoreLine = none

theorem runTaskScoreScript_fails {script : ScoreRun} (h : script.Fails) : runTaskScoreScript script = (-1, none) := by
  rcases h with rfl | ⟨written, rfl, hnone⟩
  · rfl
  · simp only [runTaskScoreScript, hnone]

theorem runTaskScoreScript_writes {script : ScoreRun} {score : Double} (h : script.Writes score) :
    runTaskScoreScript script = (0, some score) := by
  obtain ⟨written, rfl, hline⟩ := h
  simp only [runTaskScoreScript, hline]

end ScoreRun

/-- Without the script, result and score of the cases stay; a failing one gives its own result and the score
0; a number it writes is cut to the range from 0 to `max_score`. -/
structure Composed (task : Task) (script : ScoreRun) (result : Text) (total : Rat) (final : Text × Double) : Prop where
  absent : script = .absent → final = (result, .finite total)
  failed : script.Fails → final = ("internal error:score script failed".toList, .finite 0)
  written : ∀ q, script.Writes (.finite q) → final = (result, .finite (max 0 (min task.maxScore q)))

theorem clampScore_finite {maxScore : Rat} (hmax : 0 ≤ maxScore) (q : Rat) :
    clampScore maxScore (.finite q) = .finite (max 0 (min maxScore q)) := by
  simp only [clampScore, Double.finite.injEq]
  split_ifs with hneg hover
  · rw [max_eq_left (min_le_of_right_le hneg.le)]
  · rw [min_eq_left (le_of_lt hover), max_eq_right hmax]
  · rw [min_eq_right (not_lt.mp hover), max_eq_right (not_lt.mp hneg)]

theorem customScore_fails {script : ScoreRun} (h : script.Fails) (task : Task) (result : Text) (total : Rat) :
    customScore task script result total = ("internal error:score script failed".toList, .finite total) := by
  rw [customScore, ScoreRun.runTaskScoreScript_fails h]
  rfl

theorem customScore_writes {script : ScoreRun} {score : Double} (h : script.Writes score) (task : Task)
    (result : Text) (total : Rat) :
    customScore task script result total = (result, clampScore task.maxScore score) := by
  rw [customScore, ScoreRun.runTaskScoreScript_writes h]
  rfl

/-- A failing script leaves the score of the cases as it is. -/
theorem composed_iff (task : Task) (hmax : 0 ≤ task.maxScore) (script : ScoreRun) (result : Text) (total : Rat) :
    Composed task script result total (customScore task script result total) ↔ (script.Fails → total = 0) := by
  constructor
  · intro h hfails
    have hfailed := h.failed hfails
    rw [customScore_fails hfails, Prod.mk.injEq, Double.finite.injEq] at hfailed
    exact hfailed.2
  · intro hzero
    refine ⟨?_, fun hfails => ?_, fun q hwrites => ?_⟩
    · rintro rfl
      rfl
    · rw [customScore_fails hfails, hzero hfails]
    · rw [customScore_writes hwrites, clampScore_finite hmax]

theorem composed_written : Composed aTask (.done (some "score=250".toList)) "accepted!".toList 100
    (customScore aTask (.done (some "score=250".toList)) "accepted!".toList 100) := by
  refine (composed_iff aTask (by decide) _ _ _).mpr ?_
  rintro (hfailed | ⟨written, hdone, hnone⟩)
  · cases hfailed
  · cases hdone
    exact absurd hnone (by decide +kernel)

/-- The script fails after all cases have passed. -/
theorem not_composed : ¬∀ (task : Task), 0 ≤ task.maxScore → ∀ (script : ScoreRun) (result : Text) (total : Rat),
    Composed task script result total (customScore task script result total) := by
  intro h
  have hfailed := (h aTask (by decide) .failed "accepted!".toList 100).failed (Or.inl rfl)
  rw [customScore_fails (Or.inl rfl), Prod.mk.injEq, Double.finite.injEq] at hfailed
  exact absurd hfailed.2 (by decide)

end Tle.Grade
