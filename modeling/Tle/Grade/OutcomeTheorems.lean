import Mathlib.Algebra.Order.Field.Basic
import Mathlib.Algebra.Order.BigOperators.Group.List
import Tle.Grade.Lemmas.Markers
import Tle.Grade.Lemmas.Named
import Tle.Grade.Run
import Tle.Grade.ScoreTheorems

/-!
# What a run of `grade` stores
-/

namespace Tle.Grade
open Tle.Lib

variable {task : Task} {groups : List Group} {raws : Nat → Option Text} {k n : Nat} {r : Run}

/-! ## The range of the score -/

def InRange (task : Task) (score : Double) : Prop :=
  ∃ q, score = .finite q ∧ 0 ≤ q ∧ q ≤ task.maxScore

/-- The number of a `score` line of a judge script. -/
def scoreEntry (line : Text) : Option Double :=
  match line.dropWhile (· ≠ '=') with
  | [] => none
  | _ :: value =>
      if trimLine (line.takeWhile (· ≠ '=')) = "score".toList then some (strtod (trimLine value)) else none

/-- The number on the last `score` line, 0 without one. -/
def judgeScore (written : Text) : Double :=
  ((lines written).filterMap scoreEntry).getLast?.getD (.finite 0)

/-- A run that reaches the loop over the cases. -/
structure Run.ReachesCases (r : Run) (task : Task) : Prop where
  prepared : r.prepared = true
  builtin : task.comparison ≠ "output_only".toList
  judge : r.judge = .absent
  compiled : ∃ compilerOutput, compileStage r.compileScript r.compiles r.diagnostic = some (true, compilerOutput)

/-- A run whose judge script leaves a result file. -/
structure Run.Judged (r : Run) (task : Task) (written : Text) : Prop where
  prepared : r.prepared = true
  builtin : task.comparison ≠ "output_only".toList
  judge : r.judge = .done (some written)

/-- `script/score` succeeds and writes this number. -/
def ScoreRun.Writes (script : ScoreRun) (score : Double) : Prop :=
  ∃ written, script = done written ∧ written.bind scoreLine = some score

/-- A run that stores the sum of the groups that no case has marked. -/
structure Run.AddsGroups (r : Run) (task : Task) : Prop extends r.ReachesCases task where
  groups : r.groups ≠ []
  marks : r.marksAllocated = true
  fails : ∃ k, 1 ≤ k ∧ k ≤ task.countCases ∧ rawResult task r.cases r.tmp k ≠ none
  script : ∀ score, ¬r.scoreScript.Writes score

/-- The groups that no failing case marks. -/
def Run.spared (r : Run) (task : Task) : List Group :=
  r.groups.filter fun g => !groupFailed (rawResult task r.cases r.tmp) task.countCases g

/-- The scores that nothing cuts: the number a judge script writes, and the sum of the groups that are
spared. -/
structure Run.ScoresFit (r : Run) (task : Task) : Prop where
  judged : ∀ written, r.Judged task written → InRange task (judgeScore written)
  added : r.AddsGroups task → 0 ≤ ((r.spared task).map Group.score).sum ∧
    ((r.spared task).map Group.score).sum ≤ task.maxScore

/-- The number of `script/score`, if it writes one, is finite. -/
def Run.FiniteScore (r : Run) : Prop :=
  ∀ written score, r.scoreScript = .done (some written) → scoreLine written = some score →
    ∃ q, score = .finite q

/-! ### Each path -/

theorem InRange.zero (hmax : 0 ≤ task.maxScore) : InRange task (.finite 0) := ⟨0, rfl, le_refl 0, hmax⟩

theorem InRange.maxScore (hmax : 0 ≤ task.maxScore) : InRange task (.finite task.maxScore) :=
  ⟨task.maxScore, rfl, hmax, le_refl _⟩

theorem readLine_score (files : Text → Option Text) (r : JudgeReport) (line : Text) :
    (r.readLine files line).score = (scoreEntry line).getD r.score := by
  unfold JudgeReport.readLine scoreEntry
  cases line.dropWhile (· ≠ '=') with
  | nil => rfl
  | cons c value =>
      have hresult : "result".toList ≠ "score".toList := by decide
      dsimp only
      generalize trimLine (line.takeWhile (· ≠ '=')) = key
      split_ifs with hkey hkey'
      · exact absurd (hkey.symm.trans hkey') hresult
      all_goals rfl

theorem judgeReport_score (files : Text → Option Text) (written : Text) :
    (judgeReport files written).score = judgeScore written := by
  have hfold : ∀ (ls : List Text) (r : JudgeReport), (ls.foldl (JudgeReport.readLine files) r).score =
      (ls.filterMap scoreEntry).getLast?.getD r.score := by
    intro ls
    induction ls with
    | nil => exact fun _ => rfl
    | cons line ls ih =>
        intro r
        rw [List.foldl_cons, ih, readLine_score]
        cases hentry : scoreEntry line with
        | none => simp [hentry]
        | some score => simp [hentry, List.getLast?_cons]
  exact hfold (lines written) {}

theorem clampScore_inRange (hmax : 0 ≤ task.maxScore) (q : Rat) :
    InRange task (clampScore task.maxScore (.finite q)) := by
  refine ⟨_, rfl, ?_⟩
  split_ifs with hneg hover
  · exact ⟨le_refl 0, hmax⟩
  · exact ⟨hmax, le_refl _⟩
  · exact ⟨not_lt.mp hneg, not_lt.mp hover⟩

theorem customScore_written (hmax : 0 ≤ task.maxScore) (hfinite : r.FiniteScore) {score : Double}
    (hwrites : r.scoreScript.Writes score) (result : Text) (total : Rat) :
    InRange task (customScore task r.scoreScript result total).2 := by
  obtain ⟨written, hscript, hline⟩ := hwrites
  obtain ⟨written, rfl, hline⟩ := Option.bind_eq_some_iff.mp hline
  obtain ⟨q, rfl⟩ := hfinite written score hscript hline
  simpa [customScore, runTaskScoreScript, hscript, hline] using clampScore_inRange hmax q

theorem customScore_kept {script : ScoreRun} (h : ∀ score, ¬script.Writes score) (result : Text) (total : Rat) :
    (customScore task script result total).2 = .finite total := by
  cases script with
  | absent => rfl
  | failed => rfl
  | done written =>
      have hnone : written.bind scoreLine = none := by
        by_contra hline
        obtain ⟨score, hline⟩ := Option.ne_none_iff_exists'.mp hline
        exact h score ⟨written, rfl, hline⟩
      simp only [customScore, runTaskScoreScript, hnone]

/-- The share of the cases passed is a share of `max_score`. -/
theorem share_inRange (hmax : 0 ≤ task.maxScore) {passed : Nat} (hle : passed ≤ task.countCases) :
    InRange task (.finite (task.maxScore * passed / task.countCases)) := by
  refine ⟨_, rfl, ?_, ?_⟩
  · exact div_nonneg (mul_nonneg hmax (Nat.cast_nonneg passed)) (Nat.cast_nonneg _)
  · refine div_le_of_le_mul₀ (Nat.cast_nonneg _) hmax ?_
    exact mul_le_mul_of_nonneg_left (Nat.cast_le.mpr hle) hmax

theorem countP_casesUpTo_le (p : Nat → Bool) : (casesUpTo n).countP p ≤ n := by
  have hlength : (casesUpTo n).length = n := List.length_range' ..
  exact List.countP_le_length.trans_eq hlength

theorem gradeCases_spared (h : ∃ k, 1 ≤ k ∧ k ≤ task.countCases ∧ rawResult task r.cases r.tmp k ≠ none)
    (hgroups : r.groups ≠ []) :
    (gradeCases task r.firstGroups r.secondGroups (rawResult task r.cases r.tmp)).2.1 =
      ((r.spared task).map Group.score).sum := by
  obtain ⟨k, hpos, hle, hfails⟩ := h
  have hfirst : (casesUpTo task.countCases).findSome? (rawResult task r.cases r.tmp) ≠ none :=
    fun hnone => hfails (findSome?_casesUpTo_eq_none.mp hnone k hpos hle)
  obtain ⟨raw, hraw⟩ := Option.ne_none_iff_exists'.mp hfirst
  rw [(gradeCases_failed r.firstGroups r.secondGroups hraw).2]
  exact if_neg hgroups

/-- Where no groups are added, the cases earn a share of `max_score`. -/
theorem gradeCases_inRange (hmax : 0 ≤ task.maxScore) (h : r.groups = [] ∨
      ∀ k, 1 ≤ k → k ≤ task.countCases → rawResult task r.cases r.tmp k = none) :
    InRange task (.finite
      (gradeCases task r.firstGroups r.secondGroups (rawResult task r.cases r.tmp)).2.1) := by
  cases hfail : (casesUpTo task.countCases).findSome? (rawResult task r.cases r.tmp) with
  | none =>
      rw [(gradeCases_passed _ _ (findSome?_casesUpTo_eq_none.mp hfail)).2]
      exact .maxScore hmax
  | some raw =>
      have hgroups : r.groups = [] := h.resolve_right fun hpassed => by
        rw [findSome?_casesUpTo_eq_none.mpr hpassed] at hfail
        cases hfail
      rw [(gradeCases_failed _ _ hfail).2]
      exact if_pos hgroups ▸ share_inRange hmax (countP_casesUpTo_le _)

/-! ### All paths -/

theorem gradeOutputOnly_inRange (hmax : 0 ≤ task.maxScore) {answer : Option Text} {writable : Bool}
    {code result : Text} {score : Rat}
    (h : gradeOutputOnly task answer writable code = some (result, score)) :
    InRange task (.finite score) := by
  have hscore : score = task.maxScore ∨ score = 0 := by
    unfold gradeOutputOnly at h
    split at h
    · cases h
    · cases h
      exact ite_eq_or_eq _ _ _
  obtain rfl | rfl := hscore
  · exact .maxScore hmax
  · exact .zero hmax

theorem grade_judged {written : Text} (h : r.Judged task written) :
    grade task r = some (judgeReport r.files written).outcome := by
  unfold grade
  rw [h.prepared, if_neg h.builtin, h.judge]
  rfl

theorem grade_evaluated {compilerOutput : Option Text} (hprepared : r.prepared = true)
    (houtput : task.comparison ≠ "output_only".toList) (hjudge : r.judge = .absent)
    (hcompiled : compileStage r.compileScript r.compiles r.diagnostic = some (true, compilerOutput)) :
    grade task r = evaluate task r compilerOutput := by
  unfold grade
  rw [hprepared, if_neg houtput, hjudge, hcompiled]
  rfl

theorem grade_added (h : r.AddsGroups task) : ∃ out, grade task r = some out ∧
    out.score = .finite ((r.spared task).map Group.score).sum := by
  obtain ⟨compilerOutput, hcompiled⟩ := h.compiled
  rw [grade_evaluated h.prepared h.builtin h.judge hcompiled, evaluate_eq,
    if_neg (fun hnone => by simp [h.marks] at hnone)]
  refine ⟨_, rfl, (customScore_kept h.script _ _).trans ?_⟩
  exact congrArg Double.finite (gradeCases_spared h.fails h.groups)

theorem evaluate_inRange (hmax : 0 ≤ task.maxScore) (hfinite : r.FiniteScore) (hcases : r.ReachesCases task)
    (hfit : r.ScoresFit task) {compilerOutput : Option Text} {out : Outcome}
    (h : evaluate task r compilerOutput = some out) : InRange task out.score := by
  rw [evaluate_eq] at h
  split_ifs at h with hmarks
  cases h
  by_cases hwrites : ∃ score, r.scoreScript.Writes score
  · obtain ⟨score, hwrites⟩ := hwrites
    exact customScore_written hmax hfinite hwrites _ _
  · have hkept := not_exists.mp hwrites
    dsimp only
    rw [customScore_kept hkept]
    by_cases hplain : r.groups = [] ∨
        ∀ k, 1 ≤ k → k ≤ task.countCases → rawResult task r.cases r.tmp k = none
    · exact gradeCases_inRange hmax hplain
    · obtain ⟨hgroups, hfails⟩ := not_or.mp hplain
      have hfails : ∃ k, 1 ≤ k ∧ k ≤ task.countCases ∧ rawResult task r.cases r.tmp k ≠ none := by
        simpa only [not_forall, exists_prop] using hfails
      have hadds : r.AddsGroups task := ⟨hcases, hgroups, by simpa [hgroups] using hmarks, hfails, hkept⟩
      exact ⟨_, congrArg Double.finite (gradeCases_spared hfails hgroups), hfit.added hadds⟩

theorem grade_inRange (hmax : 0 ≤ task.maxScore) (hfinite : r.FiniteScore) (hfit : r.ScoresFit task)
    {out : Outcome} (h : grade task r = some out) : InRange task out.score := by
  unfold grade at h
  split_ifs at h with hprepared houtput
  · obtain ⟨⟨result, score⟩, hgrade, rfl⟩ := Option.map_eq_some_iff.mp h
    exact gradeOutputOnly_inRange hmax hgrade
  · have hprepared : r.prepared = true := by simpa using hprepared
    cases hjudge : r.judge with
    | failed => simp [hjudge] at h
    | done written =>
        cases written with
        | none => simp [hjudge] at h
        | some written =>
            simp only [hjudge, Option.some.injEq] at h
            subst h
            rw [JudgeReport.outcome, judgeReport_score]
            exact hfit.judged written ⟨hprepared, houtput, hjudge⟩
    | absent =>
        simp only [hjudge] at h
        split at h
        · cases h
        · cases h
          exact .zero hmax
        · rename_i compilerOutput hcompiled
          exact evaluate_inRange hmax hfinite ⟨hprepared, houtput, hjudge, compilerOutput, hcompiled⟩ hfit h

/-- The score of a run is in range exactly if the number of its judge script is, and, where it adds up the
groups that are spared, their sum. -/
theorem grade_inRange_iff (task : Task) (hmax : 0 ≤ task.maxScore) (r : Run) (hfinite : r.FiniteScore) :
    (∀ out, grade task r = some out → InRange task out.score) ↔ r.ScoresFit task := by
  constructor
  · refine fun h => ⟨fun written hjudged => ?_, fun hadds => ?_⟩
    · rw [← judgeReport_score r.files]
      exact h _ (grade_judged hjudged)
    · obtain ⟨out, hout, hscore⟩ := grade_added hadds
      obtain ⟨q, hq, hrange⟩ := h out hout
      rw [hscore] at hq
      cases hq
      exact hrange
  · exact fun hfit out hout => grade_inRange hmax hfinite hfit hout

/-- A run of the built-in evaluator in which the cases fail as `named` has it. -/
def builtinRun (first second : Option (List Group)) (judge : JudgeRun) (named : Nat → Option Nat) : Run where
  prepared := true
  code := []
  answer := none
  outputWritable := true
  judge := judge
  files := fun _ => none
  compileScript := .done
  compiles := true
  diagnostic := none
  firstGroups := first
  secondGroups := second
  marksAllocated := true
  cases := namingRun named
  tmp := fun _ => none
  scoreScript := .absent

theorem builtinRun_finiteScore {first second : Option (List Group)} {judge : JudgeRun}
    {named : Nat → Option Nat} : (builtinRun first second judge named).FiniteScore :=
  fun _ _ h => nomatch h

theorem grade_builtinRun {first second : Option (List Group)} {named : Nat → Option Nat}
    (houtput : task.comparison ≠ "output_only".toList) :
    ∃ out, grade task (builtinRun first second .absent named) = some out := by
  rw [grade_evaluated rfl houtput rfl rfl, evaluate_eq]
  exact ⟨_, if_neg fun h => Bool.false_ne_true h.2⟩

/-- The groups for 40 and 60 points, with the second case wrong. -/
theorem grade_twoGroups_inRange : ∃ out, grade aTask
    (builtinRun (some twoGroups) (some twoGroups) .absent fun k => if k = 2 then some 2 else none) = some out ∧
      InRange aTask out.score := by
  have hfit : (builtinRun (some twoGroups) (some twoGroups) .absent
      fun k => if k = 2 then some 2 else none).ScoresFit aTask := by
    refine ⟨fun written hjudged => ?_, fun _ => ?_⟩
    · cases hjudged.judge
    · decide +kernel
  obtain ⟨out, hout⟩ := @grade_builtinRun aTask (some twoGroups) (some twoGroups)
    (fun k => if k = 2 then some 2 else none) (by decide)
  exact ⟨out, hout, (grade_inRange_iff aTask (by decide) _ builtinRun_finiteScore).mpr hfit out hout⟩

/-- A judge script that writes `score=250` for a task of 100 points. -/
theorem grade_judged_over : ¬ ∀ (task : Task), 0 ≤ task.maxScore → ∀ (r : Run), r.FiniteScore →
    ∀ out, grade task r = some out → InRange task out.score := by
  intro h
  have hscore := h aTask (by decide) (builtinRun none none (.done (some "score=250".toList)) fun _ => none)
    builtinRun_finiteScore _ (grade_judged ⟨rfl, by decide, rfl⟩)
  rw [JudgeReport.outcome, judgeReport_score] at hscore
  have hwritten : judgeScore "score=250".toList = .finite 250 := by decide +kernel
  obtain ⟨q, hq, -, hle⟩ := hscore
  rw [hwritten] at hq
  cases hq
  exact absurd hle (by decide)

/-! ## Verdict and markers -/

/-- Result, score and result string of the cases of a run. -/
def Run.casesOutcome (r : Run) (task : Task) : Text × Rat × Text :=
  gradeCases task r.firstGroups r.secondGroups (rawResult task r.cases r.tmp)

theorem Run.ReachesCases.outcome (h : r.ReachesCases task) {out : Outcome} (hout : grade task r = some out) :
    out.result = (customScore task r.scoreScript (r.casesOutcome task).1 (r.casesOutcome task).2.1).1 ∧
      out.score = (customScore task r.scoreScript (r.casesOutcome task).1 (r.casesOutcome task).2.1).2 ∧
      out.subtaskResults = (r.casesOutcome task).2.2 := by
  obtain ⟨compilerOutput, hcompiled⟩ := h.compiled
  rw [grade_evaluated h.prepared h.builtin h.judge hcompiled, evaluate_eq] at hout
  split at hout
  · cases hout
  · cases hout
    exact ⟨rfl, rfl, rfl⟩

/-- `script/score` is absent or writes a score. -/
abbrev ScoreRun.Works (script : ScoreRun) : Prop := (runTaskScoreScript script).1 ≠ -1

theorem customScore_result {script : ScoreRun} (h : script.Works) (result : Text) (total : Rat) :
    (customScore task script result total).1 = result := by
  unfold customScore
  cases script with
  | absent => rfl
  | failed => exact absurd rfl h
  | done written =>
      unfold ScoreRun.Works runTaskScoreScript at h
      unfold runTaskScoreScript
      dsimp only at h ⊢
      cases hline : written.bind scoreLine with
      | none => exact absurd (by rw [hline]) h
      | some score => rfl

/-- One marker for each case; the verdict is `accepted` when all are `A`, and the verdict of the first
other marker otherwise. -/
theorem verdict_agrees (task : Task) (r : Run) (hcases : r.ReachesCases task) (hscript : r.scoreScript.Works)
    (out : Outcome) (hout : grade task r = some out) :
    (caseMarkers out.subtaskResults).length = task.countCases ∧
      ((Queue.parseVerdict out.result).1 = "accepted".toList ↔
        ∀ c ∈ caseMarkers out.subtaskResults, c = 'A') ∧
      ∀ c, (caseMarkers out.subtaskResults).find? (· ≠ 'A') = some c →
        markerVerdict c = some (Queue.parseVerdict out.result).1 := by
  obtain ⟨hresult, -, hmarkers⟩ := hcases.outcome hout
  rw [customScore_result hscript] at hresult
  rw [hresult, hmarkers]
  obtain ⟨haccepted, hfirst⟩ := gradeCases_verdict r.firstGroups r.secondGroups
    fun k raw => @rawResult_message task k r.cases r.tmp raw
  refine ⟨?_, haccepted, hfirst⟩
  rw [Run.casesOutcome, gradeCases_markers, List.length_map, casesUpTo, List.length_range']

/-- The second of two cases wrong. -/
theorem verdict_agrees_wrong : ∃ out, grade aTask (builtinRun (some twoGroups) (some twoGroups) .absent
      fun k => if k = 2 then some 2 else none) = some out ∧
    (caseMarkers out.subtaskResults).length = 2 ∧
      ((Queue.parseVerdict out.result).1 = "accepted".toList ↔
        ∀ c ∈ caseMarkers out.subtaskResults, c = 'A') ∧
      ∀ c, (caseMarkers out.subtaskResults).find? (· ≠ 'A') = some c →
        markerVerdict c = some (Queue.parseVerdict out.result).1 := by
  obtain ⟨out, hout⟩ := @grade_builtinRun aTask (some twoGroups) (some twoGroups)
    (fun k => if k = 2 then some 2 else none) (by decide)
  exact ⟨out, hout, verdict_agrees aTask _ ⟨rfl, by decide, rfl, none, rfl⟩ (by decide) out hout⟩

end Tle.Grade
