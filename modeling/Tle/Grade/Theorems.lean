import Tle.Grade.Lemmas.Output

/-!
# Grading a submission
-/

namespace Tle.Grade
open Tle.Lib

/-! ## Sample data -/

def aTask : Task where
  timeLimit := 1000
  memoryLimit := 65536
  comparison := "default".toList
  countCases := 2
  countCases_lt := by decide
  maxScore := 100

/-- A run with this stat file, judged by comparison with the answer `42`. -/
def aCase (stat : String) (boxOut : BoxOut) : CaseWorld where
  runScript := .absent
  output := ⟨boxOut, true⟩
  statFile := some stat.toList
  answer := some "42\n".toList
  checkScript := fun _ => .absent
  juryPresent := false
  juryCodePresent := false
  juryCompiles := false
  jury := fun _ => ⟨false, []⟩
  verdictBefore := ('\x00', '\x00')

def cleanTmp : Tmp := fun _ => none

def atStart : Carry := ⟨0, 0, cleanTmp⟩

/-! ## The built-in comparison -/

/-- The case gets past the stages before the comparison. -/
def ReachesComparison (task : Task) (w : CaseWorld) (k : Nat) (c : Carry) : Prop :=
  ¬ runTaskRunScript w.runScript < 0 ∧ ∃ file, w.statFile = some file ∧
    statusVerdict task k (max c.maxTime (readStat file).caseTime)
      (max c.maxMem (readStat file).caseMem) (readStat file) = none

/-- The output of the contestant, once it has been copied to `/tmp/<k>.out`. -/
def copiedOutput (w : CaseWorld) (k : Nat) (tmp : Tmp) : Option Text :=
  if (w.output.copy k tmp).2 = 0 then judgedFile w k tmp else none

theorem copiedOutput_of_copyable {w : CaseWorld} {k : Nat} {tmp : Tmp} (h : w.output.Copyable tmp) :
    ∃ output, copiedOutput w k tmp = some output ∧ judgedFile w k tmp = some output := by
  obtain ⟨output, hzero, hjudged⟩ := copy_copyable h k
  exact ⟨output, by rw [copiedOutput, if_pos hzero]; exact hjudged, hjudged⟩

theorem copiedOutput_of_not_copyable {w : CaseWorld} {k : Nat} {tmp : Tmp} (h : ¬w.output.Copyable tmp) :
    copiedOutput w k tmp = none ∧ judgedFile w k tmp = tmp k := by
  have hcopy := copy_not_copyable h k
  rw [copiedOutput, judgedFile, hcopy]
  exact ⟨if_neg (by simp), rfl⟩

/-- A case passes exactly when the answer and the copied output hold the same tokens, if and only if the
answer is there, and the output is copied or an older file in its place differs from the answer. -/
theorem comparison_sound_iff (task : Task) (w : CaseWorld) (k : Nat) (c : Carry)
    (hspecial : task.comparison ≠ "special".toList) (hscript : ∀ out, w.checkScript out = .absent)
    (hreach : ReachesComparison task w k c) :
    ((gradeCase task w k c).2 = none ↔ ∃ answer output, w.answer = some answer ∧
        copiedOutput w k c.tmp = some output ∧ tokens answer = tokens output) ↔
      ∃ answer, w.answer = some answer ∧
        (w.output.Copyable c.tmp ∨ ∃ stale, c.tmp k = some stale ∧ tokens answer ≠ tokens stale) := by
  obtain ⟨hrun, file, hstat, hstatus⟩ := hreach
  rw [gradeCase_stat hrun hstat, hstatus, Option.none_or, judgeOutput_builtin hspecial (hscript _),
    safeTkcmp_eq]
  cases w.answer with
  | none => simp
  | some answer =>
      by_cases hcopyable : w.output.Copyable c.tmp
      · obtain ⟨output, hcopied, hjudged⟩ := @copiedOutput_of_copyable w k c.tmp hcopyable
        by_cases htokens : tokens answer = tokens output <;> simp [hcopied, hjudged, hcopyable, htokens]
      · -- what stands under `/tmp` is compared
        obtain ⟨hcopied, hjudged⟩ := @copiedOutput_of_not_copyable w k c.tmp hcopyable
        rw [hcopied, hjudged]
        cases c.tmp k with
        | none => simp [hcopyable]
        | some stale => by_cases htokens : tokens answer = tokens stale <;> simp [hcopyable, htokens]

theorem comparison_sound_other_spacing :
    (gradeCase aTask (aCase "time:0.1\n" (.regular " 42".toList)) 1 atStart).2 = none := by
  have hreach : ReachesComparison aTask (aCase "time:0.1\n" (.regular " 42".toList)) 1 atStart :=
    ⟨by decide, "time:0.1\n".toList, rfl, by decide +kernel⟩
  have hiff := comparison_sound_iff aTask (aCase "time:0.1\n" (.regular " 42".toList)) 1 atStart
    (by decide) (fun _ => rfl) hreach
  have hcopyable : (aCase "time:0.1\n" (.regular " 42".toList)).output.Copyable atStart.tmp :=
    ⟨⟨" 42".toList, rfl⟩, rfl⟩
  have hcopied : copiedOutput (aCase "time:0.1\n" (.regular " 42".toList)) 1 atStart.tmp =
      some " 42".toList := by decide
  exact (hiff.mpr ⟨"42\n".toList, rfl, Or.inl hcopyable⟩).mpr
    ⟨"42\n".toList, " 42".toList, rfl, hcopied, by decide⟩

/-- Without an answer file every output passes. -/
theorem comparison_passes_without_answer :
    ¬ ((gradeCase aTask { aCase "time:0.1\n" (.regular "1".toList) with answer := none } 1
          atStart).2 = none ↔
      ∃ answer output,
        ({ aCase "time:0.1\n" (.regular "1".toList) with answer := none } : CaseWorld).answer =
            some answer ∧
          copiedOutput { aCase "time:0.1\n" (.regular "1".toList) with answer := none } 1 atStart.tmp =
            some output ∧ tokens answer = tokens output) := by
  have hpass : (gradeCase aTask { aCase "time:0.1\n" (.regular "1".toList) with answer := none } 1
      atStart).2 = none := by decide +kernel
  intro h
  obtain ⟨answer, output, hanswer, -, -⟩ := h.mp hpass
  cases hanswer

/-- The other caller of the comparison asks for 1, and a file that does not open is a wrong answer. -/
theorem output_only_accepts_iff (task : Task) (answer : Option Text) (code : Text)
    (hcount : task.countCases = 1) :
    gradeOutputOnly task answer true code = some ("accepted!".toList, task.maxScore) ↔
      ∃ a, answer = some a ∧ tokens a = tokens (cstr code) := by
  simp only [gradeOutputOnly, hcount, safeTkcmp_eq]
  cases answer with
  | none => simp
  | some a => by_cases h : tokens a = tokens (cstr code) <;> simp [h]

/-! ## Independence of the cases -/

/-- On the same data of its own, a case gets the same result in two runs exactly when the earlier
cases do not tell on it. -/
theorem rawResult_eq_iff (task : Task) (w₁ w₂ : Nat → CaseWorld) (tmp₁ tmp₂ : Tmp) (k : Nat)
    (hpos : 1 ≤ k)
    (hsame : SameCase (w₁ k) (w₂ k) (judgedInRun task w₁ tmp₁ k) (judgedInRun task w₂ tmp₂ k)) :
    rawResult task w₁ tmp₁ k = rawResult task w₂ tmp₂ k ↔
      Unaffected task w₁ w₂ k (judgedInRun task w₁ tmp₁ k) (judgedInRun task w₂ tmp₂ k) := by
  obtain ⟨n, rfl⟩ : ∃ n, k = n + 1 := ⟨k - 1, by omega⟩
  by_cases hrun : runTaskRunScript (w₁ (n + 1)).runScript < 0
  · have hrun₂ : runTaskRunScript (w₂ (n + 1)).runScript < 0 := hsame.runScript ▸ hrun
    rw [rawResult, rawResult, gradeCase_run_failed hrun, gradeCase_run_failed hrun₂]
    exact iff_of_true rfl (Or.inl hrun)
  have hrun₂ : ¬ runTaskRunScript (w₂ (n + 1)).runScript < 0 := hsame.runScript ▸ hrun
  cases hstat : (w₁ (n + 1)).statFile with
  | none =>
      have hstat₂ : (w₂ (n + 1)).statFile = none := hsame.statFile ▸ hstat
      rw [rawResult, rawResult, gradeCase_no_stat hrun hstat, gradeCase_no_stat hrun₂ hstat₂]
      exact iff_of_true rfl (Or.inr (Or.inl hstat))
  | some file =>
      have hstat₂ : (w₂ (n + 1)).statFile = some file := hsame.statFile ▸ hstat
      rw [rawResult_stat hrun hstat, rawResult_stat hrun₂ hstat₂,
        classification_eq_iff judgeOutput_ne_late judgeOutput_ne_late judgeOutput_ne_memory
          judgeOutput_ne_memory, judgeOutput_eq_iff hsame]
      simp only [carryAfter_maxTime, carryAfter_maxMem]
      simp only [Unaffected, hrun, hstat, Option.map_some, Option.some.injEq, reduceCtorEq,
        false_or, exists_eq_left', TimeOver, MemOver]

def secondOf (first : String) (k : Nat) : CaseWorld :=
  if k = 1 then aCase first (.regular "42".toList) else aCase "time:0.5\n" (.regular "42".toList)

theorem secondOf_same (a b : String) : SameCase (secondOf a 2) (secondOf b 2)
    (judgedInRun aTask (secondOf a) cleanTmp 2) (judgedInRun aTask (secondOf b) cleanTmp 2) := by
  have hout : ∀ first, judgedInRun aTask (secondOf first) cleanTmp 2 = some "42".toList :=
    fun _ => judgedInRun_copied rfl rfl
  exact ⟨rfl, rfl, by rw [hout, hout], rfl, rfl, rfl, rfl, rfl, rfl⟩

theorem rawResult_same_of_fast :
    rawResult aTask (secondOf "time:0.2\n") cleanTmp 2 =
      rawResult aTask (secondOf "time:0.9\n") cleanTmp 2 := by
  refine (rawResult_eq_iff aTask _ _ cleanTmp cleanTmp 2 (by decide) (secondOf_same _ _)).mpr ?_
  have hfast : ∀ first, recordedTime (aCase first (.regular "42".toList)) ≤ 1000 →
      ¬ TimeOver aTask (secondOf first) 2 := by
    rintro first hfirst ⟨j, -, -, hover⟩
    unfold secondOf at hover
    split at hover
    · exact absurd hover (Nat.not_lt.mpr hfirst)
    · revert hover
      decide +kernel
  have hslow₁ := hfast "time:0.2\n" (by decide +kernel)
  have hslow₂ := hfast "time:0.9\n" (by decide +kernel)
  refine Or.inr (Or.inr ⟨readStat "time:0.5\n".toList, rfl, Or.inr (Or.inr
    ⟨iff_of_false hslow₁ hslow₂, Or.inr (Or.inr (Or.inr ⟨?_, Or.inr ?_⟩))⟩)⟩)
  · intro hne
    exact absurd (by decide +kernel) hne
  · intro hjury
    exact absurd hjury.2.1 (by decide)

/-- A slow first case turns the second one, which passes after a fast one, into a time limit. -/
theorem rawResult_depends_on_first :
    ¬ (∀ (task : Task) (w₁ w₂ : Nat → CaseWorld) (tmp₁ tmp₂ : Tmp) (k : Nat), 1 ≤ k →
      SameCase (w₁ k) (w₂ k) (judgedInRun task w₁ tmp₁ k) (judgedInRun task w₂ tmp₂ k) →
      rawResult task w₁ tmp₁ k = rawResult task w₂ tmp₂ k) := by
  intro h
  have hsame := h aTask (secondOf "time:0.2\n") (secondOf "time:2.0\n") cleanTmp cleanTmp 2
    (by decide) (secondOf_same _ _)
  revert hsame
  decide +kernel

/-! ## The judged file -/

end Tle.Grade
