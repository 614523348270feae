import Tle.Grade.Case
import Tle.Grade.Lemmas.Tokens

/-!
# One case, stage by stage
-/

namespace Tle.Grade
open Tle.Lib

variable {task : Task} {w : CaseWorld} {k : Nat} {c : Carry} {s : Stat} {file : Text}

/-- The file under `/tmp/<k>.out` when case `k` is judged. -/
def judgedFile (w : CaseWorld) (k : Nat) (tmp : Tmp) : Option Text := (w.output.copy k tmp).1 k

/-- The output can be read where it stands, and its copy written. -/
def OutputLeft.Copyable (o : OutputLeft) (tmp : Tmp) : Prop :=
  (∃ bytes, o.boxOut.open tmp = some bytes) ∧ o.writable = true

def recordedTime (w : CaseWorld) : Nat :=
  if runTaskRunScript w.runScript < 0 then 0 else w.statFile.elim 0 fun file => (readStat file).caseTime

def recordedMem (w : CaseWorld) : Nat :=
  if runTaskRunScript w.runScript < 0 then 0 else w.statFile.elim 0 fun file => (readStat file).caseMem

/-! ## The copy -/

theorem copy_copyable {o : OutputLeft} {tmp : Tmp} (h : o.Copyable tmp) (k : Nat) :
    ∃ output, (o.copy k tmp).2 = 0 ∧ (o.copy k tmp).1 k = some output := by
  obtain ⟨⟨bytes, hopen⟩, hwritable⟩ := h
  simp [OutputLeft.copy, hopen, hwritable]

theorem copy_not_copyable {o : OutputLeft} {tmp : Tmp} (h : ¬o.Copyable tmp) (k : Nat) :
    o.copy k tmp = (tmp, -1) := by
  unfold OutputLeft.copy
  cases hopen : o.boxOut.open tmp with
  | none => rfl
  | some bytes =>
      have hwritable : o.writable = false := by
        by_contra hwritable
        exact h ⟨⟨bytes, hopen⟩, by simpa using hwritable⟩
      simp [hwritable]

/-! ## What a case returns -/

theorem gradeCase_run_failed (h : runTaskRunScript w.runScript < 0) : gradeCase task w k c =
    (c, some (withCase "internal error:run script failed" k)) := by
  simp [gradeCase, h]

theorem gradeCase_no_stat (hrun : ¬ runTaskRunScript w.runScript < 0) (hstat : w.statFile = none) :
    (gradeCase task w k c).2 = some noStat := by
  simp [gradeCase, hrun, hstat]

theorem gradeCase_stat (hrun : ¬ runTaskRunScript w.runScript < 0) (hstat : w.statFile = some file) :
    (gradeCase task w k c).2 =
      (statusVerdict task k (max c.maxTime (readStat file).caseTime)
        (max c.maxMem (readStat file).caseMem) (readStat file)).or
        (judgeOutput task w k (judgedFile w k c.tmp)) := by
  have hmax (a b : Nat) : (if a > b then a else b) = max b a := (max_def_lt b a).symm
  simp only [gradeCase, hrun, ↓reduceIte, hstat, hmax, judgedFile]
  cases statusVerdict task k (max c.maxTime (readStat file).caseTime)
    (max c.maxMem (readStat file).caseMem) (readStat file) <;> rfl

theorem gradeCase_maxTime :
    (gradeCase task w k c).1.maxTime = max c.maxTime (recordedTime w) := by
  unfold gradeCase recordedTime
  split
  · simp
  · cases w.statFile with
    | none => simp
    | some file => simp only [Option.elim_some]; split <;> omega

theorem gradeCase_maxMem : (gradeCase task w k c).1.maxMem = max c.maxMem (recordedMem w) := by
  unfold gradeCase recordedMem
  split
  · simp
  · cases w.statFile with
    | none => simp
    | some file => simp only [Option.elim_some]; split <;> omega

section Status

variable {maxTime maxMem : Nat}

theorem statusVerdict_crashed (hxx : s.stat = "XX".toList) :
    statusVerdict task k maxTime maxMem s = some isolateCrashed :=
  if_pos hxx

theorem statusVerdict_late (hxx : s.stat ≠ "XX".toList)
    (hlate : s.stat = "TO".toList ∨ maxTime > task.timeLimit) :
    statusVerdict task k maxTime maxMem s = some (timeLimitExceeded k) := by
  rw [statusVerdict, if_neg hxx, if_pos hlate]

theorem statusVerdict_signal (hxx : s.stat ≠ "XX".toList)
    (hlate : ¬ (s.stat = "TO".toList ∨ maxTime > task.timeLimit)) (hsg : s.stat = "SG".toList) :
    statusVerdict task k maxTime maxMem s = some (withCode "signal" s.subexitsig k) := by
  rw [statusVerdict, if_neg hxx, if_neg hlate, if_neg hxx, if_pos hsg]

theorem statusVerdict_code (hxx : s.stat ≠ "XX".toList)
    (hlate : ¬ (s.stat = "TO".toList ∨ maxTime > task.timeLimit)) (hsg : s.stat ≠ "SG".toList)
    (hcode : s.subexitcode ≠ 0) :
    statusVerdict task k maxTime maxMem s = some (withCode "exitcode" s.subexitcode k) := by
  rw [statusVerdict, if_neg hxx, if_neg hlate, if_neg hxx, if_neg hsg, if_pos hcode]

theorem statusVerdict_memory (hxx : s.stat ≠ "XX".toList)
    (hlate : ¬ (s.stat = "TO".toList ∨ maxTime > task.timeLimit)) (hsg : s.stat ≠ "SG".toList)
    (hcode : s.subexitcode = 0) : statusVerdict task k maxTime maxMem s =
      if s.stat ≠ [] ∧ maxMem > task.memoryLimit then some (memoryLimitExceeded k) else none := by
  rw [statusVerdict, if_neg hxx, if_neg hlate, if_neg hxx, if_neg hsg, if_neg (not_not.mpr hcode)]

theorem statusVerdict_eq_none_iff : statusVerdict task k maxTime maxMem s = none ↔
    (s.stat ≠ "XX".toList ∧ s.stat ≠ "TO".toList ∧ s.stat ≠ "SG".toList) ∧ maxTime ≤ task.timeLimit ∧
      s.subexitcode = 0 ∧ (s.stat ≠ [] → maxMem ≤ task.memoryLimit) := by
  unfold statusVerdict
  split_ifs with hxx hlate hsg hcode hmem
  · simp [hxx]
  · rcases hlate with hto | hover
    · simp [hto]
    · simp [Nat.not_le.mpr hover]
  · simp [hsg]
  · simp [hcode]
  · simp [hmem.1, Nat.not_le.mpr hmem.2]
  · obtain ⟨hto, hover⟩ := not_or.mp hlate
    rw [not_and, Nat.not_lt] at hmem
    exact iff_of_true rfl ⟨⟨hxx, hto, hsg⟩, Nat.not_lt.mp hover, not_not.mp hcode, hmem⟩

end Status

/-! ## The judgement of the output -/

section Judge

variable {out : Option Text} {raw : Text}

theorem judgeOutput_builtin (hspecial : task.comparison ≠ "special".toList)
    (hscript : w.checkScript out = .absent) : judgeOutput task w k out =
      if safeTkcmp w.answer out = 0 then some (wrongAnswer k) else none := by
  have habsent : runTaskCheckScript (w.checkScript out) = 1 := by rw [hscript]; rfl
  rw [judgeOutput, habsent, if_neg (by decide), if_neg (by decide),
    if_neg (fun h => hspecial h.2)]
  simp

/-- The jury runs and its answer is read. -/
def JuryRead (task : Task) (w : CaseWorld) (out : Option Text) : Prop :=
  runTaskCheckScript (w.checkScript out) = 1 ∧ task.comparison = "special".toList ∧
    (w.juryPresent = true ∨ w.juryCodePresent = true ∧ w.juryCompiles = true) ∧
    (w.jury out).exitedZero = true

theorem judgeOutput_jury (h : JuryRead task w out) :
    judgeOutput task w k out = juryVerdict k (verdictBytes w (w.jury out)) := by
  obtain ⟨hcheck, hspecial, hjury, hexit⟩ := h
  have hpresent : (!w.juryPresent && !w.juryCodePresent) = false := by
    rcases hjury with h | ⟨h, -⟩ <;> simp [h]
  have hcompiled : (!w.juryPresent && !w.juryCompiles) = false := by
    rcases hjury with h | ⟨-, h⟩ <;> simp [h]
  simp [judgeOutput, hcheck, hspecial, askJury, hpresent, hcompiled, hexit]

end Judge

/-! ## The maxima after some cases -/

section Carry

variable {world : Nat → CaseWorld} {tmp : Tmp} {n limit : Nat}

/-- A running maximum exceeds a limit when one of the values taken so far does. -/
theorem running_max_gt {m r : Nat → Nat} (hzero : m 0 = 0)
    (hsucc : ∀ n, m (n + 1) = max (m n) (r (n + 1))) :
    m n > limit ↔ ∃ j, 1 ≤ j ∧ j ≤ n ∧ r j > limit := by
  induction n with
  | zero =>
      refine iff_of_false (by omega) ?_
      rintro ⟨j, hpos, hle, -⟩
      omega
  | succ n ih =>
      have hmax : m (n + 1) > limit ↔ m n > limit ∨ r (n + 1) > limit := by
        rw [hsucc]
        omega
      rw [hmax, ih]
      constructor
      · rintro (⟨j, hpos, hle, hover⟩ | hover)
        · exact ⟨j, hpos, by omega, hover⟩
        · exact ⟨n + 1, by omega, Nat.le_refl _, hover⟩
      · rintro ⟨j, hpos, hle, hover⟩
        rcases Nat.lt_or_eq_of_le hle with hlt | rfl
        · exact Or.inl ⟨j, hpos, by omega, hover⟩
        · exact Or.inr hover

theorem carryAfter_maxTime : (carryAfter task world tmp n).maxTime > limit ↔
    ∃ j, 1 ≤ j ∧ j ≤ n ∧ recordedTime (world j) > limit :=
  running_max_gt (m := fun n => (carryAfter task world tmp n).maxTime)
    (r := fun j => recordedTime (world j)) rfl (fun _ => gradeCase_maxTime)

theorem carryAfter_maxMem : (carryAfter task world tmp n).maxMem > limit ↔
    ∃ j, 1 ≤ j ∧ j ≤ n ∧ recordedMem (world j) > limit :=
  running_max_gt (m := fun n => (carryAfter task world tmp n).maxMem)
    (r := fun j => recordedMem (world j)) rfl (fun _ => gradeCase_maxMem)

end Carry

end Tle.Grade
