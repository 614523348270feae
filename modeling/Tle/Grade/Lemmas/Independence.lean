import Tle.Grade.Lemmas.Case

/-!
# When a case gets the same result in two runs

The results that status, time and memory give start with letters of their own, so two runs agree only
if they take the same branch.
-/

namespace Tle.Grade
open Tle.Lib

variable {task : Task} {w w₁ w₂ : CaseWorld} {k : Nat} {s : Stat} {out out₁ out₂ : Option Text}

/-! ## The letter a message starts with -/

theorem statusVerdict_ne_late {maxTime maxMem : Nat} (hxx : s.stat ≠ "XX".toList)
    (hlate : ¬ (s.stat = "TO".toList ∨ maxTime > task.timeLimit)) :
    statusVerdict task k maxTime maxMem s ≠ some (timeLimitExceeded k) := by
  by_cases hsg : s.stat = "SG".toList
  · rw [statusVerdict_signal hxx hlate hsg]
    simp [withCode, withCase]
  by_cases hcode : s.subexitcode = 0
  · rw [statusVerdict_memory hxx hlate hsg hcode]
    split <;> simp [withCase]
  · rw [statusVerdict_code hxx hlate hsg hcode]
    simp [withCode, withCase]

/-- What the judgement of the output reports starts with `i` or `w`. -/
theorem judgeOutput_head {raw : Text} (h : judgeOutput task w k out = some raw) :
    raw.head? = some 'i' ∨ raw.head? = some 'w' := by
  simp only [judgeOutput] at h
  split at h
  · cases h; exact Or.inl rfl
  split at h
  · cases h; exact Or.inr rfl
  split at h
  · simp only [askJury] at h
    split at h
    · cases h; exact Or.inl rfl
    split at h
    · cases h; exact Or.inl rfl
    split at h
    · cases h; exact Or.inl rfl
    unfold juryVerdict at h
    split at h
    · cases h
    · cases h; exact Or.inr rfl
    · cases h; exact Or.inl rfl
  split at h
  · cases h; exact Or.inr rfl
  · cases h

theorem judgeOutput_ne_late : judgeOutput task w k out ≠ some (timeLimitExceeded k) := by
  intro h
  rcases judgeOutput_head h with hhead | hhead <;> simp [withCase] at hhead

theorem judgeOutput_ne_memory : judgeOutput task w k out ≠ some (memoryLimitExceeded k) := by
  intro h
  rcases judgeOutput_head h with hhead | hhead <;> simp [withCase] at hhead

/-! ## The same judgement -/

/-- The case's own data agree: its run, its stat file, the file it is judged on and what the checkers
do with it. Only the uninitialised bytes may differ. -/
structure SameCase (w₁ w₂ : CaseWorld) (out₁ out₂ : Option Text) : Prop where
  runScript : w₁.runScript = w₂.runScript
  statFile : w₁.statFile = w₂.statFile
  output : out₁ = out₂
  answer : w₁.answer = w₂.answer
  checkScript : w₁.checkScript out₁ = w₂.checkScript out₂
  juryPresent : w₁.juryPresent = w₂.juryPresent
  juryCodePresent : w₁.juryCodePresent = w₂.juryCodePresent
  juryCompiles : w₁.juryCompiles = w₂.juryCompiles
  jury : w₁.jury out₁ = w₂.jury out₂

/-- The two verdict bytes up to a NUL, as the message for an unsupported one shows them. -/
def shownVerdict (w : CaseWorld) (out : Option Text) : Text :=
  cstr [(verdictBytes w (w.jury out)).1, (verdictBytes w (w.jury out)).2]

/-- Two letters other than NUL are shown by no other pair. -/
theorem cstr_pair_iff {a b x y : Char} (hx : x ≠ '\x00') (hy : y ≠ '\x00') :
    cstr [a, b] = [x, y] ↔ a = x ∧ b = y := by
  by_cases ha : a = '\x00'
  · simp [cstr, ha, hx.symm]
  by_cases hb : b = '\x00'
  · simp [cstr, ha, hb, hy.symm]
  · simp [cstr, ha, hb]

def verdictOf (caseId : Nat) (shown : Text) : Option Text :=
  if shown = ['o', 'k'] then none
  else if shown = ['w', 'a'] then some (wrongAnswer caseId)
  else some ("internal error:unsupported verdict ".toList ++ shown)

theorem juryVerdict_eq (p : Char × Char) : juryVerdict k p = verdictOf k (cstr [p.1, p.2]) := by
  unfold juryVerdict verdictOf
  simp only [cstr_pair_iff (x := 'o') (y := 'k') (by decide) (by decide),
    cstr_pair_iff (x := 'w') (y := 'a') (by decide) (by decide)]
  split
  · rfl
  · rfl
  · rename_i a b hok hwa
    rw [if_neg (fun h => hok h.1 h.2), if_neg (fun h => hwa h.1 h.2)]

theorem verdictOf_injective : Function.Injective (verdictOf k) := by
  intro t u h
  unfold verdictOf at h
  split_ifs at h <;> simp_all [withCase]

/-- On the same data the judgement differs only through uninitialised bytes of the verdict. -/
theorem judgeOutput_eq_iff (h : SameCase w₁ w₂ out₁ out₂) :
    judgeOutput task w₁ k out₁ = judgeOutput task w₂ k out₂ ↔
      (JuryRead task w₁ out₁ → shownVerdict w₁ out₁ = shownVerdict w₂ out₂) := by
  have hout := h.output
  subst hout
  have hread : JuryRead task w₁ out₁ ↔ JuryRead task w₂ out₁ := by
    simp only [JuryRead, h.checkScript, h.juryPresent, h.juryCodePresent, h.juryCompiles, h.jury]
  by_cases hjury : JuryRead task w₁ out₁
  · rw [judgeOutput_jury hjury, judgeOutput_jury (hread.mp hjury), juryVerdict_eq,
      juryVerdict_eq, verdictOf_injective.eq_iff]
    simp only [hjury, true_implies, shownVerdict]
  · refine iff_of_true ?_ (fun hj => absurd hj hjury)
    have hask : runTaskCheckScript (w₁.checkScript out₁) = 1 ∧ task.comparison = "special".toList →
        askJury w₁ k out₁ = askJury w₂ k out₁ := by
      rintro ⟨hcheck, hspecial⟩
      simp only [askJury, h.juryPresent, h.juryCodePresent, h.juryCompiles, h.jury]
      split
      · rfl
      split
      · rfl
      rename_i hpresent hcompiled
      have hexit : (w₂.jury out₁).exitedZero = false := by
        by_contra hzero
        refine hjury ⟨hcheck, hspecial, ?_, by rw [h.jury]; simpa using hzero⟩
        rw [h.juryPresent, h.juryCodePresent, h.juryCompiles]
        cases h₁ : w₂.juryPresent
        · simp_all
        · simp
      simp [hexit]
    rw [h.checkScript] at hask
    simp only [judgeOutput, h.checkScript, h.answer]
    split
    · rfl
    split
    · rfl
    split
    · rename_i hspecial
      exact hask hspecial
    · rfl

/-! ## The same classification -/

section Classification

variable {T₁ T₂ M₁ M₂ : Nat} {j₁ j₂ : Option Text}

theorem memory_eq_iff (hxx : s.stat ≠ "XX".toList)
    (hlate₁ : ¬ (s.stat = "TO".toList ∨ T₁ > task.timeLimit))
    (hlate₂ : ¬ (s.stat = "TO".toList ∨ T₂ > task.timeLimit)) (hsg : s.stat ≠ "SG".toList)
    (hcode : s.subexitcode = 0) (hj₁ : j₁ ≠ some (memoryLimitExceeded k))
    (hj₂ : j₂ ≠ some (memoryLimitExceeded k)) :
    (statusVerdict task k T₁ M₁ s).or j₁ = (statusVerdict task k T₂ M₂ s).or j₂ ↔
      (s.stat ≠ [] → (M₁ > task.memoryLimit ↔ M₂ > task.memoryLimit)) ∧
        (s.stat ≠ [] ∧ M₁ > task.memoryLimit ∨ j₁ = j₂) := by
  rw [statusVerdict_memory hxx hlate₁ hsg hcode, statusVerdict_memory hxx hlate₂ hsg hcode]
  by_cases hempty : s.stat = []
  · simp [hempty]
  by_cases hM₁ : M₁ > task.memoryLimit <;> by_cases hM₂ : M₂ > task.memoryLimit
  · simp [hempty, hM₁, hM₂]
  · simpa [hempty, hM₁, hM₂] using hj₂.symm
  · simpa [hempty, hM₁, hM₂] using hj₁
  · simp [hempty, hM₁, hM₂]

theorem classification_eq_iff (hlate₁ : j₁ ≠ some (timeLimitExceeded k))
    (hlate₂ : j₂ ≠ some (timeLimitExceeded k)) (hmem₁ : j₁ ≠ some (memoryLimitExceeded k))
    (hmem₂ : j₂ ≠ some (memoryLimitExceeded k)) :
    (statusVerdict task k T₁ M₁ s).or j₁ = (statusVerdict task k T₂ M₂ s).or j₂ ↔
      s.stat = "XX".toList ∨ s.stat = "TO".toList ∨
        (T₁ > task.timeLimit ↔ T₂ > task.timeLimit) ∧
          (T₁ > task.timeLimit ∨ s.stat = "SG".toList ∨ s.subexitcode ≠ 0 ∨
            (s.stat ≠ [] → (M₁ > task.memoryLimit ↔ M₂ > task.memoryLimit)) ∧
              (s.stat ≠ [] ∧ M₁ > task.memoryLimit ∨ j₁ = j₂)) := by
  by_cases hxx : s.stat = "XX".toList
  · rw [statusVerdict_crashed hxx, statusVerdict_crashed hxx]
    exact iff_of_true rfl (Or.inl hxx)
  by_cases hto : s.stat = "TO".toList
  · rw [statusVerdict_late hxx (Or.inl hto), statusVerdict_late hxx (Or.inl hto)]
    exact iff_of_true rfl (Or.inr (Or.inl hto))
  simp only [hxx, hto, false_or]
  -- the verdict of a run that is not late is never the message of a late one
  have hne : ∀ {T M : Nat} {j : Option Text}, ¬ T > task.timeLimit →
      j ≠ some (timeLimitExceeded k) →
      (statusVerdict task k T M s).or j ≠ some (timeLimitExceeded k) := by
    intro T M j hT hj
    have hstatus : statusVerdict task k T M s ≠ some (timeLimitExceeded k) :=
      statusVerdict_ne_late hxx (not_or.mpr ⟨hto, hT⟩)
    cases h : statusVerdict task k T M s with
    | none => exact hj
    | some raw => rwa [h] at hstatus
  by_cases hT₁ : T₁ > task.timeLimit <;> by_cases hT₂ : T₂ > task.timeLimit
  · rw [statusVerdict_late hxx (Or.inr hT₁), statusVerdict_late hxx (Or.inr hT₂)]
    simp [hT₁, hT₂]
  · rw [statusVerdict_late hxx (Or.inr hT₁)]
    refine iff_of_false (fun h => hne hT₂ hlate₂ h.symm) ?_
    simp [hT₁, hT₂]
  · rw [statusVerdict_late hxx (Or.inr hT₂)]
    refine iff_of_false (fun h => hne hT₁ hlate₁ h) ?_
    simp [hT₁, hT₂]
  have hl₁ : ¬ (s.stat = "TO".toList ∨ T₁ > task.timeLimit) := not_or.mpr ⟨hto, hT₁⟩
  have hl₂ : ¬ (s.stat = "TO".toList ∨ T₂ > task.timeLimit) := not_or.mpr ⟨hto, hT₂⟩
  simp only [hT₁, hT₂, false_or, true_and]
  by_cases hsg : s.stat = "SG".toList
  · rw [statusVerdict_signal hxx hl₁ hsg, statusVerdict_signal hxx hl₂ hsg]
    exact iff_of_true rfl (Or.inl hsg)
  by_cases hcode : s.subexitcode = 0
  · rw [memory_eq_iff hxx hl₁ hl₂ hsg hcode hmem₁ hmem₂]
    simp only [hsg, hcode, ne_eq, not_true_eq_false, false_or]
  · rw [statusVerdict_code hxx hl₁ hsg hcode, statusVerdict_code hxx hl₂ hsg hcode]
    exact iff_of_true rfl (Or.inr (Or.inl hcode))

end Classification

/-! ## The same result -/

def TimeOver (task : Task) (w : Nat → CaseWorld) (k : Nat) : Prop :=
  ∃ j, 1 ≤ j ∧ j ≤ k ∧ recordedTime (w j) > task.timeLimit

def MemOver (task : Task) (w : Nat → CaseWorld) (k : Nat) : Prop :=
  ∃ j, 1 ≤ j ∧ j ≤ k ∧ recordedMem (w j) > task.memoryLimit

/-- The earlier cases of two runs do not tell on case `k`. -/
def Unaffected (task : Task) (w₁ w₂ : Nat → CaseWorld) (k : Nat) (out₁ out₂ : Option Text) : Prop :=
  runTaskRunScript (w₁ k).runScript < 0 ∨ (w₁ k).statFile = none ∨
    ∃ s, (w₁ k).statFile.map readStat = some s ∧
      (s.stat = "XX".toList ∨ s.stat = "TO".toList ∨
        (TimeOver task w₁ k ↔ TimeOver task w₂ k) ∧
          (TimeOver task w₁ k ∨ s.stat = "SG".toList ∨ s.subexitcode ≠ 0 ∨
            (s.stat ≠ [] → (MemOver task w₁ k ↔ MemOver task w₂ k)) ∧
              (s.stat ≠ [] ∧ MemOver task w₁ k ∨
                (JuryRead task (w₁ k) out₁ → shownVerdict (w₁ k) out₁ = shownVerdict (w₂ k) out₂))))

/-- The file case `k` of a run is judged on. -/
def judgedInRun (task : Task) (w : Nat → CaseWorld) (tmp : Tmp) (k : Nat) : Option Text :=
  judgedFile (w k) k (carryAfter task w tmp (k - 1)).tmp

/-- The classification of a case in a run by the maxima of all cases up to it. -/
theorem rawResult_stat {w : Nat → CaseWorld} {tmp : Tmp} {file : Text}
    (hrun : ¬ runTaskRunScript (w (k + 1)).runScript < 0) (hstat : (w (k + 1)).statFile = some file) :
    rawResult task w tmp (k + 1) =
      (statusVerdict task (k + 1) (carryAfter task w tmp (k + 1)).maxTime
        (carryAfter task w tmp (k + 1)).maxMem (readStat file)).or
        (judgeOutput task (w (k + 1)) (k + 1) (judgedInRun task w tmp (k + 1))) := by
  rw [rawResult, gradeCase_stat hrun hstat, carryAfter, gradeCase_maxTime, gradeCase_maxMem]
  simp only [recordedTime, recordedMem, hrun, ↓reduceIte, hstat, Option.elim_some, judgedInRun,
    Nat.add_sub_cancel]

end Tle.Grade
