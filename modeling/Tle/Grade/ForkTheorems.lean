import Tle.Grade.Fork
import Tle.Grade.Lemmas.Case

/-!
# Which processes return from `grade`
-/

namespace Tle.Grade
open Tle.Lib

variable {w : ForkWorld} {s : CaseSight} {found missing : Proc Ending} {n k : Nat} {p : Pid}

/-- The created processes end in `execl` or `_exit`. -/
abbrev NoneEscapes (q : Proc Ending) : Prop := q.AllSpawned (· = .replaced)

theorem noneEscapes_forkExec (forked : Bool) (q : Proc Ending) :
    NoneEscapes (forkExec forked q) ↔ NoneEscapes q :=
  Proc.allSpawned_helper (P := (· = .replaced)) rfl forked q

theorem own_findJury :
    (findJury s found missing).own = if s.juryMissing then missing.own else found.own := by
  unfold findJury CaseSight.juryMissing
  cases s.juryPresent <;> cases s.juryCodePresent <;> cases s.juryCompiles <;> rfl

theorem noneEscapes_findJury : NoneEscapes (findJury s found missing) ↔
    NoneEscapes (if s.juryMissing then missing else found) := by
  unfold findJury CaseSight.juryMissing
  cases s.juryPresent
  · cases s.juryCodePresent
    · exact Iff.rfl
    · cases s.juryCompiles <;> exact noneEscapes_forkExec true _
  · exact Iff.rfl

/-- A process that goes on with the loop returns or waits for one that has. -/
theorem own_gradeCasesProc (n k : Nat) (p : Pid) : (gradeCasesProc w n k p).own ≠ .replaced := by
  induction n generalizing k p with
  | zero =>
      rw [gradeCasesProc, Proc.own_helper, Proc.own_helper, Proc.own_done]
      decide
  | succ n ih =>
      rw [gradeCasesProc, Proc.own_helper]
      split
      · exact ih (k + 1) p
      split
      · rw [Proc.own_helper]
        exact ih (k + 1) p
      rw [Proc.own_fork, own_findJury]
      split
      · exact ih (k + 1) p
      split
      · decide
      · exact ih (k + 1) p

def ReturnsAlone (q : Proc Ending) : Prop := q.own = .returned ∧ NoneEscapes q

theorem returnsAlone_forkExec (forked : Bool) (q : Proc Ending) :
    ReturnsAlone (forkExec forked q) ↔ ReturnsAlone q := by
  rw [ReturnsAlone, Proc.own_helper, noneEscapes_forkExec, ReturnsAlone]

theorem returnsAlone_done : ReturnsAlone (.done .returned) := ⟨rfl, Proc.allSpawned_done _⟩

/-- One case: the rest of the loop returns alone, and a child forked for the jury finds it. -/
theorem returnsAlone_gradeCasesProc_succ : ReturnsAlone (gradeCasesProc w (n + 1) k p) ↔
    ((w.sight p k).forksJury = true → (w.sight (p ++ [k]) k).juryMissing = false) ∧
      ReturnsAlone (gradeCasesProc w n (k + 1) p) := by
  rw [gradeCasesProc, returnsAlone_forkExec]
  unfold CaseSight.forksJury
  cases hrun : (w.sight p k).runFailed
  · cases hrem : (w.sight p k).unremarkable
    · simp
    cases hcheck : (w.sight p k).checkScript
    · simp only [Bool.not_true, Bool.or_self, Bool.false_eq_true, ↓reduceIte, Bool.not_false,
        Bool.and_self, true_implies]
      cases hchild : (w.sight (p ++ [k]) k).juryMissing
      · -- the child is replaced by the jury
        simp only [ReturnsAlone, Proc.own_fork, own_findJury, Proc.allSpawned_fork,
          noneEscapes_findJury, hchild, Bool.false_eq_true, ↓reduceIte, ite_self, true_and,
          Proc.own_done, Proc.allSpawned_done]
      · -- the child goes on with the loop
        refine iff_of_false ?_ (by simp)
        rintro ⟨-, hspawned⟩
        have hown := ((Proc.allSpawned_fork _ _).mp hspawned).1
        rw [own_findJury, hchild, if_pos rfl] at hown
        exact own_gradeCasesProc n (k + 1) (p ++ [k]) hown
    · simp [returnsAlone_forkExec]
  · simp

theorem returnsAlone_gradeCasesProc_iff : ReturnsAlone (gradeCasesProc w n k p) ↔
    ∀ j, k ≤ j → j < k + n → (w.sight p j).forksJury = true →
      (w.sight (p ++ [j]) j).juryMissing = false := by
  induction n generalizing k with
  | zero =>
      refine iff_of_true ?_ (fun j hle hlt => by omega)
      rw [gradeCasesProc, returnsAlone_forkExec, returnsAlone_forkExec]
      exact returnsAlone_done
  | succ n ih =>
      rw [returnsAlone_gradeCasesProc_succ, ih]
      constructor
      · rintro ⟨hfirst, hrest⟩ j hle hlt
        rcases Nat.eq_or_lt_of_le hle with rfl | hgt
        · exact hfirst
        · exact hrest j hgt (by omega)
      · intro h
        exact ⟨h k (Nat.le_refl k) (by omega), fun j hle hlt => h j (by omega) (by omega)⟩

def ForkWorld.entersLoop (w : ForkWorld) : Bool :=
  w.taskFound && w.boxReady && !w.judgeScript && w.compiled

/-- Only the caller returns from `grade`, and no created process escapes, exactly when every child
that the caller forks for the jury finds the jury. -/
theorem only_caller_returns_iff (w : ForkWorld) (countCases : Nat) :
    ReturnsAlone (gradeProc w countCases) ↔
      (w.entersLoop = true → ∀ k, 1 ≤ k → k ≤ countCases → (w.sight [] k).forksJury = true →
        (w.sight [k] k).juryMissing = false) := by
  rw [gradeProc, returnsAlone_forkExec]
  unfold ForkWorld.entersLoop
  cases w.taskFound
  · exact iff_of_true returnsAlone_done nofun
  rw [Bool.not_true, if_neg Bool.false_ne_true, returnsAlone_forkExec]
  cases w.boxReady
  · exact iff_of_true returnsAlone_done nofun
  rw [Bool.not_true, if_neg Bool.false_ne_true, returnsAlone_forkExec]
  cases w.judgeScript
  · rw [if_neg Bool.false_ne_true, returnsAlone_forkExec]
    cases w.compiled
    · exact iff_of_true returnsAlone_done nofun
    rw [Bool.not_true, if_neg Bool.false_ne_true, returnsAlone_gradeCasesProc_iff]
    simp only [List.nil_append, Bool.and_self, Bool.not_false, true_implies]
    constructor
    · intro h k hpos hle
      exact h k hpos (by omega)
    · intro h k hpos hlt
      exact h k hpos (by omega)
  · rw [if_pos rfl, returnsAlone_forkExec]
    exact iff_of_true returnsAlone_done nofun

/-- A jury that is neither there nor can be compiled, in every case and every process. -/
def noJury : ForkWorld where
  taskFound := true
  initForked := true
  boxReady := true
  judgeScript := false
  judgeForked := false
  compileForked := true
  compiled := true
  sight := fun _ _ => ⟨false, true, false, false, false, false⟩
  scoreScript := fun _ => false

/-- With two cases and no jury, four processes return from `grade`. -/
theorem four_return_without_jury :
    ¬ ReturnsAlone (gradeProc noJury 2) ∧
      ((gradeProc noJury 2).own :: (gradeProc noJury 2).spawned).count .returned = 4 := by
  refine ⟨fun h => ?_, by decide⟩
  have hspawned : Ending.returned ∈ (gradeProc noJury 2).spawned := by decide
  exact absurd (h.2 _ hspawned) (by decide)

/-! ## The sight of a modelled case -/

section Sight

variable {task : Task} {world : CaseWorld} {c : Carry}

/-- What the caller finds at a case with these inputs. -/
def CaseWorld.sight (task : Task) (w : CaseWorld) (k : Nat) (c : Carry) : CaseSight where
  runFailed := runTaskRunScript w.runScript < 0
  unremarkable := w.statFile.any fun file =>
    (statusVerdict task k (max c.maxTime (readStat file).caseTime)
      (max c.maxMem (readStat file).caseMem) (readStat file)).isNone
  checkScript := runTaskCheckScript (w.checkScript (judgedFile w k c.tmp)) ≠ 1
  juryPresent := w.juryPresent
  juryCodePresent := w.juryCodePresent
  juryCompiles := w.juryCompiles

/-- Where the caller forks for the jury, the jury decides the case. -/
theorem gradeCase_forksJury (hspecial : task.comparison = "special".toList)
    (h : (world.sight task k c).forksJury = true) :
    (gradeCase task world k c).2 = askJury world k (judgedFile world k c.tmp) := by
  simp only [CaseSight.forksJury, CaseWorld.sight, Bool.and_eq_true, Bool.not_eq_true',
    decide_eq_false_iff_not, not_not, Option.any_eq_true, Option.isNone_iff_eq_none] at h
  obtain ⟨⟨hrun, file, hstat, hstatus⟩, hcheck⟩ := h
  rw [gradeCase_stat hrun hstat, hstatus, Option.none_or, judgeOutput, hcheck, if_neg (by decide),
    if_neg (by decide), if_pos ⟨rfl, hspecial⟩]

/-- Where it then finds no jury, the case ends with an internal error. -/
theorem askJury_juryMissing {out : Option Text} (h : (world.sight task k c).juryMissing = true) :
    askJury world k out = some "internal error:jury not present".toList ∨
      askJury world k out = some "internal error:failed compiling jury".toList := by
  simp only [CaseSight.juryMissing, CaseWorld.sight, Bool.and_eq_true, Bool.not_eq_true',
    Bool.or_eq_true] at h
  obtain ⟨hpresent, hcode⟩ := h
  unfold askJury
  cases hfound : world.juryCodePresent with
  | false => exact Or.inl (by simp [hpresent])
  | true =>
      rcases hcode with hcode | hcompiles
      · rw [hfound] at hcode
        cases hcode
      · exact Or.inr (by simp [hpresent, hcompiles])

end Sight

end Tle.Grade
