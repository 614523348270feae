import Tle.Grade.AcceptedTheorems
import Tle.Grade.JuryTheorems
import Tle.Grade.Lemmas.Descriptors

/-!
# The descriptors a run of `grade` leaves open

A run that returns gives the outcome of the evaluator, and keeps the descriptors of its process unless it writes a
file short or gets to a jury.
-/

namespace Tle.Grade.Descriptors
open Tle.Lib

variable {foreign : Finset Nat → Finset Nat} {task : Task} {x : Steps} {w : Nat → CaseWorld} {tmp : Tmp} {k : Nat}

/-! ## The cases that get to a jury -/

/-- The run of case `k` ends well and within the limits, and so do the runs before it as far as they are looked at
again. -/
structure RunsWell (task : Task) (w : Nat → CaseWorld) (k : Nat) : Prop where
  run : ¬runTaskRunScript (w k).runScript < 0
  status : ∃ file, (w k).statFile = some file ∧ (readStat file).stat ≠ "XX".toList ∧
    (readStat file).stat ≠ "TO".toList ∧ (readStat file).stat ≠ "SG".toList ∧ (readStat file).subexitcode = 0 ∧
      ((readStat file).stat ≠ [] → ∀ j, 1 ≤ j → j ≤ k → recordedMem (w j) ≤ task.memoryLimit)
  time : ∀ j, 1 ≤ j → j ≤ k → recordedTime (w j) ≤ task.timeLimit

theorem carryAfter_pred (hpos : 1 ≤ k) : carryAfter task w tmp k =
    (Grade.gradeCase task (w k) k (carryAfter task w tmp (k - 1))).1 := by
  obtain ⟨k, rfl⟩ := Nat.exists_eq_add_of_le' hpos
  rfl

/-- The maxima a case is classified with. -/
theorem max_carryAfter {file : Text} (hpos : 1 ≤ k) (hrun : ¬runTaskRunScript (w k).runScript < 0)
    (hstat : (w k).statFile = some file) :
    max (carryAfter task w tmp (k - 1)).maxTime (readStat file).caseTime = (carryAfter task w tmp k).maxTime ∧
      max (carryAfter task w tmp (k - 1)).maxMem (readStat file).caseMem = (carryAfter task w tmp k).maxMem := by
  rw [carryAfter_pred hpos, gradeCase_maxTime, gradeCase_maxMem, recordedTime, recordedMem, if_neg hrun, if_neg hrun,
    hstat]
  exact ⟨rfl, rfl⟩

theorem reachesComparison_iff (hpos : 1 ≤ k) :
    ReachesComparison task (w k) k (carryAfter task w tmp (k - 1)) ↔ RunsWell task w k := by
  have htime : (carryAfter task w tmp k).maxTime ≤ task.timeLimit ↔
      ∀ j, 1 ≤ j → j ≤ k → recordedTime (w j) ≤ task.timeLimit := by
    rw [← Nat.not_lt, ← gt_iff_lt, carryAfter_maxTime]
    simp
  have hmem : (carryAfter task w tmp k).maxMem ≤ task.memoryLimit ↔
      ∀ j, 1 ≤ j → j ≤ k → recordedMem (w j) ≤ task.memoryLimit := by
    rw [← Nat.not_lt, ← gt_iff_lt, carryAfter_maxMem]
    simp
  constructor
  · rintro ⟨hrun, file, hstat, hnone⟩
    obtain ⟨hmaxTime, hmaxMem⟩ := @max_carryAfter task w tmp k file hpos hrun hstat
    rw [hmaxTime, hmaxMem, statusVerdict_eq_none_iff, htime, hmem] at hnone
    obtain ⟨⟨hxx, hto, hsg⟩, hlimit, hcode, hmemory⟩ := hnone
    exact ⟨hrun, ⟨file, hstat, hxx, hto, hsg, hcode, hmemory⟩, hlimit⟩
  · rintro ⟨hrun, ⟨file, hstat, hxx, hto, hsg, hcode, hmemory⟩, hlimit⟩
    obtain ⟨hmaxTime, hmaxMem⟩ := @max_carryAfter task w tmp k file hpos hrun hstat
    refine ⟨hrun, file, hstat, ?_⟩
    rw [hmaxTime, hmaxMem, statusVerdict_eq_none_iff, htime, hmem]
    exact ⟨⟨hxx, hto, hsg⟩, hlimit, hcode, hmemory⟩

/-- Some case gets to the jury of the task. -/
def AsksJury (task : Task) (x : Steps) : Prop :=
  ∃ k, 1 ≤ k ∧ k ≤ task.countCases ∧ RunsWell task x.run.cases k ∧ ToJury task (x.cases k)

/-! ## The parts of a run -/

theorem leaves_fetchGroups (hforeign : ∀ s, foreign s = s) (x : Steps) :
    Leaves foreign (fetchGroups x) x.groups False := by
  apply Leaves.of_eval
  intro s
  unfold fetchGroups
  cases x.firstGroups with
  | none => simp [hforeign]
  | some groups => cases groups <;> simp [hforeign]

theorem leaves_evaluate (hforeign : ∀ s, foreign s = s) (compilerOutput : Option Text) :
    Leaves foreign (evaluate task x compilerOutput) (Grade.evaluate task x.run compilerOutput)
      ((x.groups = [] ∨ x.marksAllocated = true) ∧ AsksJury task x) := by
  have hmarks : (x.groups ≠ [] ∧ (!x.marksAllocated) = true) ↔ ¬(x.groups = [] ∨ x.marksAllocated = true) := by simp
  apply ((leaves_fetchGroups hforeign x).bind ?_).congr (iff_of_eq (false_or _))
  have hgroups : x.run.groups = x.groups := rfl
  have hallocated : x.run.marksAllocated = x.marksAllocated := rfl
  rw [Grade.evaluate, hgroups, hallocated]
  by_cases hscores : x.groups = [] ∨ x.marksAllocated = true
  · have hloop := @leaves_gradeLoop foreign task x.groups x.cases x.tmp task.countCases
    have hasks : AsksJury task x ↔ ∃ k, 1 ≤ k ∧ k ≤ task.countCases ∧ ReachesComparison task (x.cases k).world k
        (carryAfter task (fun k => (x.cases k).world) x.tmp (k - 1)) ∧ ToJury task (x.cases k) := by
      apply exists_congr
      intro k
      apply and_congr_right
      intro hpos
      rw [@reachesComparison_iff task (fun k => (x.cases k).world) x.tmp k hpos]
      rfl
    rw [if_neg (fun h => hmarks.mp h hscores), if_neg (fun h => hmarks.mp h hscores)]
    apply (hloop.bind_keeps fun s => ?_).congr (by rw [hasks, and_iff_right hscores])
    rw [Prog.eval_bind, eval_runTaskScoreScript]
    rfl
  · rw [if_pos (hmarks.mpr hscores), if_pos (hmarks.mpr hscores)]
    exact (Leaves.ret none).congr (by simp [hscores])

theorem safeTkcmp_unopened (answer : Option Text) : Grade.safeTkcmp answer none = -1 := by
  cases answer <;> rfl

theorem leaves_gradeOutputOnly (x : Steps) : Leaves foreign (gradeOutputOnly task x)
    (Grade.gradeOutputOnly task x.run.answer x.run.outputWritable x.run.code)
    (task.countCases = 1 ∧ x.output.Short) := by
  have hcode : x.run.code = x.code := rfl
  have hwritable : x.run.outputWritable = x.output.ok := rfl
  have hanswer : x.run.answer = if x.outputReadable then x.answer else none := rfl
  have hmatch : Grade.safeTkcmp x.answer (if x.outputReadable then some (cstr x.code) else none) =
      Grade.safeTkcmp (if x.outputReadable then x.answer else none) (some (cstr x.code)) := by
    cases x.outputReadable with
    | false => exact safeTkcmp_unopened x.answer
    | true => rfl
  rw [gradeOutputOnly, Grade.gradeOutputOnly, hcode, hwritable, hanswer]
  by_cases hone : task.countCases = 1
  · simp only [hone, ne_eq, not_true_eq_false, if_false, false_or, true_and]
    apply (leaves_writeTextPath x.output).bind_keeps
    intro s
    cases x.output.ok with
    | false => rfl
    | true =>
        rw [if_pos rfl, if_neg (by simp), Prog.eval_bind, eval_safeTkcmp, hmatch]
        rfl
  · rw [if_pos hone, if_pos (Or.inl hone)]
    exact (Leaves.ret none).congr (by simp [hone])

/-- The run passes the compilation. -/
def Compiles (x : Steps) : Prop :=
  ∃ compilerOutput, Grade.compileStage x.run.compileScript x.run.compiles x.run.diagnostic = some (true, compilerOutput)

theorem leaves_gradeBuiltin (hforeign : ∀ s, foreign s = s) (hprepared : x.run.prepared = true)
    (hbuiltin : task.comparison ≠ "output_only".toList) (hjudge : x.run.judge = .absent) :
    Leaves foreign (gradeBuiltin task x) (Grade.grade task x.run)
      ((x.compileScript.present = true ∧ x.compileScript.source.Short) ∨
        Compiles x ∧ (x.groups = [] ∨ x.marksAllocated = true) ∧ AsksJury task x) := by
  apply (leaves_compileStage x).bind
  unfold Compiles Grade.grade
  rw [hprepared, if_neg hbuiltin, hjudge]
  cases Grade.compileStage x.run.compileScript x.run.compiles x.run.diagnostic with
  | none => exact (Leaves.ret none).congr (by simp)
  | some stage =>
      obtain ⟨compiled, compilerOutput⟩ := stage
      cases compiled with
      | false => exact (Leaves.ret _).congr (by simp)
      | true => exact (leaves_evaluate hforeign compilerOutput).congr (by simp)

/-- What `grade` does in the sandbox leaves a descriptor open. -/
inductive LeaksInBox (task : Task) (x : Steps) : Prop
  | output (hcomparison : task.comparison = "output_only".toList) (hcases : task.countCases = 1)
      (hshort : x.output.Short)
  | judge (hcomparison : task.comparison ≠ "output_only".toList) (hpresent : x.judge.present = true)
      (hshort : x.judge.source.Short)
  | compileScript (hcomparison : task.comparison ≠ "output_only".toList) (habsent : x.judge.present = false)
      (hpresent : x.compileScript.present = true) (hshort : x.compileScript.source.Short)
  | jury (hcomparison : task.comparison ≠ "output_only".toList) (habsent : x.judge.present = false)
      (hcompiles : Compiles x) (hmarks : x.groups = [] ∨ x.marksAllocated = true) (hasks : AsksJury task x)

theorem leaksInBox_output (hcomparison : task.comparison = "output_only".toList) :
    LeaksInBox task x ↔ task.countCases = 1 ∧ x.output.Short := by
  constructor
  · intro h
    cases h with
    | output _ hcases hshort => exact ⟨hcases, hshort⟩
    | judge hne => exact absurd hcomparison hne
    | compileScript hne => exact absurd hcomparison hne
    | jury hne => exact absurd hcomparison hne
  · intro h
    exact .output hcomparison h.1 h.2

theorem leaksInBox_judge (hcomparison : task.comparison ≠ "output_only".toList) (hpresent : x.judge.present = true) :
    LeaksInBox task x ↔ x.judge.source.Short := by
  constructor
  · intro h
    cases h with
    | output heq => exact absurd heq hcomparison
    | judge _ _ hshort => exact hshort
    | compileScript _ habsent => simp [hpresent] at habsent
    | jury _ habsent => simp [hpresent] at habsent
  · intro h
    exact .judge hcomparison hpresent h

theorem leaksInBox_builtin (hcomparison : task.comparison ≠ "output_only".toList) (habsent : x.judge.present = false) :
    LeaksInBox task x ↔ (x.compileScript.present = true ∧ x.compileScript.source.Short) ∨
      Compiles x ∧ (x.groups = [] ∨ x.marksAllocated = true) ∧ AsksJury task x := by
  constructor
  · intro h
    cases h with
    | output heq => exact absurd heq hcomparison
    | judge _ hpresent => simp [habsent] at hpresent
    | compileScript _ _ hpresent hshort => exact Or.inl ⟨hpresent, hshort⟩
    | jury _ _ hcompiles hmarks hasks => exact Or.inr ⟨hcompiles, hmarks, hasks⟩
  · rintro (⟨hpresent, hshort⟩ | ⟨hcompiles, hmarks, hasks⟩)
    · exact .compileScript hcomparison habsent hpresent hshort
    · exact .jury hcomparison habsent hcompiles hmarks hasks

theorem run_ne_absent {x : JudgeSteps} (h : x.present = true) : x.run ≠ .absent := by
  rw [JudgeSteps.run, if_neg (by simp [h])]
  split_ifs <;> simp

theorem leaves_gradeInBox (hforeign : ∀ s, foreign s = s) (hprepared : x.run.prepared = true) :
    Leaves foreign (gradeInBox task x) (Grade.grade task x.run) (LeaksInBox task x) := by
  by_cases hcomparison : task.comparison = "output_only".toList
  · rw [leaksInBox_output hcomparison, gradeInBox, if_pos hcomparison, Grade.grade, hprepared, if_neg (by simp),
      if_pos hcomparison]
    exact (leaves_gradeOutputOnly x).bind_keeps fun s => rfl
  · have hrun : x.run.judge = x.judge.run := rfl
    have hscript := @leaves_runTaskScript foreign x.judge
    rw [gradeInBox, if_neg hcomparison]
    cases hpresent : x.judge.present with
    | true =>
        rw [leaksInBox_judge hcomparison hpresent, Grade.grade, hprepared, if_neg (by simp), if_neg hcomparison, hrun]
        apply (hscript.bind_keeps ?_).congr (by simp [hpresent])
        intro s
        unfold JudgeSteps.returned
        cases hjudge : x.judge.run with
        | absent => exact absurd hjudge (run_ne_absent hpresent)
        | failed => rfl
        | done written => cases written <;> rfl
    | false =>
        have hjudge : x.judge.run = .absent := if_pos (by simp [hpresent])
        rw [JudgeSteps.returned, hjudge] at hscript
        rw [leaksInBox_builtin hcomparison hpresent]
        apply (hscript.bind (leaves_gradeBuiltin hforeign hprepared hcomparison hjudge)).congr
        simp [hpresent]

/-- The sandbox is set up, and what `grade` does in it leaves a descriptor open. -/
def Leaks (task : Task) (x : Steps) : Prop := x.run.prepared = true ∧ LeaksInBox task x

theorem leaves_grade (hforeign : ∀ s, foreign s = s) (task : Task) (x : Steps) :
    Leaves foreign (grade task x) (Grade.grade task x.run) (Leaks task x) := by
  have hprepared : x.run.prepared = (x.taskFound && x.pathsReady && x.box.ok && x.boxPathFits && x.taskFiles.ok) := rfl
  have hstops (h : x.run.prepared = false) :
      Leaves foreign (Prog.ret none) (Grade.grade task x.run) (Leaks task x) := by
    rw [Grade.grade, h, if_pos (by simp)]
    exact (Leaves.ret none).congr (by simp [Leaks, h])
  apply Leaves.keeps_bind (fun s => by rw [eval_callForeign, hforeign])
  cases hfound : x.taskFound with
  | false => exact hstops (by simp [hprepared, hfound])
  | true =>
      cases hpaths : x.pathsReady with
      | false => exact hstops (by simp [hprepared, hpaths])
      | true =>
          apply Leaves.keeps_bind (fun s => eval_isolateInitBox x.box)
          cases hbox : x.box.ok with
          | false => exact hstops (by simp [hprepared, hbox])
          | true =>
              cases hfits : x.boxPathFits with
              | false => exact hstops (by simp [hprepared, hfits])
              | true =>
                  apply Leaves.keeps_bind (fun s => eval_copyTaskFiles x.taskFiles)
                  cases hfiles : x.taskFiles.ok with
                  | false => exact hstops (by simp [hprepared, hfiles])
                  | true =>
                      have htrue : x.run.prepared = true := by simp [hprepared, hfound, hpaths, hbox, hfits, hfiles]
                      exact (leaves_gradeInBox hforeign htrue).congr (by simp [Leaks, htrue])

/-- None of the calls fails that the process exits for. -/
structure Steps.Survives (x : Steps) : Prop where
  compile : x.compile.forked = true
  cases : ∀ k, (x.cases k).Survives

theorem returns_compileStage (h : x.Survives) : Returns foreign (compileStage x) := by
  apply (returns_runTaskCompileScript x.compileScript).bind
  intro script
  cases script with
  | absent =>
      apply (returns_compile x.compile h.compile).bind
      intro compiled
      split
      · exact Returns.ret _
      · exact (Returns.of_eval fun s => eval_readFile x.diagnostic).bind fun _ => Returns.ret _
  | error => exact Returns.ret _
  | failed output => exact Returns.ret _
  | done => exact Returns.ret _

theorem returns_fetchGroups (x : Steps) : Returns foreign (fetchGroups x) := by
  apply Returns.callForeign.bind
  intro _
  cases x.firstGroups with
  | none => exact Returns.ret _
  | some groups =>
      cases groups with
      | nil => exact Returns.ret _
      | cons g rest => exact Returns.callForeign.bind fun _ => Returns.ret _

theorem returns_evaluate (h : x.Survives) (compilerOutput : Option Text) :
    Returns foreign (evaluate task x compilerOutput) := by
  apply (returns_fetchGroups x).bind
  intro groups
  split
  · exact Returns.ret _
  · apply (returns_gradeLoop groups x.cases h.cases x.tmp task.countCases).bind
    intro looped
    exact (Returns.of_eval fun s => eval_runTaskScoreScript x.scoreScript).bind fun _ => Returns.ret _

theorem returns_gradeOutputOnly (x : Steps) : Returns foreign (gradeOutputOnly task x) := by
  unfold gradeOutputOnly
  split
  · exact Returns.ret _
  · apply (returns_writeTextPath x.output).bind
    intro written
    split
    · exact Returns.ret _
    · exact (Returns.of_eval fun s => eval_safeTkcmp _ _).bind fun _ => Returns.ret _

theorem returns_gradeInBox (h : x.Survives) : Returns foreign (gradeInBox task x) := by
  unfold gradeInBox
  split
  · exact (returns_gradeOutputOnly x).bind fun _ => Returns.ret _
  · apply (returns_runTaskScript x.judge).bind
    rintro ⟨customResult, report⟩
    dsimp only
    split
    · exact Returns.ret _
    · split
      · exact Returns.ret _
      · apply (returns_compileStage h).bind
        intro stage
        split
        · exact Returns.ret _
        · exact Returns.ret _
        · exact returns_evaluate h _

theorem returns_grade (foreign : Finset Nat → Finset Nat) (task : Task) (x : Steps) (h : x.Survives) :
    Returns foreign (grade task x) := by
  apply Returns.callForeign.bind
  intro _
  split
  · exact Returns.ret _
  · split
    · exact Returns.ret _
    · apply (Returns.of_eval fun s => eval_isolateInitBox x.box).bind
      intro initialised
      split
      · exact Returns.ret _
      · split
        · exact Returns.ret _
        · apply (Returns.of_eval fun s => eval_copyTaskFiles x.taskFiles).bind
          intro copied
          split
          · exact Returns.ret _
          · exact returns_gradeInBox h

/-- A run that returns gives the outcome of the evaluator. -/
theorem grade_refines (foreign : Finset Nat → Finset Nat) (hforeign : ∀ s, foreign s = s) (task : Task) (x : Steps)
    (s s' : Finset Nat) (out : Option Outcome)
    (hreturns : (grade task x).eval (fdSem foreign) s = some (out, s')) : out = Grade.grade task x.run :=
  (leaves_grade hforeign task x s out s' hreturns).1

/-- A run that returns leaves the process with the descriptors it had, exactly if it writes no file short and gets to
no jury. -/
theorem grade_keeps_descriptors_iff (foreign : Finset Nat → Finset Nat) (hforeign : ∀ s, foreign s = s) (task : Task)
    (x : Steps) (s s' : Finset Nat) (out : Option Outcome)
    (hreturns : (grade task x).eval (fdSem foreign) s = some (out, s')) : s' = s ↔ ¬Leaks task x :=
  (leaves_grade hforeign task x s out s' hreturns).2.2

/-! ## Sample runs -/

def writesAll : WriteSteps := ⟨true, true, true⟩

def noFile : ReadSteps := ⟨false, false, []⟩

/-- The run writes `42`, and a jury that is there accepts. -/
def acceptedSteps : CaseSteps where
  inputOpened := true
  inputWritable := true
  runScript := .absent
  sandboxForked := true
  output := ⟨.regular "42".toList, true⟩
  statFile := some []
  answer := some "42\n".toList
  checkScript := none
  juryPiped := true
  juryForked := true
  juryPresent := true
  juryCodePresent := false
  compilerForked := true
  juryCompiles := false
  pipeClosed := true
  jury := fun _ => ⟨true, "ok".toList⟩
  verdictRead := true
  verdictBefore := ('\x00', '\x00')

/-- Nothing fails, and the task has no scripts. -/
def plainSteps : Steps where
  taskFound := true
  pathsReady := true
  box := ⟨true, true, true, true⟩
  boxPathFits := true
  taskFiles := ⟨false, false, false, []⟩
  code := "int main() {}".toList
  output := writesAll
  outputReadable := true
  answer := none
  judge := ⟨false, writesAll, false, noFile, fun _ => noFile⟩
  compileScript := ⟨false, writesAll, false, false, false, noFile⟩
  compile := ⟨true, true, true, true⟩
  diagnostic := noFile
  firstGroups := none
  secondGroups := none
  marksAllocated := true
  cases := fun _ => acceptedSteps
  tmp := fun _ => none
  scoreScript := none

theorem plainSteps_survives : plainSteps.Survives := ⟨rfl, fun _ => ⟨rfl, rfl, rfl, rfl, rfl, rfl⟩⟩

theorem plainSteps_runsWell (task : Task) (k : Nat) : RunsWell task plainSteps.run.cases k where
  run := Int.not_lt.mpr Int.one_nonneg
  status := ⟨[], rfl, by decide, by decide, by decide, rfl, fun h => absurd rfl h⟩
  time := fun j _ _ => Nat.zero_le _

/-- Tokens are compared, and nothing stays open. -/
theorem grade_keeps_descriptors_plain : ∃ out s',
    (grade aTask plainSteps).eval (fdSem id) ∅ = some (out, s') ∧ s' = ∅ := by
  obtain ⟨out, s', hreturns⟩ := returns_grade id aTask plainSteps plainSteps_survives ∅
  have hiff := grade_keeps_descriptors_iff id (fun _ => rfl) aTask plainSteps ∅ s' out hreturns
  refine ⟨out, s', hreturns, hiff.mpr ?_⟩
  rintro ⟨-, hleaks⟩
  cases hleaks with
  | output hcomparison => exact absurd hcomparison (by decide)
  | judge _ hpresent => cases hpresent
  | compileScript _ _ hpresent => cases hpresent
  | jury _ _ _ _ hasks =>
      obtain ⟨k, -, -, -, hjury⟩ := hasks
      exact absurd hjury.2 (by decide)

/-- A jury accepts, and the pipe to it stays open. -/
theorem grade_leaks_pipe : ¬∀ foreign : Finset Nat → Finset Nat, (∀ s, foreign s = s) → ∀ (task : Task) (x : Steps)
    (s s' : Finset Nat) (out : Option Outcome), (grade task x).eval (fdSem foreign) s = some (out, s') → s' = s := by
  intro h
  obtain ⟨out, s', hreturns⟩ := returns_grade id specialTask plainSteps plainSteps_survives ∅
  have hleaks : Leaks specialTask plainSteps := by
    refine ⟨rfl, .jury (by decide) rfl ⟨none, rfl⟩ (Or.inl rfl) ⟨1, le_refl 1, by decide, ?_, rfl, rfl⟩⟩
    exact plainSteps_runsWell specialTask 1
  exact (leaves_grade (fun _ => rfl) specialTask plainSteps ∅ out s' hreturns).2.2.mp
    (h id (fun _ => rfl) specialTask plainSteps ∅ s' out hreturns) hleaks

end Tle.Grade.Descriptors
