import Tle.Grade.Descriptors
import Tle.Grade.Theorems

/-!
# What the functions under `grade` leave open

Each of them keeps the descriptors as they are, but for a file that is written short and for the pipe of a jury.
-/

namespace Tle.Grade.Descriptors
open Tle.Lib

variable {foreign : Finset Nat → Finset Nat} {task : Task} {s : Finset Nat}

/-! ## Functions that close what they open -/

@[simp] theorem eval_readFile (r : ReadSteps) : (readFile r).eval (fdSem foreign) s = some (r.value, s) := by
  obtain ⟨opened, allocated, content⟩ := r
  cases opened <;> cases allocated <;> simp [readFile, ReadSteps.value]

@[simp] theorem eval_copy (sourceOpened destOpened : Bool) : (copy sourceOpened destOpened).eval (fdSem foreign) s =
    some (if sourceOpened && destOpened then 0 else -1, s) := by
  cases sourceOpened <;> cases destOpened <;> simp [copy]

@[simp] theorem eval_safeTkcmp (p1 p2 : Option Text) : (safeTkcmp p1 p2).eval (fdSem foreign) s =
    some (Grade.safeTkcmp p1 p2, s) := by
  cases p1 <;> cases p2 <;> simp [safeTkcmp, Grade.safeTkcmp]

@[simp] theorem eval_isolateInitBox (b : BoxSteps) : (isolateInitBox b).eval (fdSem foreign) s =
    some (if b.ok then 0 else -1, s) := by
  obtain ⟨piped, forked, fdopened, read⟩ := b
  cases piped with
  | false => simp [isolateInitBox, BoxSteps.ok]
  | true =>
      cases forked with
      | false => simp [isolateInitBox, BoxSteps.ok]
      | true => cases fdopened <;> simp [isolateInitBox, BoxSteps.ok]

/-- On every way out of the loop the directory is closed. -/
theorem eval_copyEntries (dir : Nat) (entries : List Entry) :
    (copyEntries (some dir) entries).eval (fdSem foreign) s =
      some (if entries.all Entry.ok then 0 else -1, s.erase dir) := by
  induction entries with
  | nil => simp [copyEntries]
  | cons e rest ih =>
      obtain ⟨skipped, regular, sourceOpened, destOpened⟩ := e
      cases skipped with
      | true => simpa [copyEntries, Entry.ok] using ih
      | false =>
          cases regular with
          | false => simp [copyEntries, Entry.ok]
          | true =>
              cases hcopied : sourceOpened && destOpened with
              | false => simp [copyEntries, Entry.ok, hcopied]
              | true => simpa [copyEntries, Entry.ok, hcopied] using ih

@[simp] theorem eval_copyTaskFiles (x : FilesSteps) : (copyTaskFiles x).eval (fdSem foreign) s =
    some (if x.ok then 0 else -1, s) := by
  obtain ⟨accessible, made, opened, entries⟩ := x
  cases accessible with
  | false => simp [copyTaskFiles, FilesSteps.ok]
  | true =>
      cases made with
      | false => simp [copyTaskFiles, FilesSteps.ok]
      | true => cases opened <;> simp [copyTaskFiles, FilesSteps.ok, eval_copyEntries]

@[simp] theorem eval_runTaskCheckScript (x : Option StageSteps) :
    (runTaskCheckScript x).eval (fdSem foreign) s = some (StageSteps.check x, s) := by
  cases x with
  | none => rfl
  | some x =>
      obtain ⟨staged, result⟩ := x
      cases staged <;> simp [runTaskCheckScript, StageSteps.check]

@[simp] theorem eval_runTaskScoreScript (x : Option StageSteps) :
    (runTaskScoreScript x).eval (fdSem foreign) s = some (StageSteps.score x, s) := by
  cases x with
  | none => rfl
  | some x =>
      obtain ⟨staged, result⟩ := x
      cases staged <;> simp [runTaskScoreScript, StageSteps.score]

@[simp] theorem eval_readLine (files : Text → ReadSteps) (r : JudgeReport) (line : Text) :
    (readLine files r line).eval (fdSem foreign) s = some (r.readLine (fun path => (files path).value) line, s) := by
  unfold readLine JudgeReport.readLine
  cases line.dropWhile (· ≠ '=') with
  | nil => rfl
  | cons c value =>
      simp only
      split_ifs <;> simp

@[simp] theorem eval_readLines (files : Text → ReadSteps) (r : JudgeReport) (text : List Text) :
    (readLines files r text).eval (fdSem foreign) s =
      some (text.foldl (JudgeReport.readLine fun path => (files path).value) r, s) := by
  induction text generalizing r with
  | nil => rfl
  | cons line rest ih => simp [readLines, ih]

@[simp] theorem eval_readStatFile (statFile : Option Text) : (readStatFile statFile).eval (fdSem foreign) s =
    some (statFile.map readStat, s) := by
  cases statFile <;> simp [readStatFile]

theorem leaves_compile (c : CompileSteps) : Leaves foreign (compile c) (if c.ok then 0 else 1) False := by
  obtain ⟨opened, written, forked, exitedZero⟩ := c
  cases opened with
  | false => exact Leaves.of_eval fun s => by simp [compile, CompileSteps.ok]
  | true =>
      cases written with
      | false => exact Leaves.of_eval fun s => by simp [compile, CompileSteps.ok]
      | true =>
          cases forked with
          | false => exact Leaves.of_dies fun s => by simp [compile]
          | true => exact Leaves.of_eval fun s => by simp [compile, CompileSteps.ok]

/-! ## A file that is written short -/

/-- The file is opened, and `fwrite` does not write all of it. -/
def WriteSteps.Short (w : WriteSteps) : Prop := w.opened = true ∧ w.written = false

theorem leaves_writeTextPath (w : WriteSteps) :
    Leaves foreign (writeTextPath w) (if w.ok then 0 else -1) w.Short := by
  obtain ⟨opened, written, closed⟩ := w
  cases opened with
  | false =>
      apply (Leaves.of_eval fun s => by simp [writeTextPath, WriteSteps.ok]).congr
      simp [WriteSteps.Short]
  | true =>
      cases written with
      | false =>
          apply (Leaves.of_ssubset fun s => Or.inr ⟨_, rfl, ssubset_fopen⟩).congr
          simp [WriteSteps.Short]
      | true =>
          apply (Leaves.of_eval fun s => by simp [writeTextPath, WriteSteps.ok]).congr
          simp [WriteSteps.Short]

theorem leaves_runTaskScript (x : JudgeSteps) :
    Leaves foreign (runTaskScript x) x.returned (x.present = true ∧ x.source.Short) := by
  obtain ⟨present, source, staged, result, files⟩ := x
  cases present with
  | false => exact (Leaves.ret _).congr (by simp)
  | true =>
      rw [runTaskScript, if_neg (by simp)]
      apply ((leaves_writeTextPath source).bind_keeps ?_).congr (by simp)
      intro s
      cases hok : source.ok with
      | false => simp [JudgeSteps.returned, JudgeSteps.run, hok]
      | true =>
          cases staged with
          | false => simp [JudgeSteps.returned, JudgeSteps.run]
          | true => cases hvalue : result.value <;> simp [JudgeSteps.returned, JudgeSteps.run, judgeReport, hok, hvalue]

theorem leaves_runTaskCompileScript (x : CompileScriptSteps) :
    Leaves foreign (runTaskCompileScript x) x.run (x.present = true ∧ x.source.Short) := by
  obtain ⟨present, source, waited, exitedZero, executable, diagnostic⟩ := x
  cases present with
  | false => exact (Leaves.ret _).congr (by simp)
  | true =>
      rw [runTaskCompileScript, if_neg (by simp)]
      apply ((leaves_writeTextPath source).bind_keeps ?_).congr (by simp)
      intro s
      cases hok : source.ok with
      | false => simp [CompileScriptSteps.run, hok]
      | true =>
          cases waited with
          | false => simp [CompileScriptSteps.run]
          | true =>
              cases exitedZero with
              | false => simp [CompileScriptSteps.run, hok]
              | true => cases executable <;> simp [CompileScriptSteps.run, hok]

theorem leaves_compileStage (x : Steps) :
    Leaves foreign (compileStage x) (Grade.compileStage x.run.compileScript x.run.compiles x.run.diagnostic)
      (x.compileScript.present = true ∧ x.compileScript.source.Short) := by
  apply ((leaves_runTaskCompileScript x.compileScript).bind ?_).congr (iff_of_eq (or_false _))
  change Leaves foreign _ (Grade.compileStage x.compileScript.run x.compile.ok x.diagnostic.value) False
  cases x.compileScript.run with
  | error => exact Leaves.ret _
  | failed output => exact Leaves.ret _
  | done => exact Leaves.ret _
  | absent =>
      apply (leaves_compile x.compile).bind_keeps
      intro s
      cases hok : x.compile.ok <;> simp [Grade.compileStage]

/-! ## The pipe of a jury -/

theorem eval_runJury (x : CaseSteps) (k : Nat) (out : Option Text) (fildes : Nat × Nat) :
    (runJury x k out fildes).eval (fdSem foreign) s = none ∨ (runJury x k out fildes).eval (fdSem foreign) s =
      some (if !(x.jury out).exitedZero then some "internal error:jury failed".toList
        else juryVerdict k (verdictBytes x.world (x.jury out)), s.erase fildes.2) := by
  unfold runJury
  cases x.juryForked with
  | false => exact Or.inl rfl
  | true =>
      cases x.pipeClosed with
      | false => exact Or.inl rfl
      | true =>
          cases hexit : (x.jury out).exitedZero with
          | false => exact Or.inr (by simp [hexit])
          | true =>
              cases x.verdictRead with
              | false => exact Or.inl (by simp [hexit])
              | true => exact Or.inr (by simp [hexit])

/-- The end of the pipe that is read stays open. -/
theorem leaves_askJury (x : CaseSteps) (k : Nat) (out : Option Text) :
    Leaves foreign (askJury x k out) (Grade.askJury x.world k out) True := by
  apply Leaves.expecting
  apply Leaves.piped
  intro s r w hr hw
  have hpipe : s ⊂ insert w (insert r s) := (Finset.ssubset_insert hr).trans (Finset.ssubset_insert hw)
  have hread : s ⊂ (insert w (insert r s)).erase w := by
    rw [Finset.erase_insert hw]
    exact Finset.ssubset_insert hr
  have hpresent : x.world.juryPresent = x.juryPresent := rfl
  have hcode : x.world.juryCodePresent = x.juryCodePresent := rfl
  have hcompiles : x.world.juryCompiles = x.juryCompiles := rfl
  rw [Grade.askJury, hpresent, hcode, hcompiles]
  cases x.juryPresent with
  | true => exact (eval_runJury x k out (r, w)).imp_right fun hreturns => ⟨_, hreturns, hread⟩
  | false =>
      cases x.juryCodePresent with
      | false => exact Or.inr ⟨_, rfl, hpipe⟩
      | true =>
          cases x.compilerForked with
          | false => exact Or.inl rfl
          | true =>
              cases x.juryCompiles with
              | false => exact Or.inr ⟨_, rfl, hpipe⟩
              | true => exact (eval_runJury x k out (r, w)).imp_right fun hreturns => ⟨_, hreturns, hread⟩

theorem runTaskCheckScript_eq_one {run : CheckRun} : Grade.runTaskCheckScript run = 1 ↔ run = .absent := by
  cases run with
  | absent => simp [Grade.runTaskCheckScript]
  | failed => simp [Grade.runTaskCheckScript]
  | done written =>
      cases written with
      | none => simp [Grade.runTaskCheckScript]
      | some written =>
          simp only [Grade.runTaskCheckScript]
          split_ifs <;> simp

theorem check_eq_absent {x : Option StageSteps} : StageSteps.check x = .absent ↔ x = none := by
  cases x with
  | none => simp [StageSteps.check]
  | some x => cases hstaged : x.staged <;> simp [StageSteps.check, hstaged]

/-- The output goes to the jury. -/
def ToJury (task : Task) (x : CaseSteps) : Prop := x.checkScript = none ∧ task.comparison = "special".toList

theorem leaves_judgeOutput (x : CaseSteps) (k : Nat) (out : Option Text) :
    Leaves foreign (judgeOutput task x k out) (Grade.judgeOutput task x.world k out) (ToJury task x) := by
  apply Leaves.keeps_bind (fun s => eval_runTaskCheckScript _)
  have hworld : x.world.checkScript out = StageSteps.check (x.checkScript.map (· out)) := rfl
  have hanswer : x.world.answer = x.answer := rfl
  have hunchecked : Grade.runTaskCheckScript (StageSteps.check (x.checkScript.map (· out))) = 1 ↔
      x.checkScript = none := by
    rw [runTaskCheckScript_eq_one, check_eq_absent, Option.map_eq_none_iff]
  rw [Grade.judgeOutput, hworld, hanswer]
  generalize Grade.runTaskCheckScript (StageSteps.check (x.checkScript.map (· out))) = customCheck at hunchecked ⊢
  by_cases hjury : ToJury task x
  · obtain rfl := hunchecked.mpr hjury.1
    simpa [hjury.2] using (leaves_askJury x k out).congr (iff_of_true trivial hjury)
  · apply (Leaves.of_eval ?_).congr (iff_of_false not_false hjury)
    intro s
    dsimp only
    split_ifs with hnegative hwrong hspecial hone hsame hsame
    · rfl
    · rfl
    · exact absurd ⟨hunchecked.mp hspecial.1, hspecial.2⟩ hjury
    · simp [hsame.2]
    · have hdiffer : Grade.safeTkcmp x.answer out ≠ 0 := fun heq => hsame ⟨hone, heq⟩
      simp [hdiffer]
    · exact absurd hsame.1 hone
    · rfl

theorem leaves_gradeCase (x : CaseSteps) (k : Nat) (c : Carry) :
    Leaves foreign (gradeCase task x k c) (Grade.gradeCase task x.world k c)
      (ReachesComparison task x.world k c ∧ ToJury task x) := by
  apply Leaves.keeps_bind (fun s => eval_copy _ _)
  have hrunScript : x.world.runScript = x.runScript := rfl
  have hstatFile : x.world.statFile = x.statFile := rfl
  have houtput : x.world.output = x.output := rfl
  rw [Grade.gradeCase, ReachesComparison, hrunScript, hstatFile, houtput]
  by_cases hrun : runTaskRunScript x.runScript < 0
  · simpa [hrun] using Leaves.ret _
  · rw [if_neg hrun]
    simp only [hrun, if_false]
    apply Leaves.expecting
    apply Leaves.keeps_bind (fun s => eval_copy _ _)
    apply Leaves.keeps_bind (fun s => eval_readStatFile _)
    cases x.statFile with
    | none => exact (Leaves.ret _).congr (by simp)
    | some file =>
        have hmax (a b : Nat) : (if a > b then a else b) = max b a := (max_def_lt b a).symm
        simp only [Option.map_some, hmax]
        cases hstatus : statusVerdict task k (max c.maxTime (readStat file).caseTime)
            (max c.maxMem (readStat file).caseMem) (readStat file) with
        | some raw => exact (Leaves.ret _).congr (by simp [hstatus])
        | none => exact ((leaves_judgeOutput x k _).bind_keeps fun s => rfl).congr (by simp [hstatus])

theorem leaves_gradeLoop (groups : List Group) (x : Nat → CaseSteps) (tmp : Tmp) (n : Nat) :
    Leaves foreign (gradeLoop task groups x tmp n) (Grade.gradeLoop task groups (fun k => (x k).world) tmp n)
      (∃ k, 1 ≤ k ∧ k ≤ n ∧ ReachesComparison task (x k).world k
        (carryAfter task (fun k => (x k).world) tmp (k - 1)) ∧ ToJury task (x k)) := by
  induction n with
  | zero =>
      apply (Leaves.ret _).congr
      simp
  | succ n ih =>
      have hcase := @leaves_gradeCase foreign task (x (n + 1)) (n + 1)
        (carryAfter task (fun k => (x k).world) tmp n)
      rw [Grade.gradeLoop]
      rw [gradeLoop_eq] at ih ⊢
      apply (ih.bind (hcase.bind_keeps fun s => rfl)).congr
      constructor
      · rintro (⟨k, hpos, hle, hasks⟩ | hasks)
        · exact ⟨k, hpos, by omega, hasks⟩
        · exact ⟨n + 1, by omega, le_refl _, hasks⟩
      · rintro ⟨k, hpos, hle, hasks⟩
        rcases Nat.lt_or_eq_of_le hle with hlt | rfl
        · exact Or.inl ⟨k, hpos, by omega, hasks⟩
        · exact Or.inr hasks

/-! ## Runs that end -/

/-- None of the calls fails that the process exits for. -/
structure CaseSteps.Survives (x : CaseSteps) : Prop where
  sandbox : x.sandboxForked = true
  piped : x.juryPiped = true
  forked : x.juryForked = true
  compiler : x.compilerForked = true
  closed : x.pipeClosed = true
  read : x.verdictRead = true

theorem returns_writeTextPath (w : WriteSteps) : Returns foreign (writeTextPath w) := by
  apply (Returns.fopen w.opened).bind
  intro fp
  split
  · exact Returns.ret _
  · split
    · exact Returns.ret _
    · exact (Returns.fclose fp).bind fun _ => Returns.ret _

theorem returns_runTaskScript (x : JudgeSteps) : Returns foreign (runTaskScript x) := by
  unfold runTaskScript
  split
  · exact Returns.ret _
  · apply (returns_writeTextPath x.source).bind
    intro written
    split
    · exact Returns.ret _
    · split
      · exact Returns.ret _
      · apply (Returns.of_eval fun s => eval_readFile x.result).bind
        intro resultFile
        cases resultFile with
        | none => exact Returns.ret _
        | some resultFile => exact (Returns.of_eval fun s => eval_readLines _ _ _).bind fun _ => Returns.ret _

theorem returns_runTaskCompileScript (x : CompileScriptSteps) : Returns foreign (runTaskCompileScript x) := by
  have hdiagnostic : Returns foreign (readFile x.diagnostic) := Returns.of_eval fun s => eval_readFile x.diagnostic
  unfold runTaskCompileScript
  split
  · exact Returns.ret _
  · apply (returns_writeTextPath x.source).bind
    intro written
    split_ifs
    · exact Returns.ret _
    · exact Returns.ret _
    · exact hdiagnostic.bind fun _ => Returns.ret _
    · exact hdiagnostic.bind fun _ => Returns.ret _
    · exact Returns.ret _

theorem returns_compile (c : CompileSteps) (h : c.forked = true) : Returns foreign (compile c) := by
  apply (Returns.fopen c.opened).bind
  intro source
  split
  · exact Returns.ret _
  · split
    · exact (Returns.fclose source).bind fun _ => Returns.ret _
    · exact (Returns.fclose source).bind fun _ => Returns.expecting h (Returns.ret _)

theorem returns_askJury (x : CaseSteps) (h : x.Survives) (k : Nat) (out : Option Text) :
    Returns foreign (askJury x k out) := by
  have hrun (fildes : Nat × Nat) : Returns foreign (runJury x k out fildes) := by
    apply Returns.expecting h.forked
    apply Returns.expecting h.closed
    apply (Returns.fclose _).bind
    intro _
    dsimp only
    split_ifs
    · exact Returns.ret _
    · exact Returns.expecting h.read (Returns.ret _)
  apply Returns.expecting h.piped
  apply Returns.pipe.bind
  intro fildes
  split_ifs
  · exact hrun fildes
  · exact Returns.ret _
  · apply (Returns.expecting h.compiler (Returns.ret _)).bind
    intro compiled
    split_ifs
    · exact Returns.ret _
    · exact hrun fildes

theorem returns_judgeOutput (x : CaseSteps) (h : x.Survives) (k : Nat) (out : Option Text) :
    Returns foreign (judgeOutput task x k out) := by
  apply (Returns.of_eval fun s => eval_runTaskCheckScript _).bind
  intro run
  dsimp only
  split_ifs
  · exact Returns.ret _
  · exact Returns.ret _
  · exact returns_askJury x h k out
  · exact (Returns.of_eval fun s => eval_safeTkcmp _ _).bind fun _ => Returns.ret _
  · exact Returns.ret _

theorem returns_gradeCase (x : CaseSteps) (h : x.Survives) (k : Nat) (c : Carry) :
    Returns foreign (gradeCase task x k c) := by
  apply (Returns.of_eval fun s => eval_copy _ _).bind
  intro _
  dsimp only
  split_ifs
  · exact Returns.ret _
  · apply Returns.expecting (by simp [h.sandbox])
    apply (Returns.of_eval fun s => eval_copy _ _).bind
    intro _
    apply (Returns.of_eval fun s => eval_readStatFile _).bind
    intro stat
    cases stat with
    | none => exact Returns.ret _
    | some stat =>
        dsimp only
        split
        · exact Returns.ret _
        · exact (returns_judgeOutput x h k _).bind fun _ => Returns.ret _

theorem returns_gradeLoop (groups : List Group) (x : Nat → CaseSteps) (h : ∀ k, (x k).Survives) (tmp : Tmp) (n : Nat) :
    Returns foreign (gradeLoop task groups x tmp n) := by
  induction n with
  | zero => exact Returns.ret _
  | succ n ih =>
      apply ih.bind
      intro before
      exact (returns_gradeCase (x (n + 1)) (h (n + 1)) (n + 1) before.1).bind fun _ => Returns.ret _

end Tle.Grade.Descriptors
