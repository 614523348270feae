import Tle.Grade.Run
import Tle.Lib.Descriptors

/-!
# The descriptors that `grade` opens

`grade` of `grader.c` as the program of its calls that open and close descriptors, in the process that called it.
What the calls meet is its input; where `expect` or `diep` ends the process, the program dies. A child process
has descriptors of its own.
-/

namespace Tle.Grade.Descriptors
open Tle.Lib

/-! ## Reading and writing a file -/

/-- What a function that writes a file meets. -/
structure WriteSteps where
  opened : Bool
  written : Bool
  closed : Bool

def WriteSteps.ok (w : WriteSteps) : Bool := w.opened && w.written && w.closed

/-- A descriptor is closed also where `fclose` reports an error. -/
def writeTextPath (w : WriteSteps) : Opens Int := do
  let fp ← fopen w.opened
  if fp.isNone then pure (-1)
  else if !w.written then pure (-1)
  else
    fclose fp
    pure (if w.closed then 0 else -1)

def writeSubmissionSource (w : WriteSteps) : Opens Int := writeTextPath w

structure ReadSteps where
  opened : Bool
  allocated : Bool
  content : Text

def ReadSteps.value (r : ReadSteps) : Option Text :=
  if r.opened && r.allocated then some r.content else none

def readFile (r : ReadSteps) : Opens (Option Text) := do
  let file ← fopen r.opened
  if file.isNone then pure none
  else if !r.allocated then
    fclose file
    pure none
  else
    fclose file
    pure (some r.content)

def copy (sourceOpened destOpened : Bool) : Opens Int := do
  let fp1 ← fopen sourceOpened
  if fp1.isNone then pure (-1)
  else
    let fp2 ← fopen destOpened
    if fp2.isNone then
      fclose fp1
      pure (-1)
    else
      fclose fp1
      fclose fp2
      pure 0

def safeTkcmp (p1 p2 : Option Text) : Opens Int := do
  let f1 ← fopen p1.isSome
  let f2 ← fopen p2.isSome
  if f1.isNone || f2.isNone then
    fclose f1
    fclose f2
    pure (-1)
  else
    let isMatch := Grade.safeTkcmp p1 p2
    fclose f1
    fclose f2
    pure isMatch

/-! ## Setting up the sandbox -/

structure BoxSteps where
  piped : Bool
  forked : Bool
  fdopened : Bool
  /-- the line is read, and `isolate` exits with 0 -/
  read : Bool

def BoxSteps.ok (b : BoxSteps) : Bool := b.piped && b.forked && b.fdopened && b.read

def isolateInitBox (b : BoxSteps) : Opens Int := do
  if !b.piped then pure (-1)
  else
    let fds ← pipe
    if !b.forked then
      close fds.1
      close fds.2
      pure (-1)
    else
      close fds.2
      if !b.fdopened then
        close fds.1
        pure (-1)
      else
        close fds.1
        pure (if b.read then 0 else -1)

/-- An entry of `<task>/files`. -/
structure Entry where
  skipped : Bool
  regular : Bool
  sourceOpened : Bool
  destOpened : Bool

def Entry.ok (e : Entry) : Bool := e.skipped || e.regular && e.sourceOpened && e.destOpened

structure FilesSteps where
  accessible : Bool
  made : Bool
  opened : Bool
  entries : List Entry

def FilesSteps.ok (x : FilesSteps) : Bool := !x.accessible || x.made && x.opened && x.entries.all Entry.ok

/-- The loop over the directory that is open as `dir`. -/
def copyEntries (dir : Option Nat) : List Entry → Opens Int
  | [] => do
      fclose dir
      pure 0
  | e :: rest =>
      if e.skipped then copyEntries dir rest
      else if !e.regular then do
        fclose dir
        pure (-1)
      else do
        let copied ← copy e.sourceOpened e.destOpened
        if copied ≠ 0 then
          fclose dir
          pure (-1)
        else copyEntries dir rest

def copyTaskFiles (x : FilesSteps) : Opens Int := do
  if !x.accessible then pure 0
  else if !x.made then pure (-1)
  else
    let dir ← fopen x.opened
    if dir.isNone then pure (-1) else copyEntries dir x.entries

/-! ## The scripts of the task and the compiler -/

/-- A script that is there; `staged` is that it exits with 0 in time. -/
structure StageSteps where
  staged : Bool
  result : ReadSteps

def StageSteps.check : Option StageSteps → CheckRun
  | none => .absent
  | some x => if !x.staged then .failed else .done x.result.value

def StageSteps.score : Option StageSteps → ScoreRun
  | none => .absent
  | some x => if !x.staged then .failed else .done x.result.value

def runTaskCheckScript : Option StageSteps → Opens CheckRun
  | none => pure .absent
  | some x => do
      if !x.staged then pure .failed
      else
        let checkResult ← readFile x.result
        pure (.done checkResult)

def runTaskScoreScript : Option StageSteps → Opens ScoreRun
  | none => pure .absent
  | some x => do
      if !x.staged then pure .failed
      else
        let scoreResult ← readFile x.result
        pure (.done scoreResult)

structure JudgeSteps where
  present : Bool
  source : WriteSteps
  staged : Bool
  result : ReadSteps
  files : Text → ReadSteps

def JudgeSteps.run (x : JudgeSteps) : JudgeRun :=
  if !x.present then .absent else if !(x.source.ok && x.staged) then .failed else .done x.result.value

/-- One line of the result file. -/
def readLine (files : Text → ReadSteps) (r : JudgeReport) (line : Text) : Opens JudgeReport :=
  match line.dropWhile (· ≠ '=') with
  | [] => pure r
  | _ :: value => do
      let key := trimLine (line.takeWhile (· ≠ '='))
      let value := trimLine value
      if key = "result".toList then pure { r with result := some value }
      else if key = "score".toList then pure { r with score := strtod value }
      else if key = "time_ms".toList then pure { r with timeUsed := strtoul value % 2 ^ 32 }
      else if key = "memory_kb".toList then pure { r with memoryUsed := strtoul value % 2 ^ 32 }
      else if key = "compiler_output_file".toList then
        let compilerOutput ← readFile (files value)
        pure { r with compilerOutput }
      else pure r

def readLines (files : Text → ReadSteps) (r : JudgeReport) : List Text → Opens JudgeReport
  | [] => pure r
  | line :: rest => do
      let r ← readLine files r line
      readLines files r rest

/-- What it returns, with the report it stores when it returns 0. -/
def runTaskScript (x : JudgeSteps) : Opens (Int × JudgeReport) := do
  if !x.present then pure (1, {})
  else
    let written ← writeSubmissionSource x.source
    if written ≠ 0 then pure (-1, {})
    else if !x.staged then pure (-1, {})
    else
      let resultFile ← readFile x.result
      match resultFile with
      | none => pure (-1, {})
      | some resultFile =>
          let r ← readLines x.files {} (lines resultFile)
          pure (0, r)

/-- The outcome of the script as `runTaskScript` returns it. -/
def JudgeSteps.returned (x : JudgeSteps) : Int × JudgeReport :=
  match x.run with
  | .absent => (1, {})
  | .failed => (-1, {})
  | .done none => (-1, {})
  | .done (some written) => (0, judgeReport (fun path => (x.files path).value) written)

structure CompileScriptSteps where
  present : Bool
  source : WriteSteps
  /-- the script ends in time -/
  waited : Bool
  exitedZero : Bool
  executable : Bool
  diagnostic : ReadSteps

def CompileScriptSteps.run (x : CompileScriptSteps) : CompileScript :=
  if !x.present then .absent
  else if !(x.source.ok && x.waited) then .error
  else if !(x.exitedZero && x.executable) then .failed x.diagnostic.value
  else .done

def runTaskCompileScript (x : CompileScriptSteps) : Opens CompileScript := do
  if !x.present then pure .absent
  else
    let written ← writeSubmissionSource x.source
    if written ≠ 0 then pure .error
    else if !x.waited then pure .error
    else if !x.exitedZero then
      let compilerOutput ← readFile x.diagnostic
      pure (.failed compilerOutput)
    else if !x.executable then
      let compilerOutput ← readFile x.diagnostic
      pure (.failed compilerOutput)
    else pure .done

structure CompileSteps where
  opened : Bool
  written : Bool
  forked : Bool
  exitedZero : Bool

def CompileSteps.ok (c : CompileSteps) : Bool := c.opened && c.written && c.exitedZero

def compile (c : CompileSteps) : Opens Int := do
  let source ← fopen c.opened
  if source.isNone then pure 1
  else if !c.written then
    fclose source
    pure 1
  else
    fclose source
    expect c.forked
    pure (if c.exitedZero then 0 else 1)

/-- `compile_path` -/
def compilePath (forked compiles : Bool) : Opens Int := do
  expect forked
  pure (if compiles then 0 else 1)

/-! ## One case -/

structure CaseSteps where
  inputOpened : Bool
  inputWritable : Bool
  runScript : ScriptRun
  /-- the fork for the sandbox; `diep` where it fails -/
  sandboxForked : Bool
  output : OutputLeft
  statFile : Option Text
  answer : Option Text
  checkScript : Option (Option Text → StageSteps)
  juryPiped : Bool
  juryForked : Bool
  juryPresent : Bool
  juryCodePresent : Bool
  compilerForked : Bool
  juryCompiles : Bool
  pipeClosed : Bool
  jury : Option Text → JuryRun
  verdictRead : Bool
  verdictBefore : Char × Char

/-- The case as the evaluator meets it. -/
def CaseSteps.world (x : CaseSteps) : CaseWorld where
  runScript := x.runScript
  output := x.output
  statFile := x.statFile
  answer := x.answer
  checkScript out := StageSteps.check (x.checkScript.map (· out))
  juryPresent := x.juryPresent
  juryCodePresent := x.juryCodePresent
  juryCompiles := x.juryCompiles
  jury := x.jury
  verdictBefore := x.verdictBefore

/-- The run of the jury, with its pipe open. -/
def runJury (x : CaseSteps) (caseId : Nat) (suboutput : Option Text) (fildes : Nat × Nat) : Opens (Option Text) := do
  expect x.juryForked
  expect x.pipeClosed
  close fildes.2
  let run := x.jury suboutput
  if !run.exitedZero then pure (some "internal error:jury failed".toList)
  else
    expect x.verdictRead
    pure (juryVerdict caseId (verdictBytes x.world run))

/-- The branch of a `special` task. Nothing closes the end of the pipe that is read. -/
def askJury (x : CaseSteps) (caseId : Nat) (suboutput : Option Text) : Opens (Option Text) := do
  expect x.juryPiped
  let fildes ← pipe
  if x.juryPresent then runJury x caseId suboutput fildes
  else if !x.juryCodePresent then pure (some "internal error:jury not present".toList)
  else
    let compiled ← compilePath x.compilerForked x.juryCompiles
    if compiled ≠ 0 then pure (some "internal error:failed compiling jury".toList)
    else runJury x caseId suboutput fildes

def judgeOutput (task : Task) (x : CaseSteps) (caseId : Nat) (suboutput : Option Text) : Opens (Option Text) := do
  let customCheck := Grade.runTaskCheckScript (← runTaskCheckScript (x.checkScript.map (· suboutput)))
  if customCheck < 0 then pure (some (withCase "internal error:check script failed" caseId))
  else if customCheck = 2 then pure (some (wrongAnswer caseId))
  else if customCheck = 1 ∧ task.comparison = "special".toList then askJury x caseId suboutput
  else if customCheck = 1 then
    let isMatch ← safeTkcmp x.answer suboutput
    pure (if isMatch = 0 then some (wrongAnswer caseId) else none)
  else pure none

def readStatFile (statFile : Option Text) : Opens (Option Stat) := do
  let statFp ← fopen statFile.isSome
  match statFile with
  | none => pure none
  | some file =>
      fclose statFp
      pure (some (readStat file))

def gradeCase (task : Task) (x : CaseSteps) (caseId : Nat) (c : Carry) : Opens (Carry × Option Text) := do
  let _ ← copy x.inputOpened x.inputWritable
  let customRun := runTaskRunScript x.runScript
  if customRun < 0 then pure (c, some (withCase "internal error:run script failed" caseId))
  else
    expect (customRun ≠ 1 || x.sandboxForked)
    let _ ← copy (x.output.boxOut.open c.tmp).isSome x.output.writable
    let tmp := (x.output.copy caseId c.tmp).1
    match ← readStatFile x.statFile with
    | none => pure ({ c with tmp }, some noStat)
    | some s =>
        let maxTime := if s.caseTime > c.maxTime then s.caseTime else c.maxTime
        let maxMem := if s.caseMem > c.maxMem then s.caseMem else c.maxMem
        match statusVerdict task caseId maxTime maxMem s with
        | some raw => pure ({ maxTime, maxMem, tmp }, some raw)
        | none =>
            let raw ← judgeOutput task x caseId (tmp caseId)
            pure ({ maxTime, maxMem, tmp }, raw)

def gradeLoop (task : Task) (groups : List Group) (x : Nat → CaseSteps) (tmp : Tmp) : Nat → Opens (Carry × Scoring)
  | 0 => pure ({ maxTime := 0, maxMem := 0, tmp }, Scoring.init groups)
  | n + 1 => do
      let (carry, s) ← gradeLoop task groups x tmp n
      let (carry, raw) ← gradeCase task (x (n + 1)) (n + 1) carry
      pure (carry, s.step task groups (n + 1) raw)

/-! ## The whole function -/

structure Steps where
  taskFound : Bool
  /-- the path of the task is resolved and the directories of the artifacts are there -/
  pathsReady : Bool
  box : BoxSteps
  boxPathFits : Bool
  taskFiles : FilesSteps
  code : Text
  /-- `1.out` of an `output_only` task, and whether it can be read back -/
  output : WriteSteps
  outputReadable : Bool
  answer : Option Text
  judge : JudgeSteps
  compileScript : CompileScriptSteps
  compile : CompileSteps
  diagnostic : ReadSteps
  firstGroups : Option (List Group)
  secondGroups : Option (List Group)
  marksAllocated : Bool
  cases : Nat → CaseSteps
  tmp : Tmp
  scoreScript : Option StageSteps

/-- The run as the evaluator meets it. -/
def Steps.run (x : Steps) : Run where
  prepared := x.taskFound && x.pathsReady && x.box.ok && x.boxPathFits && x.taskFiles.ok
  code := x.code
  answer := if x.outputReadable then x.answer else none
  outputWritable := x.output.ok
  judge := x.judge.run
  files path := (x.judge.files path).value
  compileScript := x.compileScript.run
  compiles := x.compile.ok
  diagnostic := x.diagnostic.value
  firstGroups := x.firstGroups
  secondGroups := x.secondGroups
  marksAllocated := x.marksAllocated
  cases k := (x.cases k).world
  tmp := x.tmp
  scoreScript := StageSteps.score x.scoreScript

def Steps.groups (x : Steps) : List Group := gradingGroups x.firstGroups x.secondGroups

/-- The two queries for the groups. -/
def fetchGroups (x : Steps) : Opens (List Group) := do
  callForeign
  match x.firstGroups with
  | none | some [] => pure ()
  | some (_ :: _) => callForeign
  pure x.groups

def gradeOutputOnly (task : Task) (x : Steps) : Opens (Option (Text × Rat)) := do
  if task.countCases ≠ 1 then pure none
  else
    let written ← writeTextPath x.output
    if written ≠ 0 then pure none
    else
      let isMatch ← safeTkcmp x.answer (if x.outputReadable then some (cstr x.code) else none)
      let result := if isMatch = 1 then "accepted!".toList else "wa#1".toList
      pure (some (result, if result = "accepted!".toList then task.maxScore else 0))

/-- `compile_status` 0 or 2 with the compiler output; `none` where `grade` returns -1. -/
def compileStage (x : Steps) : Opens (Option (Bool × Option Text)) := do
  match ← runTaskCompileScript x.compileScript with
  | .error => pure none
  | .failed output => pure (some (false, output))
  | .done => pure (some (true, none))
  | .absent =>
      let compiled ← compile x.compile
      if compiled = 0 then pure (some (true, none))
      else
        let diagnostic ← readFile x.diagnostic
        pure (some (false, diagnostic))

/-- From the loop over the cases on. -/
def evaluate (task : Task) (x : Steps) (compilerOutput : Option Text) : Opens (Option Outcome) := do
  let groups ← fetchGroups x
  if groups ≠ [] ∧ !x.marksAllocated then pure none
  else
    let (carry, s) ← gradeLoop task groups x.cases x.tmp task.countCases
    let (result, total) := finishScore task groups s
    let script ← runTaskScoreScript x.scoreScript
    let (result, score) := customScore task script result total
    pure (some {
      timeUsed := carry.maxTime
      memoryUsed := carry.maxMem
      score
      result
      compilerOutput
      subtaskResults := s.subtaskResults })

/-- From the compilation on. -/
def gradeBuiltin (task : Task) (x : Steps) : Opens (Option Outcome) := do
  match ← compileStage x with
  | none => pure none
  | some (false, compilerOutput) =>
      pure (some {
        timeUsed := 0
        memoryUsed := 0
        score := .finite 0
        result := "compilation error".toList
        compilerOutput
        subtaskResults := [] })
  | some (true, compilerOutput) => evaluate task x compilerOutput

/-- From the sandbox on. -/
def gradeInBox (task : Task) (x : Steps) : Opens (Option Outcome) := do
  if task.comparison = "output_only".toList then
    let graded ← gradeOutputOnly task x
    pure (graded.map fun (result, score) =>
      { timeUsed := 0, memoryUsed := 0, score := .finite score, result, compilerOutput := none
        subtaskResults := [] })
  else
    let (customResult, report) ← runTaskScript x.judge
    if customResult < 0 then pure none
    else if customResult = 0 then pure (some report.outcome)
    else gradeBuiltin task x

def grade (task : Task) (x : Steps) : Opens (Option Outcome) := do
  callForeign
  if !x.taskFound then pure none
  else if !x.pathsReady then pure none
  else
    let initialised ← isolateInitBox x.box
    if initialised ≠ 0 then pure none
    else if !x.boxPathFits then pure none
    else
      let copied ← copyTaskFiles x.taskFiles
      if copied ≠ 0 then pure none else gradeInBox task x

end Tle.Grade.Descriptors
