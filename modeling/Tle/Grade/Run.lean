import Tle.Grade.Loop

/-!
# `grade` from the task to the stored result

The scripts of the task, the compilers and the sandbox are the input of a run. A run of `grade` that
returns -1 has no outcome.
-/

namespace Tle.Grade
open Tle.Lib

structure Outcome where
  timeUsed : Nat
  memoryUsed : Nat
  score : Double
  result : Text
  compilerOutput : Option Text
  /-- empty where `subtask_results_out` stays NULL -/
  subtaskResults : Text

/-! ## `script/judge` -/

/-- `written` is what `read_file` returns for the result file. -/
inductive JudgeRun where
  | absent
  | failed
  | done (written : Option Text)
  deriving DecidableEq

structure JudgeReport where
  result : Option Text := none
  compilerOutput : Option Text := none
  timeUsed : Nat := 0
  memoryUsed : Nat := 0
  score : Double := .finite 0

/-- One line; `files` is what `read_file` finds under a path. -/
def JudgeReport.readLine (files : Text → Option Text) (r : JudgeReport) (line : Text) : JudgeReport :=
  match line.dropWhile (· ≠ '=') with
  | [] => r
  | _ :: value =>
      let key := trimLine (line.takeWhile (· ≠ '='))
      let value := trimLine value
      if key = "result".toList then { r with result := some value }
      else if key = "score".toList then { r with score := strtod value }
      else if key = "time_ms".toList then { r with timeUsed := strtoul value % 2 ^ 32 }
      else if key = "memory_kb".toList then { r with memoryUsed := strtoul value % 2 ^ 32 }
      else if key = "compiler_output_file".toList then { r with compilerOutput := files value }
      else r

def lines (written : Text) : List Text := fields (· = '\n') (cstr written)

def judgeReport (files : Text → Option Text) (written : Text) : JudgeReport :=
  (lines written).foldl (JudgeReport.readLine files) {}

def JudgeReport.outcome (r : JudgeReport) : Outcome where
  timeUsed := r.timeUsed
  memoryUsed := r.memoryUsed
  score := r.score
  result := r.result.getD "internal error: custom judge produced no result".toList
  compilerOutput := r.compilerOutput
  subtaskResults := []

/-! ## The compilation -/

inductive CompileScript where
  | absent
  | error
  | failed (diagnostic : Option Text)
  | done
  deriving DecidableEq

/-- `compile_status` 0 or 2 with the compiler output; `none` where `grade` returns -1. -/
def compileStage (script : CompileScript) (compiles : Bool) (diagnostic : Option Text) :
    Option (Bool × Option Text) :=
  match script with
  | .error => none
  | .failed output => some (false, output)
  | .done => some (true, none)
  | .absent => some (if compiles then (true, none) else (false, diagnostic))

/-! ## `script/score` -/

inductive ScoreRun where
  | absent
  | failed
  | done (written : Option Text)
  deriving DecidableEq

/-- The number on the first `score=` line. -/
def scoreLine (written : Text) : Option Double :=
  (lines written).findSome? fun line =>
    if strncmpEq (trimLine line) "score=".toList 6 then some (strtod ((trimLine line).drop 6)) else none

/-- What `run_task_score_script` returns, with the score it stores when it returns 0. -/
def runTaskScoreScript : ScoreRun → Int × Option Double
  | .absent => (1, none)
  | .failed => (-1, none)
  | .done written =>
      match written.bind scoreLine with
      | some score => (0, some score)
      | none => (-1, none)

/-- The custom score cut to the range from 0 to `max_score`; a NaN passes both comparisons. -/
def clampScore (maxScore : Rat) : Double → Double
  | .finite q => .finite (if q < 0 then 0 else if q > maxScore then maxScore else q)
  | .infinite negative => .finite (if negative then 0 else maxScore)
  | .nan => .nan

/-- Result and score after `script/score`. -/
def customScore (task : Task) (script : ScoreRun) (result : Text) (total : Rat) : Text × Double :=
  match runTaskScoreScript script with
  | (0, some score) => (result, clampScore task.maxScore score)
  | (1, _) => (result, .finite total)
  -- the score of the cases is kept
  | _ => ("internal error:score script failed".toList, .finite total)

/-! ## The whole function -/

structure Run where
  /-- the task is found and the sandbox holds its files -/
  prepared : Bool
  code : Text
  /-- `tests/1.sol`, and whether `1.out` can be written, for an `output_only` task -/
  answer : Option Text
  outputWritable : Bool
  judge : JudgeRun
  files : Text → Option Text
  compileScript : CompileScript
  compiles : Bool
  diagnostic : Option Text
  /-- what the two calls of `fetch_subtask_groups` return -/
  firstGroups : Option (List Group)
  secondGroups : Option (List Group)
  marksAllocated : Bool
  cases : Nat → CaseWorld
  tmp : Tmp
  scoreScript : ScoreRun

def Run.groups (r : Run) : List Group := gradingGroups r.firstGroups r.secondGroups

/-- From the loop over the cases on. -/
def evaluate (task : Task) (r : Run) (compilerOutput : Option Text) : Option Outcome :=
  if r.groups ≠ [] ∧ !r.marksAllocated then none
  else
    let (carry, s) := gradeLoop task r.groups r.cases r.tmp task.countCases
    let (result, total) := finishScore task r.groups s
    let (result, score) := customScore task r.scoreScript result total
    some {
      timeUsed := carry.maxTime
      memoryUsed := carry.maxMem
      score
      result
      compilerOutput
      subtaskResults := s.subtaskResults }

def grade (task : Task) (r : Run) : Option Outcome :=
  if !r.prepared then none
  else if task.comparison = "output_only".toList then
    (gradeOutputOnly task r.answer r.outputWritable r.code).map fun (result, score) =>
      { timeUsed := 0, memoryUsed := 0, score := .finite score, result, compilerOutput := none
        subtaskResults := [] }
  else match r.judge with
  | .failed => none
  | .done none => none
  | .done (some written) => some (judgeReport r.files written).outcome
  | .absent =>
      match compileStage r.compileScript r.compiles r.diagnostic with
      | none => none
      | some (false, compilerOutput) =>
          some { timeUsed := 0, memoryUsed := 0, score := .finite 0, result := "compilation error".toList
                 compilerOutput, subtaskResults := [] }
      | some (true, compilerOutput) => evaluate task r compilerOutput

/-- The loop and what follows it are `gradeCases`. -/
theorem evaluate_eq (task : Task) (r : Run) (compilerOutput : Option Text) :
    evaluate task r compilerOutput =
      if r.groups ≠ [] ∧ !r.marksAllocated then none
      else
        let (result, total, subtaskResults) :=
          gradeCases task r.firstGroups r.secondGroups (rawResult task r.cases r.tmp)
        let carry := carryAfter task r.cases r.tmp task.countCases
        some {
          timeUsed := carry.maxTime
          memoryUsed := carry.maxMem
          score := (customScore task r.scoreScript result total).2
          result := (customScore task r.scoreScript result total).1
          compilerOutput
          subtaskResults } := by
  unfold evaluate
  split
  · rfl
  · rw [gradeLoop_eq]
    rfl

end Tle.Grade
