import Tle.Grade.Case
import Tle.Lib.Ranges

/-!
# Scoring the cases

The parts of the loop of `grade` after `end_case`, and what follows the loop. Scores are exact
rationals.
-/

namespace Tle.Grade
open Tle.Lib

/-- A row of `subtask_groups`. -/
structure Group where
  caseStart : BitVec 32
  caseCount : BitVec 32
  score : Rat
  deriving DecidableEq

def Group.last (g : Group) : BitVec 32 := g.caseStart + g.caseCount - 1

def Group.range (g : Group) : Range := ⟨g.caseStart.toNat, g.caseCount.toNat⟩

/-- The groups `grade` works with, `[]` for uniform scoring, from what its two calls of
`fetch_subtask_groups` return. -/
def gradingGroups (first second : Option (List Group)) : List Group :=
  match first with
  | none | some [] => []
  | some (_ :: _) => second.getD []

/-! ## The result string -/

def openBrackets (groups : List Group) (caseId : BitVec 32) : Text :=
  match groups with
  | [] => if caseId = 1 then "[".toList else []
  | g :: _ =>
      if caseId = g.caseStart then "[".toList
      else groups.flatMap fun g => if caseId = g.caseStart then "[".toList else []

def closeBrackets (countCases : BitVec 32) (groups : List Group) (caseId : BitVec 32) : Text :=
  match groups.getLast? with
  | none => if caseId = countCases then "]".toList else []
  | some g =>
      if caseId = g.last then "]".toList
      else groups.dropLast.flatMap fun g => if caseId = g.last then "][".toList else []

def subtaskCaseMarker : Option Text → Char
  | none => 'A'
  | some result =>
      if result = [] ∨ result = "accepted!".toList then 'A'
      else if strncmpEq result "wa#".toList 3 then 'W'
      else if strncmpEq result "time limit exceeded".toList 19 then 'T'
      else if strncmpEq result "memory limit exceeded".toList 21 then 'M'
      else if strncmpEq result "signal(".toList 7 ∨ strncmpEq result "exitcode(".toList 9 then 'R'
      else 'E'

/-! ## The failed groups -/

/-- `sscanf(raw_results, "%*[^#]#%u", &failed_case)`, with 0 where it does not return 1. -/
def scanFailedCase (raw : Text) : BitVec 32 :=
  match raw.takeWhile (· ≠ '#'), raw.dropWhile (· ≠ '#') with
  | _ :: _, '#' :: number => BitVec.ofNat 32 ((scanU number).getD 0)
  | _, _ => 0

/-- The groups a failing case marks; all of them when its message names no case. -/
def marksGroup (raw : Text) (g : Group) : Bool :=
  scanFailedCase raw = 0 || (g.caseStart ≤ scanFailedCase raw && scanFailedCase raw ≤ g.last)

/-! ## One iteration -/

structure Scoring where
  subtaskResults : Text
  failedGroups : List Bool
  firstFailure : Option Text
  passedCases : Nat
  deriving DecidableEq

def Scoring.init (groups : List Group) : Scoring where
  subtaskResults := []
  failedGroups := groups.map fun _ => false
  firstFailure := none
  passedCases := 0

def Scoring.step (task : Task) (groups : List Group) (s : Scoring) (k : Nat) (raw : Option Text) :
    Scoring :=
  let caseId := BitVec.ofNat 32 k
  let subtaskResults := s.subtaskResults ++ openBrackets groups caseId ++ [subtaskCaseMarker raw] ++
    closeBrackets (BitVec.ofNat 32 task.countCases) groups caseId
  match raw with
  | none => { s with subtaskResults, passedCases := s.passedCases + 1 }
  | some raw =>
      { s with
        subtaskResults
        failedGroups := List.zipWith (fun g failed => failed || marksGroup raw g) groups s.failedGroups
        firstFailure := s.firstFailure.or (some raw) }

/-- The first `n` iterations with these raw results. -/
def scoreCases (task : Task) (groups : List Group) (raws : Nat → Option Text) : Nat → Scoring
  | 0 => Scoring.init groups
  | n + 1 => (scoreCases task groups raws n).step task groups (n + 1) (raws (n + 1))

def gradeLoop (task : Task) (groups : List Group) (w : Nat → CaseWorld) (tmp : Tmp) :
    Nat → Carry × Scoring
  | 0 => ({ maxTime := 0, maxMem := 0, tmp }, Scoring.init groups)
  | n + 1 =>
      let (carry, s) := gradeLoop task groups w tmp n
      let (carry, raw) := gradeCase task (w (n + 1)) (n + 1) carry
      (carry, s.step task groups (n + 1) raw)

theorem gradeLoop_eq (task : Task) (groups : List Group) (w : Nat → CaseWorld) (tmp : Tmp) (n : Nat) :
    gradeLoop task groups w tmp n =
      (carryAfter task w tmp n, scoreCases task groups (rawResult task w tmp) n) := by
  induction n with
  | zero => rfl
  | succ n ih =>
      rw [gradeLoop, ih]
      rfl

/-! ## After the loop -/

/-- `result` and `score` when no `script/score` is there. -/
def finishScore (task : Task) (groups : List Group) (s : Scoring) : Text × Rat :=
  match s.firstFailure with
  | none => ("accepted!".toList, task.maxScore)
  | some raw =>
      (raw,
        if groups = [] then
          if task.countCases = 0 then 0 else task.maxScore * s.passedCases / task.countCases
        else
          (groups.zip s.failedGroups).foldl
            (fun total (g, failed) => if failed then total else total + g.score) 0)

/-- Result, score and result string of the built-in evaluator. -/
def gradeCases (task : Task) (first second : Option (List Group)) (raws : Nat → Option Text) :
    Text × Rat × Text :=
  let groups := gradingGroups first second
  let s := scoreCases task groups raws task.countCases
  let (result, score) := finishScore task groups s
  (result, score, s.subtaskResults)

end Tle.Grade
