import Mathlib.Logic.Function.Basic
import Mathlib.Data.Rat.Defs
import Tle.Grade.Stat
import Tle.Grade.Tokens

/-!
# One case of the loop of `grade`

What the sandbox, the scripts, the jury and the compiler do in a case is its input; the input of a
checker contains the file it is handed.
-/

namespace Tle.Grade
open Tle.Lib

/-- `read_tasks` never finishes with more than `UINT_MAX - 1` cases. -/
structure Task where
  timeLimit : Nat
  memoryLimit : Nat
  comparison : Text
  countCases : Nat
  countCases_lt : countCases < 2 ^ 32 - 1
  maxScore : Rat

/-! ## Messages -/

def withCase (label : String) (caseId : Nat) : Text := label.toList ++ '#' :: formatUnsigned caseId

abbrev wrongAnswer (caseId : Nat) : Text := withCase "wa" caseId

abbrev timeLimitExceeded (caseId : Nat) : Text := withCase "time limit exceeded" caseId

abbrev memoryLimitExceeded (caseId : Nat) : Text := withCase "memory limit exceeded" caseId

def withCode (label : String) (code : Int) (caseId : Nat) : Text :=
  label.toList ++ '(' :: formatInt code ++ ')' :: '#' :: formatUnsigned caseId

def noStat : Text := "internalerror: failed opening stat".toList

def isolateCrashed : Text := "internal error:isolate crashed".toList

/-! ## The files -/

/-- `/tmp/<k>.out` for each `k`. -/
abbrev Tmp := Nat → Option Text

/-- What the contestant's program may leave under `<box>/<k>.out`; a link to any file but
`/tmp/<j>.out` comes with what `fopen` reads there. -/
inductive BoxOut where
  | missing
  | regular (bytes : Text)
  | linkTmp (j : Nat)
  | linkOther (content : Option Text)
  deriving DecidableEq

def BoxOut.open (tmp : Tmp) : BoxOut → Option Text
  | missing => none
  | regular bytes => some bytes
  | linkTmp j => tmp j
  | linkOther content => content

/-- The output of a run, and whether `/tmp/<k>.out` can be opened for writing. -/
structure OutputLeft where
  boxOut : BoxOut
  writable : Bool
  deriving DecidableEq

/-- `copy(boxsuboutput, suboutput)`. The destination is truncated after the source is opened, and
every failure leaves it alone. -/
def OutputLeft.copy (o : OutputLeft) (caseId : Nat) (tmp : Tmp) : Tmp × Int :=
  match o.boxOut.open tmp with
  | none => (tmp, -1)
  | some bytes =>
      if !o.writable then (tmp, -1)
      else (Function.update tmp caseId (some (if o.boxOut = .linkTmp caseId then [] else bytes)), 0)

/-! ## The stages of a case -/

inductive ScriptRun where
  | absent
  | failed
  | done
  deriving DecidableEq

def runTaskRunScript : ScriptRun → Int
  | .absent => 1
  | .failed => -1
  | .done => 0

/-- `written` is what `read_file` returns for the result file. -/
inductive CheckRun where
  | absent
  | failed
  | done (written : Option Text)
  deriving DecidableEq

def trimLine (line : Text) : Text :=
  let blank : Char → Bool := (· ∈ " \t\r\n".toList)
  ((line.dropWhile blank).reverse.dropWhile blank).reverse

def runTaskCheckScript : CheckRun → Int
  | .absent => 1
  | .failed => -1
  | .done none => -1
  | .done (some written) =>
      let firstLine := trimLine (cstr written)
      if strncmpEq firstLine "ok".toList 2 then 0
      else if strncmpEq firstLine "wa".toList 2 then 2
      else -1

structure JuryRun where
  exitedZero : Bool
  written : Text
  deriving DecidableEq

structure CaseWorld where
  runScript : ScriptRun
  output : OutputLeft
  /-- `/tmp/<k>.stat` after the run -/
  statFile : Option Text
  /-- `tests/<k>.sol` -/
  answer : Option Text
  checkScript : Option Text → CheckRun
  juryPresent : Bool
  juryCodePresent : Bool
  juryCompiles : Bool
  jury : Option Text → JuryRun
  /-- what the uninitialised `verdict[0]` and `verdict[1]` hold -/
  verdictBefore : Char × Char

/-- What one case leaves to the next. -/
structure Carry where
  maxTime : Nat
  maxMem : Nat
  tmp : Tmp

/-- `verdict[0]` and `verdict[1]` after the `read`. -/
def verdictBytes (w : CaseWorld) (run : JuryRun) : Char × Char :=
  (run.written[0]?.getD w.verdictBefore.1, run.written[1]?.getD w.verdictBefore.2)

def juryVerdict (caseId : Nat) : Char × Char → Option Text
  | ('o', 'k') => none
  | ('w', 'a') => some (wrongAnswer caseId)
  | (a, b) => some ("internal error:unsupported verdict ".toList ++ cstr [a, b])

/-- The branch of a `special` task, in the process that called `grade`. -/
def askJury (w : CaseWorld) (caseId : Nat) (suboutput : Option Text) : Option Text :=
  if !w.juryPresent && !w.juryCodePresent then some "internal error:jury not present".toList
  else if !w.juryPresent && !w.juryCompiles then some "internal error:failed compiling jury".toList
  else
    let run := w.jury suboutput
    if !run.exitedZero then some "internal error:jury failed".toList
    else juryVerdict caseId (verdictBytes w run)

/-- The last branch of the classification. -/
def judgeOutput (task : Task) (w : CaseWorld) (caseId : Nat) (suboutput : Option Text) :
    Option Text :=
  let customCheck := runTaskCheckScript (w.checkScript suboutput)
  if customCheck < 0 then some (withCase "internal error:check script failed" caseId)
  else if customCheck = 2 then some (wrongAnswer caseId)
  else if customCheck = 1 ∧ task.comparison = "special".toList then askJury w caseId suboutput
  else if customCheck = 1 ∧ safeTkcmp w.answer suboutput = 0 then some (wrongAnswer caseId)
  else none

/-- The branches before it; the limits are compared with the maxima so far. -/
def statusVerdict (task : Task) (caseId maxTime maxMem : Nat) (s : Stat) : Option Text :=
  if s.stat = "XX".toList then some isolateCrashed
  else if s.stat = "TO".toList ∨ maxTime > task.timeLimit then some (timeLimitExceeded caseId)
  -- the second test for XX is never reached
  else if s.stat = "XX".toList then some (withCase "internal server error" caseId)
  else if s.stat = "SG".toList then some (withCode "signal" s.subexitsig caseId)
  else if s.subexitcode ≠ 0 then some (withCode "exitcode" s.subexitcode caseId)
  else if s.stat ≠ [] ∧ maxMem > task.memoryLimit then some (memoryLimitExceeded caseId)
  else none

/-- The case up to `end_case`: what it leaves to the next one and `raw_results`. -/
def gradeCase (task : Task) (w : CaseWorld) (caseId : Nat) (c : Carry) : Carry × Option Text :=
  if runTaskRunScript w.runScript < 0 then
    (c, some (withCase "internal error:run script failed" caseId))
  else
    let tmp := (w.output.copy caseId c.tmp).1
    match w.statFile with
    | none => ({ c with tmp }, some noStat)
    | some file =>
        let s := readStat file
        let maxTime := if s.caseTime > c.maxTime then s.caseTime else c.maxTime
        let maxMem := if s.caseMem > c.maxMem then s.caseMem else c.maxMem
        ({ maxTime, maxMem, tmp },
          match statusVerdict task caseId maxTime maxMem s with
          | some raw => some raw
          | none => judgeOutput task w caseId (tmp caseId))

/-! ## The loop -/

/-- What the first `n` cases leave. -/
def carryAfter (task : Task) (w : Nat → CaseWorld) (tmp : Tmp) : Nat → Carry
  | 0 => { maxTime := 0, maxMem := 0, tmp }
  | n + 1 => (gradeCase task (w (n + 1)) (n + 1) (carryAfter task w tmp n)).1

def rawResult (task : Task) (w : Nat → CaseWorld) (tmp : Tmp) (k : Nat) : Option Text :=
  (gradeCase task (w k) k (carryAfter task w tmp (k - 1))).2

/-! ## The task whose submission is its output -/

/-- The `output_only` branch: result and score, `none` when `grade` returns -1. -/
def gradeOutputOnly (task : Task) (answer : Option Text) (writable : Bool) (code : Text) :
    Option (Text × Rat) :=
  if task.countCases ≠ 1 ∨ writable = false then none
  else
    let result := if safeTkcmp answer (some (cstr code)) = 1 then "accepted!".toList
      else "wa#1".toList
    some (result, if result = "accepted!".toList then task.maxScore else 0)

end Tle.Grade
