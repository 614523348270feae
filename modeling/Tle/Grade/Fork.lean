import Tle.Lib.Fork

/-!
# The processes of `grade` on a task with a jury

Every `fork` succeeds. A process is named by the cases at which it and its ancestors were forked for
the jury; what each of them finds at each stage is the input.
-/

namespace Tle.Grade
open Tle.Lib

/-- `replaced` is an `execl`, or the `_exit` after one that fails. A process that is `waiting` for a
child that went back to the claim loop never goes on. -/
inductive Ending where
  | replaced
  | returned
  | waiting
  deriving DecidableEq

abbrev Pid := List Nat

structure CaseSight where
  runFailed : Bool
  /-- status, time, exit code and memory are unremarkable -/
  unremarkable : Bool
  checkScript : Bool
  juryPresent : Bool
  juryCodePresent : Bool
  juryCompiles : Bool

/-- The stages of `grade` outside the loop: whether they get as far as their fork and how they end. -/
structure ForkWorld where
  taskFound : Bool
  initForked : Bool
  boxReady : Bool
  judgeScript : Bool
  judgeForked : Bool
  compileForked : Bool
  compiled : Bool
  sight : Pid → Nat → CaseSight
  scoreScript : Pid → Bool

/-- A child that does nothing but `execl`. -/
abbrev forkExec (forked : Bool) (next : Proc Ending) : Proc Ending :=
  Proc.helper .replaced forked next

/-- The checks before the jury is called: `found` goes on when it is there or could be compiled, and
`missing` is the jump to `end_case`. -/
def findJury (s : CaseSight) (found missing : Proc Ending) : Proc Ending :=
  if s.juryPresent then found
  else if !s.juryCodePresent then missing
  else forkExec true (if s.juryCompiles then found else missing)

def CaseSight.juryMissing (s : CaseSight) : Bool :=
  !s.juryPresent && (!s.juryCodePresent || !s.juryCompiles)

def CaseSight.forksJury (s : CaseSight) : Bool :=
  !s.runFailed && s.unremarkable && !s.checkScript

/-- The last `n` cases of the loop and what follows it, in process `p` at case `k`. -/
def gradeCasesProc (w : ForkWorld) : Nat → Nat → Pid → Proc Ending
  | 0, _, p => forkExec true (forkExec (w.scoreScript p) (.done .returned))
  | n + 1, k, p =>
      let s := w.sight p k
      -- the run script or the sandbox
      forkExec true <|
        if s.runFailed || !s.unremarkable then gradeCasesProc w n (k + 1) p
        else if s.checkScript then forkExec true (gradeCasesProc w n (k + 1) p)
        else
          let child := p ++ [k]
          -- the child of the jury's fork makes the checks as well
          .fork (findJury (w.sight child k) (.done .replaced) (gradeCasesProc w n (k + 1) child))
            (findJury s
              (if (w.sight child k).juryMissing then .done .waiting
                else gradeCasesProc w n (k + 1) p)
              (gradeCasesProc w n (k + 1) p))

/-- `grade` on a `special` task with `countCases` cases. -/
def gradeProc (w : ForkWorld) (countCases : Nat) : Proc Ending :=
  forkExec true <|
    if !w.taskFound then .done .returned
    else forkExec w.initForked <|
      if !w.boxReady then .done .returned
      else forkExec w.judgeForked <|
        if w.judgeScript then forkExec true (.done .returned)
        else forkExec w.compileForked <|
          if !w.compiled then .done .returned else gradeCasesProc w countCases 1 []

end Tle.Grade
