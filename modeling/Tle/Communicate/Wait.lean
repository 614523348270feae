import Tle.Lib.Scan

/-!
# `tle_communicate`

The helper forks a manager and a contestant and polls both until they have finished. When each child
finishes, with which status, and what the clock says at each poll is the input. Milliseconds are exact
integers: a time limit that overflows `long long` is left out.
-/

namespace Tle.Communicate
open Tle.Lib

structure Timespec where
  sec : Int
  nsec : Int
  deriving DecidableEq

/-- A child process: the first poll that finds it finished, its wait status, and what the helper has
of it. -/
structure Child where
  finish : Nat
  exitStatus : Nat
  reaped : Bool := false
  status : Nat := 1
  deriving DecidableEq

def Child.fresh (finish exitStatus : Nat) : Child := { finish, exitStatus }

inductive WaitReply where
  | running
  | pid
  | error
  deriving DecidableEq

/-- `waitpid(pid, &status, WNOHANG)` in poll `i`. -/
def Child.waitpid (c : Child) (i : Nat) : WaitReply × Child :=
  if c.reaped then (.error, c)
  else if c.finish ≤ i then (.pid, { c with reaped := true, status := c.exitStatus })
  else (.running, c)

/-- `WIFEXITED(status) && WEXITSTATUS(status) == 0` -/
def exitedZero (status : Nat) : Bool := status % 128 = 0 && status / 256 % 256 = 0

/-- What the monotonic clock says at the start and in each poll. -/
structure Clock where
  start : Timespec
  now : Nat → Timespec

def Clock.elapsedMs (t : Clock) (i : Nat) : Int :=
  ((t.now i).sec - t.start.sec) * 1000 + ((t.now i).nsec - t.start.nsec).tdiv 1000000

/-- `(long long)time_ms + 5000` -/
def limitMs (timeMs : BitVec 64) : Int := timeMs.toInt + 5000

/-- The exit code, and for each `kill` whether its child had been reaped before. -/
structure Outcome where
  code : Nat
  kills : List Bool
  deriving DecidableEq

/-- The loop from poll `i` on, for at most `fuel` polls. -/
def waitLoop (timeMs : BitVec 64) (t : Clock) : Nat → Nat → Child → Child → Option Outcome
  | 0, _, _, _ => none
  | fuel + 1, i, manager, contestant =>
      let (managerDone, manager) := manager.waitpid i
      let (contestantDone, contestant) := contestant.waitpid i
      if managerDone = .pid ∧ contestantDone = .pid then
        some ⟨if exitedZero manager.status && exitedZero contestant.status then 0 else 1, []⟩
      else if managerDone = .error ∨ contestantDone = .error then
        some ⟨2, [manager.reaped, contestant.reaped]⟩
      else if t.elapsedMs i > limitMs timeMs then some ⟨1, [manager.reaped, contestant.reaped]⟩
      else waitLoop timeMs t fuel (i + 1) manager contestant

/-- The arguments, and which of the steps before the loop succeed. -/
structure Setup where
  argc : Nat
  workDir : Text
  manager : Text
  timeArg : Text
  memoryArg : Text
  isolate_ok : Bool
  pipes_ok : Bool
  forkManager_ok : Bool
  forkContestant_ok : Bool

def Setup.timeMs (s : Setup) : BitVec 64 := BitVec.ofNat 64 (strtoul s.timeArg)

/-- `main` -/
def communicate (s : Setup) (t : Clock) (fuel : Nat) (manager contestant : Child) : Option Outcome :=
  if s.argc ≠ 5 then some ⟨2, []⟩
  else if strtoul s.timeArg = 0 ∨ strtoul s.memoryArg = 0 ∨ s.workDir.length ≥ 1400 ∨
      s.manager.length ≥ 4096 then some ⟨2, []⟩
  else if !s.isolate_ok then some ⟨2, []⟩
  else if !s.pipes_ok then some ⟨2, []⟩
  else if !s.forkManager_ok then some ⟨2, []⟩
  else if !s.forkContestant_ok then some ⟨2, [manager.reaped]⟩
  else waitLoop s.timeMs t fuel 0 manager contestant

end Tle.Communicate
