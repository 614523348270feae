import Tle.Lib.Scan

/-!
# From the grader's message to the stored verdict
-/

namespace Tle.Queue
open Tle.Lib

/-- `sscanf(result, "<label>%d", failed_case)` -/
def scanFailedCase (label : String) (result : Text) : Option Int :=
  (scanLit label.toList result).bind scanD

/-- The verdict and the failed case, `-1` when the message names none. -/
def parseVerdict (result : Text) : Text × Int :=
  if result = "accepted!".toList then ("accepted".toList, -1)
  else if strncmpEq result "compilation error".toList 18 then ("compilation_error".toList, -1)
  else if let some k := scanFailedCase "wa#" result then ("wrong_answer".toList, k)
  else if let some k := scanFailedCase "time limit exceeded#" result then ("time_limit".toList, k)
  else if let some k := scanFailedCase "memory limit exceeded#" result then ("memory_limit".toList, k)
  else if strncmpEq result "signal(".toList 7 || strncmpEq result "exitcode(".toList 9 then
    ("runtime_error".toList, -1)
  else ("internal_error".toList, -1)

example : parseVerdict "time limit exceeded#12".toList = ("time_limit".toList, 12) := by decide

end Tle.Queue
