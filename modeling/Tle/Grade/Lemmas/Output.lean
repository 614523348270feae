import Tle.Grade.Lemmas.Independence

/-!
# The file a case is judged on
-/

namespace Tle.Grade
open Tle.Lib

variable {task : Task} {w : Nat → CaseWorld} {tmp tmp' : Tmp} {k n : Nat}

theorem copy_regular {o : OutputLeft} {bytes : Text} (hreg : o.boxOut = .regular bytes)
    (hwritable : o.writable = true) : (o.copy k tmp).1 k = some bytes := by
  simp [OutputLeft.copy, hreg, hwritable, BoxOut.open]

theorem judgedInRun_copied {bytes : Text} (hreg : (w k).output.boxOut = .regular bytes)
    (hwritable : (w k).output.writable = true) : judgedInRun task w tmp k = some bytes :=
  copy_regular hreg hwritable

/-! ## The old contents of `/tmp` -/

/-- What the check script, the jury or the answer has against the file, and the words for it. -/
inductive Refuses (task : Task) (world : CaseWorld) (k : Nat) (out : Option Text) : Text → Prop
  | scriptFails : runTaskCheckScript (world.checkScript out) < 0 →
      Refuses task world k out (withCase "internal error:check script failed" k)
  | scriptRefuses : runTaskCheckScript (world.checkScript out) = 2 → Refuses task world k out (wrongAnswer k)
  | noJury : runTaskCheckScript (world.checkScript out) = 1 → task.comparison = "special".toList →
      world.juryPresent = false → world.juryCodePresent = false →
      Refuses task world k out "internal error:jury not present".toList
  | notCompiled : runTaskCheckScript (world.checkScript out) = 1 → task.comparison = "special".toList →
      world.juryPresent = false → world.juryCodePresent = true → world.juryCompiles = false →
      Refuses task world k out "internal error:failed compiling jury".toList
  | juryFails : runTaskCheckScript (world.checkScript out) = 1 → task.comparison = "special".toList →
      (world.juryPresent = true ∨ world.juryCodePresent = true ∧ world.juryCompiles = true) →
      (world.jury out).exitedZero = false → Refuses task world k out "internal error:jury failed".toList
  | juryRefuses {raw : Text} : JuryRead task world out →
      juryVerdict k (verdictBytes world (world.jury out)) = some raw → Refuses task world k out raw
  | differs {answer output : Text} : runTaskCheckScript (world.checkScript out) = 1 →
      task.comparison ≠ "special".toList → world.answer = some answer → out = some output →
      tokens answer ≠ tokens output → Refuses task world k out (wrongAnswer k)

end Tle.Grade
