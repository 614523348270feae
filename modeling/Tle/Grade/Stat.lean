import Tle.Lib.Double
import Tle.Lib.Fields

/-!
# Reading a stat file
-/

namespace Tle.Grade
open Tle.Lib

/-- What `grade` takes from the meta file of one run. -/
structure Stat where
  caseTime : Nat := 0
  caseMem : Nat := 0
  stat : Text := []
  subexitsig : Int := 0
  subexitcode : Int := 0

/-- One line. A value that is not read leaves its variable alone, but for the `atoi` ones. A status word of
nine bytes or more is written past the end of `stat`, after which nothing is defined: the word that is kept
here means something only for files that are `StatFits`. -/
def Stat.readLine (s : Stat) (line : Text) : Stat :=
  if strncmpEq line "time:".toList 5 then
    { s with caseTime := unsignedOfDouble (mulDouble (atof (line.drop 5)) (.finite 1000)) }
  else if strncmpEq line "status:".toList 7 then
    match scanWord (line.drop 7) with
    | some stat => { s with stat }
    | none => s
  else if strncmpEq line "max-rss:".toList 8 then { s with caseMem := toUnsigned (atoi (line.drop 8)) }
  else if strncmpEq line "exitsig:".toList 8 then { s with subexitsig := atoi (line.drop 8) }
  else if strncmpEq line "exitcode:".toList 9 then
    match scanD (line.drop 9) with
    | some subexitcode => { s with subexitcode }
    | none => s
  else s

def readStat (file : Text) : Stat :=
  (fgetsAll 256 file).foldl (fun s line => s.readLine (cstr line)) {}

-- a hexadecimal number is one to `atof`
example : (readStat "time:0x10\n".toList).caseTime = 16000 := by decide +kernel

example : (readStat "time:0.125\nstatus:RE\nexitcode:3\n".toList).subexitcode = 3 := by decide +kernel

end Tle.Grade
