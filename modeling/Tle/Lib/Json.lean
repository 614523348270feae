import Mathlib.Tactic.NormNum
import Tle.Lib.Scan

/-!
# JSON trees

A parsed document and the reads of it that cJSON offers. A text is the C string cJSON keeps, and a
number the double it was read as; for an infinite one any rational beyond the doubles stands.
-/

namespace Tle.Lib

inductive Json where
  | null
  | bool (value : Bool)
  | number (valuedouble : Rat)
  | string (valuestring : Text)
  | array (items : List Json)
  | object (members : List (Text × Json))

namespace Json

/-- `cJSON_GetObjectItemCaseSensitive`: the first member of that name. -/
def getObjectItem (name : String) : Json → Option Json
  | object members => (members.find? (fun m => m.1 = name.toList)).map (·.2)
  | _ => none

def isNumber : Json → Bool
  | number _ => true
  | _ => false

def isString : Json → Bool
  | string _ => true
  | _ => false

def isArray : Json → Bool
  | array _ => true
  | _ => false

/-- What `cJSON_ArrayForEach` visits of an array. -/
def items : Json → List Json
  | array xs => xs
  | _ => []

def valuedouble : Json → Rat
  | number x => x
  | _ => 0

def valuestring : Json → Text
  | string s => s
  | _ => []

/-- `valueint`: the double without its fraction, saturated. -/
def valueint (j : Json) : Int :=
  let x := j.valuedouble
  if 2 ^ 31 - 1 ≤ x then 2 ^ 31 - 1 else if x ≤ -2 ^ 31 then -2 ^ 31 else x.num.tdiv x.den

theorem valueint_le (j : Json) : j.valueint ≤ 2 ^ 31 - 1 := by
  simp only [valueint]
  split
  · exact Int.le_refl _
  · rename_i hlt
    split
    · decide
    · cases Int.lt_or_le j.valuedouble.num 0 with
      | inl hneg =>
          have hquot : 0 ≤ (-j.valuedouble.num).tdiv j.valuedouble.den :=
            Int.tdiv_nonneg (by omega) (Int.natCast_nonneg _)
          rw [Int.neg_tdiv] at hquot
          omega
      | inr hpos =>
          have hcast : ((2147483647 : Int) : Rat) = 2 ^ 31 - 1 := by norm_num
          have hfloor : j.valuedouble.floor < 2147483647 :=
            Rat.floor_lt_iff.mpr (by rw [hcast]; exact Rat.not_le.mp hlt)
          rw [Rat.floor_def] at hfloor
          rw [Int.tdiv_eq_ediv_of_nonneg hpos]
          exact Int.le_of_lt hfloor

example : (number (-5 / 2)).valueint = -2 := by decide +kernel

end Json

end Tle.Lib
