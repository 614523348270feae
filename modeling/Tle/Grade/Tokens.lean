import Tle.Lib.Fields
import Tle.Lib.Scan

/-!
# Comparing two files token by token

`get_next_token` and `safe_tkcmp` of `grader.c`. A stream is the rest of its file.
-/

namespace Tle.Grade
open Tle.Lib

/-- `strchr(WHITESPACE, ch)` is not `NULL`; it also finds the terminator of the string. -/
def isWhitespace (ch : Char) : Bool := ch ∈ "\t\n\r \x00".toList

/-- The first loop: the first character outside the white space, if there is one. -/
def skipWhitespace : Text → Option (Char × Text)
  | [] => none
  | ch :: fp => if isWhitespace ch then skipWhitespace fp else some (ch, fp)

/-- The second loop: the rest of a token, and the stream after the character that ends it. -/
def readToken : Text → Text × Text
  | [] => ([], [])
  | ch :: fp => if isWhitespace ch then ([], fp) else ((ch :: (readToken fp).1), (readToken fp).2)

def getNextToken (fp : Text) : Option Text × Text :=
  match skipWhitespace fp with
  | none => (none, [])
  | some (ch, fp) => (some (ch :: (readToken fp).1), (readToken fp).2)

theorem skipWhitespace_length {fp fp' : Text} {ch : Char} (h : skipWhitespace fp = some (ch, fp')) :
    fp'.length < fp.length := by
  induction fp with
  | nil => cases h
  | cons c fp ih =>
      unfold skipWhitespace at h
      split at h
      · exact Nat.lt_succ_of_lt (ih h)
      · cases h
        exact Nat.lt_succ_self _

theorem readToken_length (fp : Text) : (readToken fp).2.length ≤ fp.length := by
  induction fp with
  | nil => exact Nat.le_refl 0
  | cons c fp ih =>
      unfold readToken
      split
      · exact Nat.le_succ _
      · exact Nat.le_succ_of_le ih

theorem getNextToken_length {fp fp' t : Text} (h : getNextToken fp = (some t, fp')) :
    fp'.length < fp.length := by
  unfold getNextToken at h
  split at h
  · cases h
  · rename_i ch rest hskip
    cases h
    exact Nat.lt_of_le_of_lt (readToken_length rest) (skipWhitespace_length hskip)

/-- The comparison loop. -/
def matchTokens (f1 f2 : Text) : Int :=
  match _h1 : getNextToken f1, getNextToken f2 with
  | (none, _), (none, _) => 1
  | (some _, _), (none, _) => 0
  | (none, _), (some _, _) => 0
  | (some t1, f1'), (some t2, f2') => if cstr t1 ≠ cstr t2 then 0 else matchTokens f1' f2'
termination_by f1.length
decreasing_by exact getNextToken_length _h1

/-- The files are `none` where `fopen` fails. -/
def safeTkcmp : Option Text → Option Text → Int
  | some f1, some f2 => matchTokens f1 f2
  | _, _ => -1

end Tle.Grade
