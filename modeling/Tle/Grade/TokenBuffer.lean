import Tle.Grade.Tokens
import Tle.Lib.Heap

/-!
# The buffer of a token

`get_next_token` and `safe_tkcmp` of `grader.c` with the block that a token is read into. The stream is read as by
the functions without it.
-/

namespace Tle.Grade.Buffered
open Tle.Lib

/-- The variables of `get_next_token`. -/
structure TokenBuffer where
  token : Block
  idx : Int
  capacity : Int

def TokenBuffer.start (heap : Heap) : TokenBuffer where
  token := heap.malloc 256
  idx := 0
  capacity := 256

/-- `token[idx++] = (char)ch`, and twice the block where this was its last byte. -/
def TokenBuffer.push (heap : Heap) (b : TokenBuffer) (ch : Char) : Except Fault TokenBuffer := do
  let token ← b.token.store b.idx ch
  let idx ← int32 (b.idx + 1)
  if b.capacity ≤ idx then
    let capacity ← int32 (b.capacity * 2)
    return { token := heap.realloc token capacity.toNat, idx, capacity }
  else return { b with token, idx }

/-- The second loop, with the character before it and the stream behind that. -/
def TokenBuffer.fill (heap : Heap) : TokenBuffer → Char → Text → Except Fault (TokenBuffer × Text)
  | b, ch, [] => do
      let b ← b.push heap ch
      return (b, [])
  | b, ch, next :: fp => do
      let b ← b.push heap ch
      if isWhitespace next then return (b, fp) else TokenBuffer.fill heap b next fp

def getNextToken (heap : Heap) (fp : Text) : Except Fault (Block × Text) :=
  match skipWhitespace fp with
  | none => .ok (none, [])
  | some (ch, fp) => do
      let (b, fp) ← (TokenBuffer.start heap).fill heap ch fp
      let token ← b.token.store b.idx '\x00'
      return (token, fp)

theorem fill_length {heap : Heap} {b b' : TokenBuffer} {ch : Char} {fp fp' : Text}
    (h : b.fill heap ch fp = .ok (b', fp')) : fp'.length ≤ fp.length := by
  induction fp generalizing b ch with
  | nil =>
      unfold TokenBuffer.fill at h
      cases hpush : b.push heap ch with
      | error e => simp [hpush, bind, Except.bind] at h
      | ok b₁ =>
          simp only [hpush, bind, Except.bind, pure, Except.pure] at h
          cases h
          exact Nat.le_refl 0
  | cons next fp ih =>
      unfold TokenBuffer.fill at h
      cases hpush : b.push heap ch with
      | error e => simp [hpush, bind, Except.bind] at h
      | ok b₁ =>
          simp only [hpush, bind, Except.bind, pure, Except.pure] at h
          split at h
          · cases h
            exact Nat.le_succ _
          · exact Nat.le_succ_of_le (ih h)

theorem getNextToken_length {heap : Heap} {fp fp' t : Text} (h : getNextToken heap fp = .ok (some t, fp')) :
    fp'.length < fp.length := by
  unfold getNextToken at h
  split at h
  · cases h
  · rename_i ch rest hskip
    cases hfill : (TokenBuffer.start heap).fill heap ch rest with
    | error e => simp [hfill, bind, Except.bind] at h
    | ok result =>
        obtain ⟨b, left⟩ := result
        simp only [hfill, bind, Except.bind] at h
        split at h
        · cases h
        · cases h
          exact Nat.lt_of_le_of_lt (fill_length hfill) (skipWhitespace_length hskip)

/-- The comparison loop. -/
def matchTokens (heap : Heap) (f1 f2 : Text) : Except Fault Int :=
  match _h1 : getNextToken heap f1, getNextToken heap f2 with
  | .error fault, _ => .error fault
  | .ok _, .error fault => .error fault
  | .ok (none, _), .ok (none, _) => .ok 1
  | .ok (some _, _), .ok (none, _) => .ok 0
  | .ok (none, _), .ok (some _, _) => .ok 0
  | .ok (some t1, f1'), .ok (some t2, f2') =>
      if cstr t1 ≠ cstr t2 then .ok 0 else matchTokens heap f1' f2'
termination_by f1.length
decreasing_by exact getNextToken_length _h1

/-- The files are `none` where `fopen` fails. -/
def safeTkcmp (heap : Heap) : Option Text → Option Text → Except Fault Int
  | some f1, some f2 => matchTokens heap f1 f2
  | _, _ => .ok (-1)

end Tle.Grade.Buffered
