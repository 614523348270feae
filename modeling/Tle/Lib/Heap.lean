import Tle.Lib.Scan

/-!
# Blocks of memory

`malloc` and `realloc` may fail, and what is in the new part of a block is arbitrary. An access outside the block
and an `int` that overflows have no defined behaviour.
-/

namespace Tle.Lib

inductive Fault where
  | overflow
  | outOfBounds
  deriving DecidableEq

/-- The value of an expression of type `int`. -/
def int32 (z : Int) : Except Fault Int := if -2 ^ 31 ≤ z ∧ z < 2 ^ 31 then .ok z else .error .overflow

/-- The allocator: what a new block of a size holds, unless it is refused. -/
structure Heap where
  grant : Nat → Option Text
  length_grant : ∀ n block, grant n = some block → block.length = n

/-- A pointer to the start of a block, or a null pointer. -/
abbrev Block := Option Text

namespace Heap

variable (heap : Heap)

def Grants (n : Nat) : Prop := ∃ block, heap.grant n = some block

def malloc (n : Nat) : Block := heap.grant n

/-- The old block is kept as far as it fits. -/
def realloc (block : Block) (n : Nat) : Block :=
  let old := block.getD []
  (heap.grant n).map fun fresh => old.take n ++ fresh.drop old.length

end Heap

/-- `block[i] = c` -/
def Block.store (block : Block) (i : Int) (c : Char) : Except Fault Block :=
  match block with
  | none => .error .outOfBounds
  | some bytes =>
      if 0 ≤ i ∧ i < bytes.length then .ok (some (bytes.set i.toNat c)) else .error .outOfBounds

variable {heap : Heap} {bytes : Text} {z : Int} {n : Nat} {c : Char}

theorem int32_of_fits (hlow : -2 ^ 31 ≤ z) (hhigh : z < 2 ^ 31) : int32 z = .ok z := if_pos ⟨hlow, hhigh⟩

theorem int32_of_large (h : 2 ^ 31 ≤ z) : int32 z = .error .overflow := if_neg (by omega)

theorem Block.store_none : Block.store none z c = .error .outOfBounds := rfl

theorem Block.store_of_lt (h : n < bytes.length) :
    Block.store (some bytes) n c = .ok (some (bytes.set n c)) := by
  simp [Block.store, h]

theorem Heap.realloc_of_not (h : ¬heap.Grants n) (block : Block) : heap.realloc block n = none := by
  cases hgrant : heap.grant n with
  | none => simp [Heap.realloc, hgrant]
  | some fresh => exact absurd ⟨fresh, hgrant⟩ h

/-- A larger block starts with the old one. -/
theorem Heap.realloc_of_le (h : heap.Grants n) (hle : bytes.length ≤ n) :
    ∃ rest, heap.realloc (some bytes) n = some (bytes ++ rest) ∧ (bytes ++ rest).length = n := by
  obtain ⟨fresh, hfresh⟩ := h
  have hlength := heap.length_grant n fresh hfresh
  refine ⟨fresh.drop bytes.length, ?_, ?_⟩
  · simp [Heap.realloc, hfresh, List.take_of_length_le hle]
  · simp [hlength, hle]

/-- The next byte of a block whose first bytes are known. -/
theorem take_succ_set (h : n < bytes.length) : (bytes.set n c).take (n + 1) = bytes.take n ++ [c] := by
  rw [List.take_add_one, List.take_set_of_le (Nat.le_refl n)]
  simp [h]

end Tle.Lib
