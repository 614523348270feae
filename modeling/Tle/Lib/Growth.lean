import Mathlib.Algebra.Order.Ring.Nat
import Mathlib.Data.Nat.Log

/-!
# How often a buffer grows

A buffer that is too small is replaced by one of twice the length that is needed, or, from a limit on, by one that
is longer than needed by the limit. The potential of a capacity pays for every growth.
-/

namespace Tle.Lib

variable {k capacity needed : Nat}

/-- The new capacity; the limit is a power of two. -/
def grow (k needed : Nat) : Nat := if needed < 2 ^ k then needed * 2 else needed + 2 ^ k

def potential (k capacity : Nat) : Nat := min (Nat.log 2 (capacity + 1)) (k + 1) + capacity / 2 ^ k

theorem needed_le_grow (k needed : Nat) : needed ≤ grow k needed := by
  have hpos := Nat.two_pow_pos k
  unfold grow
  split <;> omega

/-- Below the limit the logarithm grows, and above it the quotient. -/
theorem potential_lt_grow (hneeded : capacity < needed) : potential k capacity < potential k (grow k needed) := by
  have hpos := Nat.two_pow_pos k
  unfold potential grow
  split
  · rename_i hsmall
    have hlog : Nat.log 2 (capacity + 1) + 1 ≤ Nat.log 2 (needed * 2 + 1) := by
      rw [← Nat.log_mul_base (by decide) (by omega)]
      exact Nat.log_mono_right (by omega)
    have hbound : Nat.log 2 (needed * 2 + 1) < k + 1 := by
      apply Nat.log_lt_of_lt_pow (by omega)
      rw [Nat.pow_succ]
      omega
    have hdiv : capacity / 2 ^ k ≤ needed * 2 / 2 ^ k := Nat.div_le_div_right (by omega)
    omega
  · have hlog : Nat.log 2 (capacity + 1) ≤ Nat.log 2 (needed + 2 ^ k + 1) := Nat.log_mono_right (by omega)
    have hdiv : capacity / 2 ^ k + 1 ≤ (needed + 2 ^ k) / 2 ^ k := by
      rw [Nat.add_div_right _ (Nat.two_pow_pos k)]
      exact Nat.succ_le_succ (Nat.div_le_div_right (by omega))
    omega

theorem potential_grow_le (k needed : Nat) : potential k (grow k needed) ≤ k + 2 + needed / 2 ^ k := by
  unfold potential grow
  split
  · rename_i hsmall
    have hdiv : needed * 2 / 2 ^ k ≤ 1 := by
      apply Nat.le_of_lt_succ
      rw [Nat.div_lt_iff_lt_mul (Nat.two_pow_pos k)]
      omega
    have hmin : min (Nat.log 2 (needed * 2 + 1)) (k + 1) ≤ k + 1 := Nat.min_le_right _ _
    exact Nat.le_trans (Nat.add_le_add hmin hdiv) (Nat.le_add_right _ _)
  · have hmin : min (Nat.log 2 (needed + 2 ^ k + 1)) (k + 1) ≤ k + 1 := Nat.min_le_right _ _
    rw [Nat.add_div_right _ (Nat.two_pow_pos k)]
    omega

end Tle.Lib
