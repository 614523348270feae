import Tle.Lib.Scan

/-!
# Comparing and searching strings

What a bounded comparison and a search say about the texts.
-/

namespace Tle.Lib

variable {s t : Text} {c : Char}

/-- A comparison within both texts asks whether one starts with the front of the other. -/
theorem strncmpEq_iff_of_le (h : t.length ≤ s.length) (u : Text) :
    strncmpEq (t ++ u) s t.length = true ↔ t <+: s := by
  have hfront : (t ++ u ++ ['\x00']).take t.length = t := by
    rw [List.append_assoc, List.take_left' rfl]
  rw [strncmpEq, decide_eq_true_eq, hfront, List.take_append_of_le_length h, List.prefix_iff_eq_take]

/-- The same holds beyond them, unless the front ends with the terminator. -/
theorem strncmpEq_iff_prefix (h : t.getLast? ≠ some '\x00') (u s : Text) :
    strncmpEq (t ++ u) s t.length = true ↔ t <+: s := by
  by_cases hlen : t.length ≤ s.length
  · exact strncmpEq_iff_of_le hlen u
  · refine iff_of_false ?_ fun hfront => hlen hfront.length_le
    have hfront : (t ++ u ++ ['\x00']).take t.length = t := by
      rw [List.append_assoc, List.take_left' rfl]
    have hwhole : (s ++ ['\x00']).take t.length = s ++ ['\x00'] := by
      apply List.take_of_length_le
      simp only [List.length_append, List.length_singleton]
      omega
    rw [strncmpEq, decide_eq_true_eq, hfront, hwhole]
    intro heq
    rw [heq, List.getLast?_concat] at h
    exact h rfl

theorem strncmpEq_comm (s t : Text) (n : Nat) : strncmpEq s t n = strncmpEq t s n := by
  simp only [strncmpEq, eq_comm]

theorem strncmpEq_whole_iff (h : '\x00' ∉ t) (s : Text) : strncmpEq s t t.length = true ↔ t <+: s := by
  have hlast : t.getLast? ≠ some '\x00' := fun heq => h (List.mem_of_getLast? heq)
  have hiff := strncmpEq_iff_prefix hlast [] s
  rwa [List.append_nil, strncmpEq_comm] at hiff

/-- A pattern is found at once behind a text that lacks its first character. -/
theorem strstr_append (h : c ∉ s) (pattern t : Text) :
    strstr (s ++ (c :: pattern ++ t)) (c :: pattern) = some (c :: pattern ++ t) := by
  induction s with
  | nil => simp [strstr, List.tails, List.isPrefixOf_iff_prefix]
  | cons x s ih =>
      rw [List.mem_cons, not_or] at h
      have hskip : (c :: pattern).isPrefixOf (x :: (s ++ (c :: pattern ++ t))) = false := by
        simp [List.isPrefixOf, h.1]
      have htail := ih h.2
      simp only [strstr] at htail ⊢
      rw [List.cons_append, List.tails, List.find?_cons_of_neg (Bool.eq_false_iff.mp hskip)]
      exact htail

end Tle.Lib
