import Mathlib.Data.List.Infix

/-!
# Working off a text in blocks

Items come one at a time. A block is worked off when its last item has come.
-/

namespace Tle.Lib

variable {α σ : Type*} {n : Nat} {process : σ → List α → σ} {s : σ} {xs : List α} {x : α}

/-- The full blocks of a text. -/
def blocks (n : Nat) (xs : List α) : List (List α) :=
  (List.range (xs.length / n)).map fun k => (xs.drop (k * n)).take n

/-- What stands behind the last full block. -/
def remainder (n : Nat) (xs : List α) : List α := xs.drop (xs.length / n * n)

/-- The next item, behind those of its block that have come already. -/
def absorb (n : Nat) (process : σ → List α → σ) (p : σ × List α) (x : α) : σ × List α :=
  if p.2.length + 1 = n then (process p.1 (p.2 ++ [x]), []) else (p.1, p.2 ++ [x])

theorem length_remainder (n : Nat) (xs : List α) : (remainder n xs).length = xs.length % n := by
  have hsplit := Nat.div_add_mod' xs.length n
  rw [remainder, List.length_drop]
  omega

theorem block_append {k : Nat} (hk : k < xs.length / n) (ys : List α) :
    ((xs ++ ys).drop (k * n)).take n = (xs.drop (k * n)).take n := by
  have hsplit := Nat.div_add_mod' xs.length n
  have hstep := Nat.mul_le_mul_right n (Nat.succ_le_of_lt hk)
  rw [Nat.succ_mul] at hstep
  rw [List.drop_append_of_le_length (by omega), List.take_append_of_le_length]
  rw [List.length_drop]
  omega

theorem blocks_snoc_full (hn : 0 < n) (hfull : (remainder n xs).length + 1 = n) (x : α) :
    blocks n (xs ++ [x]) = blocks n xs ++ [remainder n xs ++ [x]] ∧ remainder n (xs ++ [x]) = [] := by
  rw [length_remainder] at hfull
  have hsplit := Nat.div_add_mod' xs.length n
  have hlength : (xs ++ [x]).length = (xs.length / n + 1) * n := by
    rw [List.length_append, List.length_singleton, Nat.succ_mul]
    omega
  have hdiv : (xs ++ [x]).length / n = xs.length / n + 1 := by
    rw [hlength, Nat.mul_div_cancel _ hn]
  constructor
  · rw [blocks, hdiv, List.range_succ, List.map_append, List.map_singleton]
    congr 1
    · apply List.map_congr_left
      intro k hk
      exact block_append (List.mem_range.mp hk) [x]
    · rw [remainder, List.drop_append_of_le_length (by omega), List.take_of_length_le]
      rw [List.length_append, List.length_drop, List.length_singleton]
      omega
  · rw [remainder, hdiv, List.drop_eq_nil_iff, hlength]

theorem blocks_snoc_part (hpart : (remainder n xs).length + 1 < n) (x : α) :
    blocks n (xs ++ [x]) = blocks n xs ∧ remainder n (xs ++ [x]) = remainder n xs ++ [x] := by
  rw [length_remainder] at hpart
  have hsplit := Nat.div_add_mod' xs.length n
  have hdiv : (xs ++ [x]).length / n = xs.length / n := by
    rw [List.length_append, List.length_singleton]
    apply Nat.div_eq_of_lt_le
    · omega
    · rw [Nat.succ_mul]
      omega
  constructor
  · rw [blocks, hdiv]
    apply List.map_congr_left
    intro k hk
    exact block_append (List.mem_range.mp hk) [x]
  · rw [remainder, hdiv, List.drop_append_of_le_length (by omega)]
    rfl

/-- However the items come, every full block has been worked off, and the rest is kept. -/
theorem foldl_absorb (hn : 0 < n) (process : σ → List α → σ) (s : σ) (xs : List α) :
    xs.foldl (absorb n process) (s, []) = ((blocks n xs).foldl process s, remainder n xs) := by
  induction xs using List.reverseRecOn with
  | nil => simp [blocks, remainder]
  | append_singleton xs x ih =>
      rw [List.foldl_append, ih, List.foldl_cons, List.foldl_nil, absorb]
      have hlt : (remainder n xs).length < n := by
        rw [length_remainder]
        exact Nat.mod_lt _ hn
      split
      · rename_i hfull
        obtain ⟨hblocks, hrest⟩ := blocks_snoc_full hn hfull x
        rw [hblocks, hrest, List.foldl_append]
        rfl
      · rename_i hpart
        have hlt' : (remainder n xs).length + 1 < n := by
          have hne : (remainder n xs).length + 1 ≠ n := hpart
          omega
        obtain ⟨hblocks, hrest⟩ := blocks_snoc_part hlt' x
        rw [hblocks, hrest]

end Tle.Lib
