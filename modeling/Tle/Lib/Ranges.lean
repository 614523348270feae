import Mathlib.Algebra.Order.Ring.Nat
import Mathlib.Data.List.Basic

/-!
# Consecutive ranges of natural numbers
-/

namespace Tle.Lib

structure Range where
  start : Nat
  size : Nat
  deriving DecidableEq

namespace Range

variable {r : Range} {rs : List Range} {a b k n : Nat}

abbrev Has (r : Range) (k : Nat) : Prop := r.start ≤ k ∧ k < r.start + r.size

def members (r : Range) : List Nat := List.range' r.start r.size

theorem mem_members : k ∈ r.members ↔ r.Has k := by
  simp [members, List.mem_range'_1]

/-- Nonempty ranges in `1..n` such that each number of `1..n` lies in exactly one of them. -/
structure Partition (rs : List Range) (n : Nat) : Prop where
  nonempty : ∀ r ∈ rs, 0 < r.size
  inside : ∀ r ∈ rs, ∀ k, r.Has k → 1 ≤ k ∧ k ≤ n
  once : ∀ k, 1 ≤ k → k ≤ n → rs.countP (fun r => decide (r.Has k)) = 1

namespace Partition

theorem count_flatMap_members : (rs.flatMap members).count k = rs.countP (fun r => decide (r.Has k)) := by
  induction rs with
  | nil => rfl
  | cons r rs ih =>
      have hnodup : r.members.Nodup := List.nodup_range'
      rw [List.flatMap_cons, List.count_append, List.countP_cons, ih, hnodup.count]
      simp only [mem_members, decide_eq_true_eq]
      omega

/-- The members of the ranges are the numbers of `1..n`, in some order. -/
theorem perm (h : Partition rs n) : (rs.flatMap members).Perm (List.range' 1 n) := by
  rw [List.perm_iff_count]
  intro k
  have hnodup : (List.range' 1 n).Nodup := List.nodup_range'
  rw [count_flatMap_members, hnodup.count]
  simp only [List.mem_range'_1]
  by_cases hk : 1 ≤ k ∧ k < 1 + n
  · rw [h.once k hk.1 (by omega), if_pos hk]
  · rw [if_neg hk, List.countP_eq_zero]
    intro r hr hhas
    have hinside := h.inside r hr k (of_decide_eq_true hhas)
    omega

theorem sum_size (h : Partition rs n) : (rs.map size).sum = n := by
  have hlength := h.perm.length_eq
  rw [List.length_flatMap, List.length_range'] at hlength
  rw [← hlength]
  congr 1
  exact List.map_congr_left (fun r _ => by simp [members])

end Partition

/-- Nonempty ranges, each starting where the one before it ends, from `a` up to `b`. -/
def Chain : Nat → List Range → Nat → Prop
  | a, [], b => a = b
  | a, r :: rs, b => r.start = a ∧ 0 < r.size ∧ Chain (a + r.size) rs b

namespace Chain

theorem le (h : Chain a rs b) : a ≤ b := by
  induction rs generalizing a with
  | nil => exact Nat.le_of_eq h
  | cons r rs ih =>
      obtain ⟨-, -, hrest⟩ := h
      have := ih hrest
      omega

theorem bounds (h : Chain a rs b) (hr : r ∈ rs) :
    a ≤ r.start ∧ 0 < r.size ∧ r.start + r.size ≤ b := by
  induction rs generalizing a with
  | nil => cases hr
  | cons r' rs ih =>
      obtain ⟨hstart, hsize, hrest⟩ := h
      rcases List.mem_cons.mp hr with rfl | hmem
      · have := hrest.le
        omega
      · have := ih hrest hmem
        omega

theorem countP_has (h : Chain a rs b) :
    rs.countP (fun r => decide (r.Has k)) = if a ≤ k ∧ k < b then 1 else 0 := by
  induction rs generalizing a with
  | nil =>
      have hab : a = b := h
      rw [if_neg (by omega)]
      rfl
  | cons r rs ih =>
      obtain ⟨hstart, hsize, hrest⟩ := h
      have hle := hrest.le
      rw [List.countP_cons, ih hrest]
      simp only [Has, hstart, decide_eq_true_eq]
      split <;> split <;> split <;> omega

theorem partition (h : Chain 1 rs (n + 1)) : Partition rs n where
  nonempty r hr := (h.bounds hr).2.1
  inside r hr k hk := by
    have := h.bounds hr
    omega
  once k hpos hle := by rw [h.countP_has, if_pos (by omega)]

theorem unique {r' : Range} (h : Chain a rs b) (hr : r ∈ rs) (hr' : r' ∈ rs) (hk : r.Has k)
    (hk' : r'.Has k) : r = r' := by
  induction rs generalizing a with
  | nil => cases hr
  | cons r₀ rs ih =>
      obtain ⟨hstart, hsize, hrest⟩ := h
      rcases List.mem_cons.mp hr with rfl | hmem <;> rcases List.mem_cons.mp hr' with rfl | hmem'
      · rfl
      · have := hrest.bounds hmem'
        omega
      · have := hrest.bounds hmem
        omega
      · exact ih hrest hmem hmem'

/-- Only the range of `k` can have `k` as its own number. -/
theorem exists_own_iff {f : Range → Nat} (h : Chain a rs b) (hf : ∀ r ∈ rs, r.Has (f r))
    (hr : r ∈ rs) (hk : r.Has k) : (∃ r' ∈ rs, k = f r') ↔ k = f r := by
  constructor
  · rintro ⟨r', hr', hkr⟩
    have hown : r'.Has k := by
      rw [hkr]
      exact hf r' hr'
    rw [← h.unique hr' hr hown hk]
    exact hkr
  · intro hkr
    exact ⟨r, hr, hkr⟩

/-- What each range contributes at a number of its own is contributed once. -/
theorem flatMap_own {α : Type*} {f : Range → Nat} (h : Chain a rs b)
    (hf : ∀ r ∈ rs, r.Has (f r)) (t : List α) :
    (rs.flatMap fun r => if k = f r then t else []) = if ∃ r ∈ rs, k = f r then t else [] := by
  induction rs generalizing a with
  | nil => simp
  | cons r rs ih =>
      obtain ⟨hstart, hsize, hrest⟩ := h
      have hown := hf r (List.mem_cons_self ..)
      rw [List.flatMap_cons, ih hrest (fun r' hr' => hf r' (List.mem_cons_of_mem _ hr'))]
      by_cases hk : k = f r
      · have hnone : ¬ ∃ r' ∈ rs, k = f r' := by
          rintro ⟨r', hr', hk'⟩
          have hbounds := hrest.bounds hr'
          have hown' := hf r' (List.mem_cons_of_mem _ hr')
          omega
        rw [if_pos hk, if_neg hnone, if_pos ⟨r, List.mem_cons_self .., hk⟩, List.append_nil]
      · simp [hk]

theorem append_singleton_iff :
    Chain a (rs ++ [r]) b ↔ Chain a rs r.start ∧ 0 < r.size ∧ r.start + r.size = b := by
  induction rs generalizing a with
  | nil =>
      constructor
      · rintro ⟨hstart, hsize, hend⟩
        exact ⟨hstart.symm, hsize, by rw [hstart]; exact hend⟩
      · rintro ⟨hstart, hsize, hend⟩
        have hstart' : a = r.start := hstart
        exact ⟨hstart'.symm, hsize, by rw [hstart']; exact hend⟩
  | cons r' rs ih =>
      simp only [List.cons_append, Chain, ih]
      constructor
      · rintro ⟨hstart, hsize, hrest, hlast⟩
        exact ⟨⟨hstart, hsize, hrest⟩, hlast⟩
      · rintro ⟨⟨hstart, hsize, hrest⟩, hlast⟩
        exact ⟨hstart, hsize, hrest, hlast⟩

end Chain

/-! ## Texts over ranges -/

section Text

variable {α : Type*} {text body : Nat → List α} {opening closing : List α}

/-- A text with `opening` at the first member and `closing` after the last. -/
theorem flatMap_members (hpos : 0 < r.size)
    (h : ∀ k, r.Has k → text k = (if k = r.start then opening else []) ++ body k ++
      (if k = r.start + r.size - 1 then closing else [])) :
    r.members.flatMap text = opening ++ r.members.flatMap body ++ closing := by
  obtain ⟨s, m, rfl⟩ : ∃ s m, r = ⟨s, m + 1⟩ := ⟨r.start, r.size - 1, by
    cases r; simp only [Range.mk.injEq, true_and]; simp only at hpos; omega⟩
  simp only [Has, members] at h ⊢
  let inner : Nat → List α := fun k => body k ++ (if k = s + m then closing else [])
  have hopen : (List.range' s (m + 1)).flatMap text = opening ++ (List.range' s (m + 1)).flatMap inner := by
    have hrest : (List.range' (s + 1) m).flatMap text = (List.range' (s + 1) m).flatMap inner := by
      apply List.flatMap_congr
      intro k hk
      rw [List.mem_range'_1] at hk
      rw [h k (by omega), if_neg (by omega)]
      rfl
    rw [List.range'_succ, List.flatMap_cons, List.flatMap_cons, hrest, h s (by omega), if_pos rfl]
    simp only [inner, List.append_assoc, Nat.add_succ_sub_one]
  have hclose : (List.range' s (m + 1)).flatMap inner =
      (List.range' s (m + 1)).flatMap body ++ closing := by
    have hrest : (List.range' s m).flatMap inner = (List.range' s m).flatMap body := by
      apply List.flatMap_congr
      intro k hk
      rw [List.mem_range'_1] at hk
      have hne : k ≠ s + m := by omega
      simp [inner, hne]
    rw [List.range'_1_concat, List.flatMap_append, List.flatMap_append, hrest]
    simp [inner]
  rw [hopen, hclose, List.append_assoc]

theorem Chain.flatMap_text {f : Range → List α} (h : Chain a rs b)
    (hf : ∀ r ∈ rs, r.members.flatMap text = f r) :
    (List.range' a (b - a)).flatMap text = rs.flatMap f := by
  induction rs generalizing a with
  | nil =>
      have hab : a = b := h
      simp [hab]
  | cons r rs ih =>
      obtain ⟨hstart, hsize, hrest⟩ := h
      have hle := hrest.le
      have hsplit : List.range' a (b - a) = r.members ++ List.range' (a + r.size) (b - (a + r.size)) := by
        rw [members, hstart, List.range'_append_1]
        congr 1
        omega
      rw [hsplit, List.flatMap_append, List.flatMap_cons, hf r (List.mem_cons_self ..),
        ih hrest (fun r' hr' => hf r' (List.mem_cons_of_mem _ hr'))]

end Text

end Range

end Tle.Lib
