import Mathlib.Order.Lattice
import Mathlib.Data.List.Pairwise
import Mathlib.Data.List.Sort
import Mathlib.Tactic.Common

/-!
# Tables with a primary key

The rows stand in key order, so the first row that satisfies a condition is the one with the least
key. The order is a field of the table: no statement can store two rows under one key.
-/

namespace Tle.Lib

structure Table {ρ κ : Type*} [LT κ] (key : ρ → κ) where
  rows : List ρ
  sorted : rows.Pairwise (fun a b => key a < key b)

namespace Table

variable {ρ κ : Type*} [LinearOrder κ] {key : ρ → κ}

def empty : Table key := ⟨[], List.Pairwise.nil⟩

def find (t : Table key) (k : κ) : Option ρ := t.rows.find? (fun r => key r = k)

/-- `UPDATE … SET f WHERE p`; `f` leaves the key as it is. -/
def updateWhere (t : Table key) (p : ρ → Bool) (f : ρ → ρ) (hf : ∀ r, key (f r) = key r) :
    Table key where
  rows := t.rows.map (fun r => if p r then f r else r)
  sorted := by
    rw [List.pairwise_map]
    refine t.sorted.imp fun {a b} h => ?_
    split <;> split <;> simpa only [hf] using h

def changes (t : Table key) (p : ρ → Bool) : Nat := t.rows.countP p

/-- The place of `r` among rows in key order. -/
def insertRow (key : ρ → κ) (r : ρ) : List ρ → List ρ
  | [] => [r]
  | x :: xs => if key r < key x then r :: x :: xs else x :: insertRow key r xs

theorem mem_insertRow {r x : ρ} {xs : List ρ} : x ∈ insertRow key r xs ↔ x = r ∨ x ∈ xs := by
  induction xs with
  | nil => simp [insertRow]
  | cons y ys ih =>
      simp only [insertRow]
      split
      · simp
      · simp only [List.mem_cons, ih]; exact or_left_comm

theorem insertRow_sorted {r : ρ} {xs : List ρ} (hs : xs.Pairwise (fun a b => key a < key b))
    (hne : ∀ x ∈ xs, key x ≠ key r) :
    (insertRow key r xs).Pairwise (fun a b => key a < key b) := by
  induction xs with
  | nil => simp [insertRow]
  | cons y ys ih =>
      simp only [insertRow]
      rw [List.pairwise_cons] at hs
      split
      · rename_i hlt
        refine List.pairwise_cons.mpr ⟨?_, List.pairwise_cons.mpr hs⟩
        intro x hx
        rcases List.mem_cons.mp hx with rfl | hx
        · exact hlt
        · exact lt_trans hlt (hs.1 x hx)
      · rename_i hlt
        refine List.pairwise_cons.mpr ⟨?_, ih hs.2 (fun x hx => hne x (List.mem_cons_of_mem _ hx))⟩
        intro x hx
        rcases mem_insertRow.mp hx with rfl | hx
        · exact lt_of_le_of_ne (not_lt.mp hlt) (hne y List.mem_cons_self)
        · exact hs.1 x hx

theorem find_eq_none_iff {t : Table key} {k : κ} : t.find k = none ↔ ∀ r ∈ t.rows, key r ≠ k := by
  simp [find]

/-- `INSERT`; refused when the key is taken. -/
def insert? (t : Table key) (r : ρ) : Option (Table key) :=
  if h : t.find (key r) = none then
    some ⟨insertRow key r t.rows, insertRow_sorted t.sorted (find_eq_none_iff.mp h)⟩
  else none

/-- `DELETE FROM … WHERE p` -/
def deleteWhere (t : Table key) (p : ρ → Bool) : Table key :=
  ⟨t.rows.filter (fun r => !p r), t.sorted.filter _⟩

/-! ## Rows and keys -/

theorem find_key {t : Table key} {k : κ} {r : ρ} (h : t.find k = some r) : key r = k := by
  simpa using List.find?_some h

theorem find_mem {t : Table key} {k : κ} {r : ρ} (h : t.find k = some r) : r ∈ t.rows :=
  List.mem_of_find?_eq_some h

private theorem find?_of_sorted {xs : List ρ} (hs : xs.Pairwise (fun a b => key a < key b)) {r : ρ}
    (hr : r ∈ xs) : xs.find? (fun x => key x = key r) = some r := by
  induction xs with
  | nil => simp at hr
  | cons y ys ih =>
      rw [List.pairwise_cons] at hs
      rcases List.mem_cons.mp hr with rfl | hr
      · simp
      · have hne : key y ≠ key r := ne_of_lt (hs.1 r hr)
        simpa [hne] using ih hs.2 hr

theorem mem_rows_iff {t : Table key} {r : ρ} : r ∈ t.rows ↔ t.find (key r) = some r :=
  ⟨find?_of_sorted t.sorted, find_mem⟩

@[simp] theorem find_empty (k : κ) : (empty : Table key).find k = none := rfl

theorem find_updateWhere (t : Table key) (p : ρ → Bool) (f : ρ → ρ)
    (hf : ∀ r, key (f r) = key r) (k : κ) :
    (t.updateWhere p f hf).find k = (t.find k).map (fun r => if p r then f r else r) := by
  have hkey : ((fun r => decide (key r = k)) ∘ fun r => if p r then f r else r) =
      fun r => decide (key r = k) := by
    funext r
    simp only [Function.comp]
    split <;> simp only [hf]
  simp only [find, updateWhere, List.find?_map, hkey]

theorem find_deleteWhere (t : Table key) (k k' : κ) :
    (t.deleteWhere fun r => key r = k).find k' = if k' = k then none else t.find k' := by
  split
  · rename_i hk
    rw [find_eq_none_iff, hk]
    intro r hr
    simpa [deleteWhere] using (List.mem_filter.mp hr).2
  · rename_i hk
    have hkept : ∀ r, key r = k' → ¬key r = k := fun r hr hrk => hk (hr.symm.trans hrk)
    simp only [find, deleteWhere, List.find?_filter]
    refine congrArg (List.find? · t.rows) (funext fun r => ?_)
    by_cases hr : key r = k'
    · simp [hr, hk]
    · simp [hr]

theorem find_insert? {t t' : Table key} {r : ρ} (h : t.insert? r = some t') (k : κ) :
    t'.find k = if key r = k then some r else t.find k := by
  unfold insert? at h
  split at h
  · cases h
    split
    · rename_i hk
      subst hk
      exact mem_rows_iff.mp (mem_insertRow.mpr (Or.inl rfl))
    · rename_i hk
      cases hold : t.find k with
      | none =>
          rw [find_eq_none_iff]
          intro x hx
          rcases mem_insertRow.mp hx with rfl | hx
          · exact hk
          · exact find_eq_none_iff.mp hold x hx
      | some x =>
          have hx := find_key hold
          subst hx
          exact mem_rows_iff.mp (mem_insertRow.mpr (Or.inr (find_mem hold)))
  · cases h

theorem insert?_eq_none_iff {t : Table key} {r : ρ} : t.insert? r = none ↔ ∃ x, t.find (key r) = some x := by
  unfold insert?
  split
  · rename_i h; simp [h]
  · rename_i h; simpa using Option.ne_none_iff_exists'.mp h

/-- A row whose key is above those of all rows that satisfy `p` is the last of them. -/
theorem filter_insertRow {p : ρ → Bool} {r : ρ} {xs : List ρ}
    (hs : xs.Pairwise (fun a b => key a < key b)) (hp : p r = true)
    (hlast : ∀ x ∈ xs, p x = true → key x < key r) :
    (insertRow key r xs).filter p = xs.filter p ++ [r] := by
  induction xs with
  | nil => simp [insertRow, hp]
  | cons y ys ih =>
      rw [List.pairwise_cons] at hs
      simp only [insertRow]
      split
      · rename_i hlt
        have hnone : ∀ x ∈ y :: ys, ¬ p x = true := by
          intro x hx hpx
          have hrx : key r < key x := by
            rcases List.mem_cons.mp hx with rfl | hmem
            · exact hlt
            · exact lt_trans hlt (hs.1 x hmem)
          exact lt_asymm hrx (hlast x hx hpx)
        rw [List.filter_cons_of_pos hp, List.filter_eq_nil_iff.mpr hnone, List.nil_append]
      · have hrest := ih hs.2 (fun x hx => hlast x (List.mem_cons_of_mem _ hx))
        cases hy : p y with
        | true => rw [List.filter_cons_of_pos hy, List.filter_cons_of_pos hy, hrest, List.cons_append]
        | false => rw [List.filter_cons_of_neg (by simp [hy]), List.filter_cons_of_neg (by simp [hy]), hrest]

theorem filter_insertRow_neg {p : ρ → Bool} {r : ρ} (xs : List ρ) (hp : p r = false) :
    (insertRow key r xs).filter p = xs.filter p := by
  induction xs with
  | nil => simp [insertRow, hp]
  | cons y ys ih =>
      simp only [insertRow]
      split
      · simp [hp]
      · simp only [List.filter_cons, ih]

theorem find_of_insert? {t t' : Table key} {r : ρ} (h : t.insert? r = some t') : t.find (key r) = none := by
  cases hfind : t.find (key r) with
  | none => rfl
  | some x =>
      rw [insert?_eq_none_iff.mpr ⟨x, hfind⟩] at h
      cases h

theorem rows_insert? {t t' : Table key} {r : ρ} (h : t.insert? r = some t') :
    t'.rows = insertRow key r t.rows := by
  unfold insert? at h
  split at h
  · cases h; rfl
  · cases h

/-- A table is given by its rows. -/
theorem eq_of_mem {t t' : Table key} (h : ∀ r, r ∈ t.rows ↔ r ∈ t'.rows) : t = t' := by
  have hirrefl : Std.Irrefl fun a b : ρ => key a < key b := ⟨fun a => lt_irrefl (key a)⟩
  have hantisymm : Std.Antisymm fun a b : ρ => key a < key b :=
    ⟨fun a b hab hba => absurd (lt_trans hab hba) (lt_irrefl (key a))⟩
  have hrows : t.rows = t'.rows := t.sorted.eq_of_mem_iff t'.sorted h
  cases t
  cases t'
  simpa using hrows

/-- The first row that satisfies a condition has the least key of those that do. -/
theorem key_le_of_find? {t : Table key} {p : ρ → Bool} {r x : ρ} (h : t.rows.find? p = some r)
    (hx : x ∈ t.rows) (hp : p x = true) : key r ≤ key x := by
  obtain ⟨-, before, behind, hrows, hbefore⟩ := List.find?_eq_some_iff_append.mp h
  rw [hrows] at hx
  rcases List.mem_append.mp hx with hmem | hmem
  · exact absurd (hbefore x hmem) (by simp [hp])
  · have hsorted := t.sorted
    rw [hrows, List.pairwise_append] at hsorted
    rcases List.mem_cons.mp hmem with rfl | hmem
    · exact le_refl _
    · exact le_of_lt ((List.pairwise_cons.mp hsorted.2.1).1 x hmem)

/-- An update whose condition fixes the key changes the row under that key or none. -/
theorem changes_of_key (t : Table key) {p : ρ → Bool} {k : κ} (hp : ∀ r, p r = true → key r = k) :
    t.changes p = if (t.find k).any p then 1 else 0 := by
  have hsub : t.rows.countP p ≤ 1 := by
    rw [List.countP_eq_length_filter]
    apply Nat.le_of_not_lt
    intro hlen
    obtain ⟨a, b, l, hf⟩ : ∃ a b l, t.rows.filter p = a :: b :: l := by
      match t.rows.filter p, hlen with
      | a :: b :: l, _ => exact ⟨a, b, l, rfl⟩
    have hlt := t.sorted.filter p
    rw [hf, List.pairwise_cons] at hlt
    have hkey : ∀ x ∈ a :: b :: l, key x = k := by
      intro x hx
      rw [← hf] at hx
      exact hp x (List.mem_filter.mp hx).2
    have hab := hlt.1 b List.mem_cons_self
    rw [hkey a (by simp), hkey b (by simp)] at hab
    exact lt_irrefl _ hab
  split
  · rename_i h
    obtain ⟨r, hr, hpr⟩ := (Option.any_eq_true _ _).mp h
    have hpos : 0 < t.rows.countP p := List.countP_pos_iff.mpr ⟨r, find_mem hr, hpr⟩
    exact Nat.le_antisymm hsub hpos
  · rename_i h
    refine List.countP_eq_zero.mpr fun r hr hpr => h ?_
    have hfind := mem_rows_iff.mp hr
    rw [hp r hpr] at hfind
    rw [hfind]
    exact hpr

/-- A view of the rows that keeps their keys is the sorted list of what the lookups show of it. -/
theorem map_rows_eq {α : Type*} {t : Table key} {f : ρ → α} {g : α → κ} (hg : ∀ r, g (f r) = key r) {l : List α}
    (hl : l.Pairwise (fun a b => g a < g b)) (h : ∀ a, a ∈ l ↔ (t.find (g a)).map f = some a) :
    t.rows.map f = l := by
  have hirrefl : Std.Irrefl fun a b : α => g a < g b := ⟨fun a => lt_irrefl (g a)⟩
  have hantisymm : Std.Antisymm fun a b : α => g a < g b :=
    ⟨fun a b hab hba => absurd (lt_trans hab hba) (lt_irrefl (g a))⟩
  have hsorted : (t.rows.map f).Pairwise fun a b => g a < g b := by
    rw [List.pairwise_map]
    simpa only [hg] using t.sorted
  refine hsorted.eq_of_mem_iff hl fun a => ?_
  rw [h, List.mem_map]
  constructor
  · rintro ⟨r, hr, rfl⟩
    rw [hg, mem_rows_iff.mp hr]
    rfl
  · intro ha
    obtain ⟨r, hr, rfl⟩ := Option.map_eq_some_iff.mp ha
    exact ⟨r, find_mem hr, rfl⟩

end Table

end Tle.Lib
