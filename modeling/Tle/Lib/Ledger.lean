import Mathlib.Data.Finset.Basic

/-!
# The blocks of a heap

Which blocks are allocated, and none of their contents. An allocation may be refused; to free a block that is not
allocated has no defined behaviour.
-/

namespace Tle.Lib

/-- Blocks are numbered as they come. -/
structure Ledger where
  count : Nat
  live : Finset Nat
  live_lt : ∀ b ∈ live, b < count

namespace Ledger

def empty : Ledger where
  count := 0
  live := ∅
  live_lt _ h := absurd h (Finset.notMem_empty _)

/-- A refused allocation is counted as well. -/
def allocate (ok : Bool) (heap : Ledger) : Option Nat × Ledger :=
  (if ok then some heap.count else none,
    { count := heap.count + 1
      live := if ok then insert heap.count heap.live else heap.live
      live_lt := by
        intro b hb
        split at hb
        · rcases Finset.mem_insert.mp hb with rfl | hb
          · exact Nat.lt_succ_self _
          · exact Nat.lt_succ_of_lt (heap.live_lt b hb)
        · exact Nat.lt_succ_of_lt (heap.live_lt b hb) })

def free (b : Nat) (heap : Ledger) : Option Ledger :=
  if b ∈ heap.live then
    some
      { count := heap.count
        live := heap.live.erase b
        live_lt := fun b' hb' => heap.live_lt b' (Finset.mem_of_mem_erase hb') }
  else none

/-- Beyond `base`, exactly the blocks `bs` are allocated, each of them once. -/
def Holds (heap : Ledger) (base : Multiset Nat) (bs : List Nat) : Prop := heap.live.val = base + (bs : Multiset Nat)

variable {heap heap' : Ledger} {base : Multiset Nat} {bs bs' : List Nat} {b : Nat}

theorem holds_nil : heap.Holds heap.live.val [] := by simp [Holds]

theorem holds_nil_iff : heap.Holds base [] ↔ heap.live.val = base := by simp [Holds]

theorem Holds.perm (h : heap.Holds base bs) (hperm : bs.Perm bs') : heap.Holds base bs' := by
  rw [Holds, h, Multiset.coe_eq_coe.mpr hperm]

/-- Blocks of one part may count as the base of another. -/
theorem holds_append : heap.Holds base (bs ++ bs') ↔ heap.Holds (base + (bs : Multiset Nat)) bs' := by
  rw [Holds, Holds, ← Multiset.coe_add, Multiset.add_assoc]

theorem Holds.nodup (h : heap.Holds base bs) : bs.Nodup := by
  have hnodup : (base + (bs : Multiset Nat)).Nodup := h ▸ heap.live.nodup
  exact Multiset.coe_nodup.mp (Multiset.nodup_add.mp hnodup).2.1

theorem Holds.mem (h : heap.Holds base bs) (hb : b ∈ bs) : b ∈ heap.live := by
  rw [← Finset.mem_val, h, Multiset.mem_add]
  exact Or.inr hb

theorem Holds.allocate (h : heap.Holds base bs) : (heap.allocate true).2.Holds base (heap.count :: bs) := by
  have hfresh : heap.count ∉ heap.live := fun hmem => Nat.lt_irrefl _ (heap.live_lt _ hmem)
  have hlive : (heap.allocate true).2.live = insert heap.count heap.live := rfl
  rw [Holds, hlive, Finset.insert_val_of_notMem hfresh, h, ← Multiset.cons_coe, Multiset.add_cons]

theorem Holds.refused (h : heap.Holds base bs) : (heap.allocate false).2.Holds base bs := h

theorem Holds.free (h : heap.Holds base (b :: bs)) : ∃ heap', heap.free b = some heap' ∧ heap'.Holds base bs := by
  refine ⟨_, if_pos (h.mem List.mem_cons_self), ?_⟩
  rw [Holds, Finset.erase_val, h, ← Multiset.cons_coe, Multiset.add_cons, Multiset.erase_cons_head]

end Ledger

end Tle.Lib
