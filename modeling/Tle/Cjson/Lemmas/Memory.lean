import Tle.Cjson.Lemmas.Buffer
import Tle.Cjson.Tree

/-!
# What is freed
-/

namespace Tle.Cjson
open Tle.Lib Tle.Lib.Comp

variable {input : Input} {s : ParseBuffer} {base : Multiset Nat} {b : Nat} {bs : List Nat} {items : List Item} {n : Nat}

/-- The heap goes from the blocks `bs` to the blocks `bs'`, and nothing else changes. -/
structure Frees (s : ParseBuffer) (base : Multiset Nat) (bs' : List Nat) (s' : ParseBuffer) : Prop where
  offset : s'.offset = s.offset
  depth : s'.depth = s.depth
  holds : s'.heap.Holds base bs'

theorem runs_deallocate (h : s.heap.Holds base (b :: bs)) :
    Runs (deallocate b) s (fun _ => Frees s base bs) := by
  obtain ⟨heap, hfree, hholds⟩ := h.free
  exact ⟨(), { s with heap }, by simp [deallocate, hfree], rfl, rfl, hholds⟩

theorem runs_deallocateString {str : Option Str} (h : s.heap.Holds base (Str.blocks str ++ bs)) :
    Runs (deallocateString str) s (fun _ => Frees s base bs) := by
  cases str with
  | none => exact Runs.pure_iff.mpr ⟨rfl, rfl, h⟩
  | some str => exact runs_deallocate h

theorem Frees.trans {s' s'' : ParseBuffer} (h : Frees s base bs s') {bs' : List Nat}
    (h' : Frees s' base bs' s'') : Frees s base bs' s'' :=
  ⟨h'.offset.trans h.offset, h'.depth.trans h.depth, h'.holds⟩

theorem runs_deleteItem {delete : List Item → Parse Unit} {item : Item}
    (hchild : item.child ≠ [] → ∀ s base bs, s.heap.Holds base (blocksAll item.child ++ bs) →
      Runs (delete item.child) s (fun _ => Frees s base bs))
    (h : s.heap.Holds base (item.blocks ++ bs)) : Runs (deleteItem delete item) s (fun _ => Frees s base bs) := by
  have hstrings : s.heap.Holds base (blocksAll item.child ++
      (Str.blocks item.valuestring ++ (Str.blocks item.string ++ item.block :: bs))) := by
    refine h.perm ?_
    rw [item.blocks_eq]
    simp only [List.append_assoc, List.cons_append]
    refine List.Perm.trans ?_ (List.perm_append_comm_assoc _ _ _)
    refine List.Perm.append_left _ ?_
    refine List.Perm.trans ?_ (List.perm_append_comm_assoc _ _ _)
    exact List.Perm.append_left _ List.perm_middle.symm
  unfold deleteItem
  rw [Runs.bind_iff]
  have hchildren : Runs (ifItems item.child (delete item.child)) s
      (fun _ => Frees s base (Str.blocks item.valuestring ++ (Str.blocks item.string ++ item.block :: bs))) := by
    unfold ifItems
    cases hc : item.child with
    | nil =>
        rw [hc, blocksAll_nil] at hstrings
        simpa using (⟨rfl, rfl, hstrings⟩ : Frees s base _ s)
    | cons c cs =>
        rw [hc] at hchild hstrings
        simpa using hchild (by simp) s base _ hstrings
  refine hchildren.mono fun _ s₁ h₁ => ?_
  rw [Runs.bind_iff]
  refine (runs_deallocateString h₁.holds).mono fun _ s₂ h₂ => ?_
  rw [Runs.bind_iff]
  refine (runs_deallocateString h₂.holds).mono fun _ s₃ h₃ => ?_
  exact (runs_deallocate h₃.holds).mono fun _ s₄ h₄ => ((h₁.trans h₂).trans h₃).trans h₄

/-- The loop of `cJSON_Delete`, if the calls for the children free what they own. -/
theorem runs_deleteItems {delete : List Item → Parse Unit}
    (hchildren : ∀ item ∈ items, item.child ≠ [] → ∀ s base bs, s.heap.Holds base (blocksAll item.child ++ bs) →
      Runs (delete item.child) s (fun _ => Frees s base bs))
    (h : s.heap.Holds base (blocksAll items ++ bs)) :
    Runs (items.forM (deleteItem delete)) s (fun _ => Frees s base bs) := by
  refine (Runs.forM (I := fun rest s' => rest ⊆ items ∧ Frees s base (blocksAll rest ++ bs) s') ?_
    ⟨fun _ hi => hi, rfl, rfl, h⟩).mono fun _ s' hs' => hs'.2
  intro item rest s₁ h₁
  obtain ⟨hsub, h₁⟩ := h₁
  have hholds := h₁.holds
  rw [blocksAll_cons, List.append_assoc] at hholds
  refine (runs_deleteItem (hchildren item (hsub List.mem_cons_self)) hholds).mono fun _ s₂ h₂ => ?_
  exact ⟨fun i hi => hsub (List.mem_cons_of_mem _ hi), h₁.trans h₂⟩

/-- `cJSON_Delete` frees the blocks of its items, each of them once. -/
theorem runs_cJSONDelete (hnested : ∀ item ∈ items, item.Nested n)
    (h : s.heap.Holds base (blocksAll items ++ bs)) :
    Runs (cJSONDelete (n + 1) items) s (fun _ => Frees s base bs) := by
  induction n generalizing items s base bs with
  | zero => exact runs_deleteItems (fun item hitem hne => absurd (hnested item hitem) hne) h
  | succ n ih => exact runs_deleteItems (fun item hitem _ s base bs hs => ih (hnested item hitem) hs) h

end Tle.Cjson
