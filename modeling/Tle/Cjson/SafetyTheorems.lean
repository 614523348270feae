import Tle.Cjson.Lemmas.Containers

/-!
# What a call of the parser leaves, on any input and with any allocations refused
-/

namespace Tle.Cjson
open Tle.Lib Tle.Lib.Comp

variable {input : Input} {s : ParseBuffer} {base : Multiset Nat}

/-- The state at a call. -/
def ParseBuffer.start (heap : Ledger) : ParseBuffer where
  offset := 0
  depth := 0
  heap := heap

theorem runs_skipUtf8Bom {Q : Unit → ParseBuffer → Prop} (hle : s.offset ≤ input.content.length)
    (hQ : ∀ o, o ≤ input.content.length → Q () { s with offset := o }) : Runs (skipUtf8Bom input) s Q := by
  unfold skipUtf8Bom
  rw [Runs.bind_iff, runs_canAccess, Runs.ite_iff]
  constructor
  · intro haccess
    simp only [decide_eq_true_eq] at haccess
    rw [Runs.bind_iff, runs_isAtWord, Runs.ite_iff]
    constructor
    · intro _
      rw [runs_advance]
      exact hQ _ (by omega)
    · intro _
      rw [Runs.pure_iff]
      exact hQ s.offset hle
  · intro _
    rw [Runs.pure_iff]
    exact hQ s.offset hle

/-- What a call returns, and the heap that it leaves. -/
structure Parsed.Fits (input : Input) (base : Multiset Nat) (r : Parsed) (s : ParseBuffer) : Prop where
  holds : s.heap.Holds base ((r.item.map Item.blocks).getD [])
  error : r.item = none ↔ r.error.isSome
  position : ∀ e, r.error = some e → input.content ≠ [] → e < input.content.length
  wellFormed : ∀ item, r.item = some item → item.WellFormed nestingLimit
  size : ∀ item, r.item = some item → item.size ≤ input.content.length

theorem runs_failed (hheap : s.heap.Holds base []) : Runs (failed input) s (Parsed.Fits input base) := by
  simp only [failed, Runs.bind_iff, Runs.get_iff, Runs.pure_iff]
  refine ⟨hheap, by simp, fun e he hne => ?_, (fun _ h => by cases h), fun _ h => by cases h⟩
  have hpos := List.length_pos_iff.mpr hne
  simp only [Option.some.injEq] at he
  rw [← he]
  split <;> omega

theorem runs_cJSONParseWithLength (heap : Ledger) :
    Runs (cJSONParseWithLength input) (.start heap) (Parsed.Fits input heap.live.val) := by
  have hheap : (ParseBuffer.start heap).heap.Holds heap.live.val [] := Ledger.holds_nil
  unfold cJSONParseWithLength
  rw [Runs.ite_iff]
  refine ⟨fun _ => runs_failed hheap, fun _ => ?_⟩
  rw [Runs.bind_iff]
  refine runs_newItem hheap (fun heap hnone => runs_failed hnone) fun heap' b hsome => ?_
  simp only [Runs.bind_iff]
  refine runs_skipUtf8Bom (Nat.zero_le _) fun o ho => runs_skipWhitespace ho ?_
  have hle : afterSpaces input.content o ≤ input.content.length := afterSpaces_le ho
  rw [Multiset.coe_nil, Multiset.add_zero] at hsome
  refine Runs.mono (runs_parseValue (nestingLimit + 1) (Nat.lt_add_left _ (Nat.lt_succ_self _)) (Nat.zero_le _) hle
    (zeroed_fresh b) hsome) fun r s' hr => ?_
  cases r with
  | none =>
      have hdelete : Runs (cJSONDelete (nestingLimit + 1) [Item.zeroed b]) s'
          (fun _ => Frees s' heap.live.val []) := by
        refine runs_cJSONDelete (fun item hitem => ?_) (by simpa using hr.holds)
        rw [List.mem_singleton.mp hitem]
        exact Item.nested_of_child_nil rfl
      simp only [Runs.bind_iff]
      exact hdelete.mono fun _ s'' hs'' => runs_failed hs''.holds
  | some item =>
      have hsize := hr.size item rfl
      rw [Runs.pure_iff]
      refine ⟨hr.holds, by simp, (fun _ h => by cases h), fun item' hitem' => ?_, fun item' hitem' => ?_⟩
      · cases hitem'
        exact hr.wellFormed item rfl
      · cases hitem'
        have hend := hr.le
        simp only [Item.zeroed, Str.size, Option.map_none, Option.getD_none] at hsize
        omega

/-- Every byte that is read lies in the buffer and every byte that is written in its block, no block is freed twice,
the loops end, and no more than 1001 calls of `parse_value` are nested. -/
theorem parse_defined (input : Input) (heap : Ledger) :
    ∃ r s, cJSONParseWithLength input (.start heap) = some (r, s) ∧ (r.item = none ↔ r.error.isSome) ∧
      ∀ e, r.error = some e → input.content ≠ [] → e < input.content.length := by
  obtain ⟨r, s, heq, hr⟩ : Runs (cJSONParseWithLength input) (.start heap) (Parsed.Fits input heap.live.val) :=
    runs_cJSONParseWithLength heap
  exact ⟨r, s, heq, hr.error, hr.position⟩

/-- A call that fails leaves the heap as it was, one that succeeds adds the blocks of its item, and `cJSON_Delete`
gives all of them back. -/
theorem parse_delete_restores (input : Input) (heap : Ledger) :
    Runs (cJSONParseWithLength input) (.start heap) fun r s =>
      s.heap.live.val = heap.live.val + (((r.item.map Item.blocks).getD [] : List Nat) : Multiset Nat) ∧
        Runs (cJSONDelete (nestingLimit + 1) r.item.toList) s fun _ s' => s'.heap.live = heap.live := by
  refine (runs_cJSONParseWithLength heap).mono fun r s hr => ⟨hr.holds, ?_⟩
  have hdelete : Runs (cJSONDelete (nestingLimit + 1) r.item.toList) s (fun _ => Frees s heap.live.val []) := by
    refine runs_cJSONDelete (fun item hitem => (hr.wellFormed item (Option.mem_toList.mp hitem)).nested) ?_
    have hholds := hr.holds
    cases hitem : r.item with
    | none =>
        rw [hitem] at hholds
        simpa using hholds
    | some item =>
        rw [hitem] at hholds
        simpa using hholds
  exact hdelete.mono fun _ s' hs' => Finset.val_injective (Ledger.holds_nil_iff.mp hs'.holds)

/-- What is accepted is well formed and not larger than its text. -/
theorem parse_wellFormed (input : Input) (heap : Ledger) :
    Runs (cJSONParseWithLength input) (.start heap) fun r _ =>
      ∀ item, r.item = some item → item.WellFormed nestingLimit ∧ item.size ≤ input.content.length :=
  (runs_cJSONParseWithLength heap).mono fun _ _ hr item hitem => ⟨hr.wellFormed item hitem, hr.size item hitem⟩

end Tle.Cjson
