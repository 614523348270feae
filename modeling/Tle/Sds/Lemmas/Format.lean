import Tle.Sds.Lemmas.New

/-!
# Formatted text
-/

namespace Tle.Sds
open Tle.Lib Tle.Lib.Comp

variable {m : Allocator} {s s' : Sdshdr} {text : Option Text} {heap heap' : Ledger} {base : Multiset Nat}
  {others : List Nat} {fmtLength n : Nat} {buf : Option Nat} {buffer : Option Nat × Nat}

theorem runs_release {Q : Unit → Ledger → Prop} (hholds : heap.Holds base (buf.toList ++ others))
    (hQ : ∀ heap', heap'.count = heap.count → heap'.Holds base others → Q () heap') : Runs (release buf) heap Q := by
  cases buf with
  | none => exact Runs.pure_iff.mpr (hQ heap rfl hholds)
  | some block => exact runs_deallocate hholds hQ

/-- How many more buffers it takes. -/
def buffersLeft (text : Option Text) (buflen : Nat) : Nat :=
  match text with
  | none => 0
  | some text => if buflen ≤ text.length then 1 else 0

theorem buffersLeft_le (text : Option Text) (buflen : Nat) : buffersLeft text buflen ≤ 1 := by
  unfold buffersLeft
  split
  · exact Nat.zero_le _
  · split <;> omega

/-- The block of a buffer comes on top, and `n` allocations will have been made in the end. -/
def Buffered (base : Multiset Nat) (others : List Nat) (text : Option Text) (heap : Ledger) (n : Nat)
    (buffer : Option Nat × Nat) (heap' : Ledger) : Prop :=
  heap'.Holds base (buffer.1.toList ++ others) ∧ heap.count ≤ heap'.count ∧
    heap'.count + buffersLeft text buffer.2 = n

/-- Some allocation before the `n`-th has been refused. -/
def Refused (m : Allocator) (heap : Ledger) (n : Nat) : Prop := ∃ i, heap.count ≤ i ∧ i < n ∧ m.allocates i = false

/-- The whole text is in the buffer. -/
def Formatted (m : Allocator) (base : Multiset Nat) (others : List Nat) (text : Option Text) (heap : Ledger) (n : Nat) :
    Option (Option Nat × Text) → Ledger → Prop
  | some (buf, bytes), heap' => text = some bytes ∧ heap'.Holds base (buf.toList ++ others) ∧ heap'.count = n
  | none, heap' => (text = none ∨ Refused m heap n) ∧ heap'.Holds base others

/-- A buffer that was too small is followed by one that is large enough. -/
theorem formatRound_holds (hbuffer : Buffered base others text heap n buffer heap') :
    Runs (formatRound m text buffer) heap' (Round.Holds (Buffered base others text heap n)
      (fun buffer _ => buffersLeft text buffer.2) (buffersLeft text buffer.2)
      (Formatted m base others text heap n)) := by
  obtain ⟨buf, buflen⟩ := buffer
  obtain ⟨hholds, hfrom, hcount⟩ := hbuffer
  unfold formatRound
  cases text with
  | none =>
      simp only [Runs.bind_iff]
      apply runs_release hholds
      intro heap₁ _ hholds₁
      rw [Runs.pure_iff]
      exact ⟨Or.inl rfl, hholds₁⟩
  | some text =>
      dsimp only [buffersLeft] at hcount ⊢
      by_cases hsmall : buflen ≤ text.length
      · rw [if_pos hsmall] at hcount ⊢
        simp only [if_pos hsmall, Runs.bind_iff]
        apply runs_release hholds
        intro heap₁ hcount₁ hholds₁
        apply runs_allocate hholds₁
        · intro heap₂ hcount₂ hholds₂
          have hlarge : ¬ text.length + 1 ≤ text.length := Nat.not_succ_le_self _
          rw [Runs.pure_iff]
          refine ⟨⟨hholds₂, by omega, ?_⟩, ?_⟩
          · rw [buffersLeft, if_neg hlarge]
            omega
          · dsimp only
            rw [if_neg hlarge]
            exact Nat.one_pos
        · intro heap₂ hrefused _ hholds₂
          rw [Runs.pure_iff]
          exact ⟨Or.inr ⟨heap₁.count, by omega, by omega, hrefused⟩, hholds₂⟩
      · rw [if_neg hsmall] at hcount
        rw [if_neg hsmall, Runs.pure_iff]
        exact ⟨rfl, hholds, hcount⟩

/-! ## The buffers -/

/-- The length of the first buffer. -/
def firstLength (fmtLength : Nat) : Nat := if 1024 < fmtLength * 2 then fmtLength * 2 else 1024

/-- How many blocks serve as a buffer. -/
def buffers (fmtLength : Nat) (text : Option Text) : Nat :=
  (if 1024 < fmtLength * 2 then 1 else 0) + buffersLeft text (firstLength fmtLength)

theorem runs_formatText (hholds : heap.Holds base others) :
    Runs (formatText m fmtLength text) heap
      (Formatted m base others text heap (heap.count + buffers fmtLength text)) := by
  have hloop : ∀ buffer heap', Buffered base others text heap (heap.count + buffers fmtLength text) buffer heap' →
      Runs (loop 2 (formatRound m text) buffer) heap'
        (Formatted m base others text heap (heap.count + buffers fmtLength text)) := by
    intro buffer heap' hbuffer
    have hleft := buffersLeft_le text buffer.2
    exact Runs.loop (fun _ _ => formatRound_holds) hbuffer (by omega)
  unfold formatText firstBuffer
  by_cases hlong : 1024 < fmtLength * 2
  · have hn : buffers fmtLength text = 1 + buffersLeft text (fmtLength * 2) := by
      rw [buffers, firstLength, if_pos hlong, if_pos hlong]
    simp only [if_pos hlong, Runs.bind_iff]
    apply runs_allocate hholds
    · intro heap₁ hcount hholds₁
      rw [Runs.pure_iff]
      exact hloop _ _ ⟨hholds₁, by omega, by dsimp only; omega⟩
    · intro heap₁ hrefused _ hholds₁
      simp only [Runs.pure_iff]
      exact ⟨Or.inr ⟨heap.count, Nat.le_refl _, by omega, hrefused⟩, hholds₁⟩
  · have hn : buffers fmtLength text = buffersLeft text 1024 := by
      rw [buffers, firstLength, if_neg hlong, if_neg hlong, Nat.zero_add]
    simp only [if_neg hlong, Runs.bind_iff, Runs.pure_iff]
    exact hloop _ _ ⟨hholds, Nat.le_refl _, by dsimp only; omega⟩

/-! ## The formatted text at the end of a string -/

/-- The formatted text has been appended, or the string is as it was. -/
def Printed (m : Allocator) (base : Multiset Nat) (others : List Nat) (heap : Ledger) (s : Sdshdr) (n : Nat)
    (text : Option Text) : Option Sdshdr → Ledger → Prop
  | some s', heap' => ∃ bytes, text = some bytes ∧ s'.WellFormed ∧ s'.text = s.text ++ bytes ∧
      heap'.Holds base (s'.block :: others) ∧ Paid n s (s.len + bytes.length) heap' s'
  | none, heap' => (text = none ∨ Refused m heap (n + 1)) ∧ heap'.Holds base (s.block :: others)

theorem runs_sdscatvprintf (hwf : s.WellFormed) (hholds : heap.Holds base (s.block :: others))
    (hfar : ∀ bytes, text = some bytes → s.len + bytes.length < 2 ^ 62) :
    Runs (sdscatvprintf m s fmtLength text) heap
      (Printed m base others heap s (heap.count + buffers fmtLength text) text) := by
  unfold sdscatvprintf
  rw [Runs.bind_iff]
  apply (runs_formatText hholds).mono
  intro r heap₁ hr
  cases r with
  | none =>
      obtain ⟨hnone, hholds₁⟩ := hr
      rw [Runs.pure_iff]
      refine ⟨hnone.imp_right ?_, hholds₁⟩
      intro hrefused
      obtain ⟨i, hfrom, hlt, hi⟩ := hrefused
      exact ⟨i, hfrom, Nat.lt_succ_of_lt hlt, hi⟩
  | some r =>
      obtain ⟨buf, bytes⟩ := r
      obtain ⟨htext, hholds₁, hcount₁⟩ := hr
      have hmiddle : ∀ block, (block :: (buf.toList ++ others)).Perm (buf.toList ++ block :: others) :=
        fun _ => List.perm_middle.symm
      simp only [Runs.bind_iff]
      apply (runs_sdscatlen hwf (hholds₁.perm (hmiddle _).symm) (hfar _ htext)).mono
      intro t heap₂ ht
      cases t with
      | none =>
          obtain ⟨hrefused, hholds₂⟩ := ht
          apply runs_release (hholds₂.perm (hmiddle _))
          intro heap₃ _ hholds₃
          rw [Runs.pure_iff]
          exact ⟨Or.inr ⟨heap₁.count, by omega, by omega, hrefused⟩, hholds₃⟩
      | some s' =>
          obtain ⟨hwf', htext', hholds₂, hpaid⟩ := ht
          apply runs_release (hholds₂.perm (hmiddle _))
          intro heap₃ hcount₃ hholds₃
          rw [Runs.pure_iff]
          rw [hcount₁] at hpaid
          exact ⟨bytes, htext, hwf', htext', hholds₃, by rw [hcount₃]; exact hpaid.count, hpaid.bound⟩

end Tle.Sds
