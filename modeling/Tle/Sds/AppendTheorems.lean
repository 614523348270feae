import Tle.Sds.Lemmas.Format

/-!
# Strings that are built piece by piece
-/

namespace Tle.Sds
open Tle.Lib Tle.Lib.Comp

variable {m : Allocator} {s : Sdshdr} {a : Append} {calls : List Append} {heap : Ledger} {base : Multiset Nat}
  {others : List Nat} {total limit : Nat}

/-- The blocks that serve as a buffer of a call. -/
def Append.buffers : Append → Nat
  | cat _ => 0
  | catprintf fmtLength text => Sds.buffers fmtLength (some text)

/-! ## One call -/

/-- What the string and the heap are after a call that nothing has been refused to. -/
structure Grown (base : Multiset Nat) (others : List Nat) (heap : Ledger) (s : Sdshdr) (a : Append) (heap' : Ledger)
    (s' : Sdshdr) : Prop where
  wellFormed : s'.WellFormed
  text : s'.text = s.text ++ a.text
  holds : heap'.Holds base (s'.block :: others)
  paid : Paid (heap.count + a.buffers) s (s.len + a.text.length) heap' s'

theorem runs_append (hwf : s.WellFormed) (hholds : heap.Holds base (s.block :: others))
    (hfar : s.len + a.text.length < 2 ^ 62)
    (hserved : ∀ i, i ≤ heap.count + a.buffers → m.allocates i = true) :
    Runs (Append.run m (some s) a) heap
      (fun out heap' => ∃ s', out = some s' ∧ Grown base others heap s a heap' s') := by
  cases a with
  | cat t =>
      apply (runs_sdscatlen hwf hholds hfar).mono
      intro out heap' hout
      cases out with
      | none => exact absurd (hserved _ (Nat.le_add_right _ _)) (by simp [hout.1])
      | some s' =>
          obtain ⟨hwf', htext, hholds', hpaid⟩ := hout
          exact ⟨s', rfl, hwf', htext, hholds', hpaid⟩
  | catprintf fmtLength text =>
      have hfar' : ∀ bytes, some text = some bytes → s.len + bytes.length < 2 ^ 62 := by
        intro bytes hbytes
        cases hbytes
        exact hfar
      apply (runs_sdscatvprintf hwf hholds hfar').mono
      intro out heap' hout
      cases out with
      | none =>
          obtain ⟨hnone | ⟨i, -, hlt, hi⟩, -⟩ := hout
          · cases hnone
          · exact absurd (hserved i (Nat.le_of_lt_succ hlt)) (by simp [hi])
      | some s' =>
          obtain ⟨bytes, hbytes, hwf', htext, hholds', hpaid⟩ := hout
          cases hbytes
          exact ⟨s', rfl, hwf', htext, hholds', hpaid⟩

/-! ## One call after another -/

/-- The allocations that the calls may still make. -/
structure Budget (total limit : Nat) (calls : List Append) (heap : Ledger) (s : Sdshdr) : Prop where
  text : s.len + (calls.map Append.text).flatten.length ≤ total
  count : heap.count + (calls.map Append.buffers).sum + (22 + total / 2 ^ 20 - potential 20 s.capacity) ≤ limit

theorem Grown.budget {heap' : Ledger} {s' : Sdshdr} (hgrown : Grown base others heap s a heap' s')
    (hwf : s.WellFormed) (hbudget : Budget total limit (a :: calls) heap s) : Budget total limit calls heap' s' := by
  obtain ⟨htotal, hcount⟩ := hbudget
  obtain ⟨hpaid, hbound⟩ := hgrown.paid
  have hlen : s'.len = s.len + a.text.length := by
    rw [← hgrown.wellFormed.length_text, hgrown.text, List.length_append, hwf.length_text]
  rw [List.map_cons, List.flatten_cons, List.length_append] at htotal
  rw [List.map_cons, List.sum_cons] at hcount
  have hdiv : (s.len + a.text.length) / 2 ^ 20 ≤ total / 2 ^ 20 := Nat.div_le_div_right (by omega)
  exact ⟨by omega, by omega⟩

theorem runs_appends (hwf : s.WellFormed) (hholds : heap.Holds base (s.block :: others)) (hfar : total < 2 ^ 62)
    (hserved : ∀ i, i ≤ limit → m.allocates i = true) (hbudget : Budget total limit calls heap s) :
    Runs (calls.foldlM (Append.run m) (some s)) heap (fun out heap' => ∃ s', out = some s' ∧ s'.WellFormed ∧
      s'.text = s.text ++ (calls.map Append.text).flatten ∧ heap'.Holds base (s'.block :: others) ∧
      heap'.count ≤ limit) := by
  induction calls generalizing s heap with
  | nil =>
      have hcount := hbudget.count
      rw [List.map_nil, List.sum_nil] at hcount
      rw [List.foldlM_nil, Runs.pure_iff]
      exact ⟨s, rfl, hwf, (List.append_nil _).symm, hholds, by omega⟩
  | cons a calls ih =>
      have htotal := hbudget.text
      have hcount := hbudget.count
      rw [List.map_cons, List.flatten_cons, List.length_append] at htotal
      rw [List.map_cons, List.sum_cons] at hcount
      rw [List.foldlM_cons, Runs.bind_iff]
      apply (runs_append hwf hholds (by omega) (fun i hi => hserved i (by omega))).mono
      intro out heap' hout
      obtain ⟨s', rfl, hgrown⟩ := hout
      apply (ih hgrown.wellFormed hgrown.holds (hgrown.budget hwf hbudget)).mono
      intro out heap'' hout
      obtain ⟨s'', heq, hwf'', htext, hholds'', hcount''⟩ := hout
      refine ⟨s'', heq, hwf'', ?_, hholds'', hcount''⟩
      rw [htext, hgrown.text, List.map_cons, List.flatten_cons, List.append_assoc]

/-- The length of what is built. -/
def builtLength (init : Text) (calls : List Append) : Nat := init.length + (calls.map Append.text).flatten.length

/-- The allocations that suffice to build it, however many calls there are: the capacity doubles, and from a
mebibyte on it grows by a mebibyte. -/
def allocations (init : Text) (calls : List Append) : Nat :=
  23 + builtLength init calls / 2 ^ 20 + (calls.map Append.buffers).sum

/-- A string that is built by one call after another is, where memory does not run out, the text of the calls. No
byte is written outside of its block, it is terminated, no buffer and no former block is left, and to free it is to
have the heap as it was. -/
theorem build_appends (m : Allocator) (heap : Ledger) (init : Text) (calls : List Append)
    (hfar : builtLength init calls < 2 ^ 62)
    (hserved : ∀ i, i ≤ heap.count + allocations init calls → m.allocates i = true) :
    Runs (build m init calls) heap (fun out heap' => ∃ s, out = some s ∧ s.WellFormed ∧
      s.text = init ++ (calls.map Append.text).flatten ∧ heap'.Holds heap.live.val [s.block] ∧
      heap'.count ≤ heap.count + allocations init calls ∧
      Runs (sdsfree (some s)) heap' (fun _ heap'' => heap''.live = heap.live)) := by
  have hlength : builtLength init calls = init.length + (calls.map Append.text).flatten.length := rfl
  have hlimit : allocations init calls =
      23 + builtLength init calls / 2 ^ 20 + (calls.map Append.buffers).sum := rfl
  unfold build
  rw [Runs.bind_iff]
  apply (runs_sdsnewlen Ledger.holds_nil (by omega) (Nat.le_refl _)).mono
  intro out heap₁ hout
  cases out with
  | none => exact absurd (hserved _ (Nat.le_add_right _ _)) (by simp [hout.1])
  | some s =>
      obtain ⟨hwf, htext, hholds, hcount⟩ := hout
      rw [List.take_length] at htext
      have hlen : s.len = init.length := by
        rw [← hwf.length_text, htext]
      have hbudget : Budget (builtLength init calls) (heap.count + allocations init calls) calls heap₁ s :=
        ⟨by omega, by omega⟩
      apply (runs_appends hwf hholds hfar hserved hbudget).mono
      intro out heap₂ hout
      obtain ⟨s', heq, hwf', htext', hholds', hcount'⟩ := hout
      rw [htext] at htext'
      refine ⟨s', heq, hwf', htext', hholds', hcount', ?_⟩
      apply runs_deallocate hholds'
      intro heap₃ _ hholds₃
      exact Finset.val_injective (Ledger.holds_nil_iff.mp hholds₃)

/-- Memory that never runs out, with no zeros in it. -/
def plenty : Allocator where
  allocates _ := true
  contents _ _ := '?'

/-- The page of a row, with a buffer for the second of its calls. -/
theorem build_appends_row : Runs
    (build plenty "<tr>".toList [.cat "<td>".toList, .catprintf 600 "1".toList, .cat "</td>".toList]) .empty
    (fun out heap' => ∃ s, out = some s ∧ s.WellFormed ∧
      s.text = "<tr>".toList ++
        (([.cat "<td>".toList, .catprintf 600 "1".toList, .cat "</td>".toList] : List Append).map
          Append.text).flatten ∧
      heap'.Holds Ledger.empty.live.val [s.block] ∧ heap'.count ≤ Ledger.empty.count +
        allocations "<tr>".toList [.cat "<td>".toList, .catprintf 600 "1".toList, .cat "</td>".toList] ∧
      Runs (sdsfree (some s)) heap' (fun _ heap'' => heap''.live = Ledger.empty.live)) :=
  build_appends plenty .empty _ _ (by decide) fun _ _ => rfl

/-! ## Formatted text -/

/-- Whatever the allocator refuses and however long the text is: the loop over the buffers ends, no buffer is left,
and the text has been appended in full, or the string is still there as it was. -/
theorem sdscatvprintf_keeps (m : Allocator) (heap : Ledger) (base : Multiset Nat) (others : List Nat) (s : Sdshdr)
    (fmtLength : Nat) (text : Option Text) (hwf : s.WellFormed) (hholds : heap.Holds base (s.block :: others))
    (hfar : ∀ bytes, text = some bytes → s.len + bytes.length < 2 ^ 62) :
    Runs (sdscatvprintf m s fmtLength text) heap (fun out heap' =>
      (∀ s', out = some s' → s'.WellFormed ∧ (∃ bytes, text = some bytes ∧ s'.text = s.text ++ bytes) ∧
        heap'.Holds base (s'.block :: others)) ∧
      (out = none → heap'.Holds base (s.block :: others) ∧
        (text = none ∨ ∃ i, heap.count ≤ i ∧ i < heap.count + 3 ∧ m.allocates i = false))) := by
  have hbuffers : buffers fmtLength text ≤ 2 := by
    unfold buffers
    have hleft := buffersLeft_le text (firstLength fmtLength)
    split <;> omega
  apply (runs_sdscatvprintf hwf hholds hfar).mono
  intro out heap' hout
  cases out with
  | none =>
      obtain ⟨hnone, hholds'⟩ := hout
      refine ⟨(fun _ h => by cases h), fun _ => ⟨hholds', hnone.imp_right ?_⟩⟩
      intro hrefused
      obtain ⟨i, hfrom, hlt, hi⟩ := hrefused
      exact ⟨i, hfrom, by omega, hi⟩
  | some s' =>
      obtain ⟨bytes, hbytes, hwf', htext, hholds', -⟩ := hout
      refine ⟨?_, (fun h => by cases h)⟩
      intro s'' heq
      cases heq
      exact ⟨hwf', ⟨bytes, hbytes, htext⟩, hholds'⟩

/-- The string that `sdsempty` leaves in the first block. -/
def emptyString : Sdshdr where
  block := 0
  type := .type8
  len := 0
  alloc := 0
  buf := ['\x00']

/-- The second buffer is refused to a text that is too long for the static one. -/
theorem sdscatvprintf_keeps_refused : Runs
    (sdscatvprintf ⟨fun i => i = 0, fun _ _ => '?'⟩ emptyString 2 (some (List.replicate 1024 'a')))
    (Ledger.empty.allocate true).2 (fun out heap' =>
      (∀ s', out = some s' → s'.WellFormed ∧
        (∃ bytes, some (List.replicate 1024 'a') = some bytes ∧ s'.text = emptyString.text ++ bytes) ∧
        heap'.Holds Ledger.empty.live.val [s'.block]) ∧
      (out = none → heap'.Holds Ledger.empty.live.val [emptyString.block] ∧
        (some (List.replicate 1024 'a') = none ∨ ∃ i, (Ledger.empty.allocate true).2.count ≤ i ∧
          i < (Ledger.empty.allocate true).2.count + 3 ∧ decide (i = 0) = false))) :=
  sdscatvprintf_keeps ⟨fun i => i = 0, fun _ _ => '?'⟩ _ _ [] emptyString 2 _
    ⟨by decide, by decide, by decide, rfl⟩ Ledger.holds_nil.allocate (by
      intro bytes hbytes
      cases hbytes
      rw [List.length_replicate]
      decide)

end Tle.Sds
