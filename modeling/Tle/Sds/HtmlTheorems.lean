import Tle.Html.EscapeTheorems
import Tle.Sds.AppendTheorems
import Tle.Sds.Html

/-!
# The functions of `html.c` on strings are those on texts
-/

namespace Tle.Sds
open Tle.Lib Tle.Lib.Comp

variable {m : Allocator} {s next : Sdshdr} {heap : Ledger} {base : Multiset Nat} {others : List Nat} {line : Text}

/-! ## Escaping -/

/-- The calls that escape a text. -/
def escapeCalls (text : Text) : List Append := (cstr text).map fun c => .cat (Html.escapeChar c)

theorem htmlEscapeText_eq (out : Option Sdshdr) (text : Text) :
    htmlEscapeText m out (some text) = (escapeCalls text).foldlM (Append.run m) out := by
  rw [escapeCalls, List.foldlM_map]
  rfl

theorem escapeCalls_text (text : Text) :
    ((escapeCalls text).map Append.text).flatten = Html.htmlEscapeText text := by
  rw [escapeCalls, List.map_map, Html.htmlEscapeText, List.flatMap_def]
  rfl

theorem escapeCalls_buffers (text : Text) : ((escapeCalls text).map Append.buffers).sum = 0 := by
  unfold escapeCalls
  induction cstr text with
  | nil => rfl
  | cons c text ih =>
      rw [List.map_cons, List.map_cons, List.sum_cons, ih]
      rfl

/-- Escaping, one byte a call, takes the string to the escaped text at its end, with a number of allocations that
grows with the mebibytes of the result and not with the bytes of the text. -/
theorem htmlEscapeText_refines (m : Allocator) (heap : Ledger) (base : Multiset Nat) (others : List Nat) (out : Sdshdr)
    (text : Text) (hwf : out.WellFormed) (hholds : heap.Holds base (out.block :: others))
    (hfar : (Html.appendEscaped out.text (some text)).length < 2 ^ 62)
    (hserved : ∀ i, i ≤ heap.count + 22 + (Html.appendEscaped out.text (some text)).length / 2 ^ 20 →
      m.allocates i = true) :
    Runs (htmlEscapeText m (some out) (some text)) heap (fun out' heap' => ∃ s, out' = some s ∧ s.WellFormed ∧
      s.text = Html.appendEscaped out.text (some text) ∧ heap'.Holds base (s.block :: others) ∧
      heap'.count ≤ heap.count + 22 + (Html.appendEscaped out.text (some text)).length / 2 ^ 20) := by
  have hlength : (Html.appendEscaped out.text (some text)).length =
      out.len + ((escapeCalls text).map Append.text).flatten.length := by
    rw [Html.appendEscaped_eq, List.length_append, hwf.length_text, escapeCalls_text]
  generalize htotal : (Html.appendEscaped out.text (some text)).length = total at hfar hserved hlength ⊢
  have hbuffers := escapeCalls_buffers text
  have hbudget : Budget total (heap.count + 22 + total / 2 ^ 20) (escapeCalls text) heap out :=
    ⟨by omega, by omega⟩
  rw [htmlEscapeText_eq]
  apply (runs_appends hwf hholds hfar hserved hbudget).mono
  intro out' heap' hout
  rw [escapeCalls_text, ← Html.appendEscaped_eq] at hout
  exact hout

theorem htmlEscapeText_refines_tag : Runs
    (htmlEscapeText plenty (some emptyString) (some ['<', 'b', '>'])) (Ledger.empty.allocate true).2
    (fun out' heap' => ∃ s, out' = some s ∧ s.WellFormed ∧
      s.text = Html.appendEscaped emptyString.text (some ['<', 'b', '>']) ∧
      heap'.Holds Ledger.empty.live.val [s.block] ∧
      heap'.count ≤ (Ledger.empty.allocate true).2.count + 22 +
        (Html.appendEscaped emptyString.text (some ['<', 'b', '>'])).length / 2 ^ 20) :=
  htmlEscapeText_refines plenty _ _ [] emptyString _ ⟨by decide, by decide, by decide, rfl⟩
    Ledger.holds_nil.allocate (by decide) fun _ _ => rfl

/-! ## The line that follows -/

theorem text_eq_dropLast (hwf : next.WellFormed) (hlen : next.len ≠ 0) :
    ∃ c, next.buf[next.len - 1]? = some c ∧ next.text = next.text.dropLast ++ [c] := by
  have hne : next.text ≠ [] := by
    intro hnil
    rw [← hwf.length_text, hnil] at hlen
    exact hlen rfl
  have hlast := List.getLast?_eq_some_getLast hne
  rw [List.getLast?_eq_getElem?, hwf.length_text] at hlast
  refine ⟨next.text.getLast hne, ?_, (List.dropLast_append_getLast hne).symm⟩
  rw [← hlast, Sdshdr.text, List.getElem?_take, if_pos (by omega)]

/-- The bytes before `next[0]` are not read. -/
theorem trimReturn_holds (hwf : next.WellFormed) (htext : next.text.rdropWhile (· = '\r') = line)
    (hholds : heap.Holds base [next.block]) :
    Runs (trimReturn next) heap (Round.Holds
      (fun next heap' => next.WellFormed ∧ next.text.rdropWhile (· = '\r') = line ∧ heap'.Holds base [next.block])
      (fun next _ => next.len) next.len
      (fun next heap' => next.WellFormed ∧ next.text = line ∧ heap'.Holds base [next.block])) := by
  unfold trimReturn sdslen
  by_cases hlen : next.len = 0
  · rw [if_pos hlen, Runs.pure_iff]
    have hnil : next.text = [] := by
      rw [← List.length_eq_zero_iff, hwf.length_text, hlen]
    rw [hnil, List.rdropWhile_nil] at htext
    exact ⟨hwf, hnil.trans htext, hholds⟩
  · obtain ⟨c, hc, hsplit⟩ := text_eq_dropLast hwf hlen
    rw [if_neg hlen, hc]
    dsimp only
    by_cases hreturn : c = '\r'
    · rw [if_pos hreturn, Runs.bind_iff]
      apply runs_sdsIncrLen hwf hlen
      intro next' hwf' htext' hblock
      rw [Runs.pure_iff]
      rw [hsplit, List.rdropWhile_concat_pos _ _ _ (by simpa using hreturn), ← htext'] at htext
      refine ⟨⟨hwf', htext, hblock ▸ hholds⟩, ?_⟩
      dsimp only
      rw [← hwf'.length_text, htext', List.length_dropLast, hwf.length_text]
      omega
    · rw [if_neg hreturn, Runs.pure_iff]
      rw [hsplit, List.rdropWhile_concat_neg _ _ _ (by simpa using hreturn), ← hsplit] at htext
      exact ⟨hwf, htext, hholds⟩

/-- A C string that is looked at sees all of a string whose text has no zeros. -/
theorem cstr_buf (hwf : next.WellFormed) (hzero : '\x00' ∉ next.text) : cstr next.buf = next.text := by
  have hlt := Nat.lt_of_le_of_lt hwf.len_le hwf.room
  have hnul := hwf.nul
  rw [List.getElem?_eq_getElem hlt, Option.some.injEq] at hnul
  have hbuf : next.buf = next.text ++ '\x00' :: next.buf.drop (next.len + 1) := by
    rw [Sdshdr.text, ← hnul, List.getElem_cons_drop, List.take_append_drop]
  rw [hbuf, cstr, List.takeWhile_append_of_pos]
  · simp
  · intro c hc
    simp only [decide_eq_true_eq]
    intro hnull
    exact hzero (hnull ▸ hc)

theorem zero_not_mem_nextLine {rest : Option Text} (hline : nextLine rest = some line) : '\x00' ∉ line := by
  unfold nextLine at hline
  split at hline
  · rename_i c start hrest
    cases hline
    intro hmem
    obtain ⟨text, -, htext⟩ := Option.map_eq_some_iff.mp hrest
    have hall : '\x00' ∈ cstr text := htext ▸ List.mem_cons_of_mem _ (List.takeWhile_subset _ hmem)
    have hnot := List.mem_takeWhile_imp hall
    simp at hnot
  · cases hline

/-- Looking at the line that follows says what it says on texts, and leaves no string behind. -/
theorem nextLineIsTableSeparator_refines (m : Allocator) (heap : Ledger) (rest : Option Text)
    (hfar : ∀ line, nextLine rest = some line → line.length < 2 ^ 62) (hserved : m.allocates heap.count = true) :
    Runs (nextLineIsTableSeparator m rest) heap (fun result heap' =>
      result = Html.nextLineIsTableSeparator (nextLine rest) ∧ heap'.live = heap.live) := by
  unfold nextLineIsTableSeparator Html.nextLineIsTableSeparator
  cases hline : nextLine rest with
  | none => exact Runs.pure_iff.mpr ⟨rfl, rfl⟩
  | some line =>
      dsimp only
      rw [Runs.bind_iff]
      apply (runs_sdsnewlen Ledger.holds_nil (hfar line hline) (Nat.le_refl _)).mono
      intro out heap₁ hout
      cases out with
      | none => exact absurd hserved (by simp [hout.1])
      | some next =>
          obtain ⟨hwf, htext, hholds, -⟩ := hout
          rw [List.take_length] at htext
          have hlen : next.len = line.length := by
            rw [← hwf.length_text, htext]
          dsimp only
          rw [Runs.bind_iff]
          apply Runs.mono (Runs.loop (fun next heap' h => trimReturn_holds h.1 h.2.1 h.2.2)
            ⟨hwf, rfl, hholds⟩ (by omega))
          intro next' heap₂ hnext
          obtain ⟨hwf', htext', hholds'⟩ := hnext
          rw [htext] at htext'
          have hzero : '\x00' ∉ next'.text := by
            rw [htext']
            intro hmem
            exact zero_not_mem_nextLine hline ((List.rdropWhile_prefix _ _).subset hmem)
          rw [Runs.bind_iff]
          apply runs_deallocate hholds'
          intro heap₃ _ hholds₃
          rw [Runs.pure_iff, cstr_buf hwf' hzero, htext']
          exact ⟨rfl, Finset.val_injective (Ledger.holds_nil_iff.mp hholds₃)⟩

theorem nextLineIsTableSeparator_refines_returns : Runs
    (nextLineIsTableSeparator plenty (some ['\n', '|', '-', '|', '\r', '\r', '\n'])) .empty (fun result heap' =>
      result = Html.nextLineIsTableSeparator (nextLine (some ['\n', '|', '-', '|', '\r', '\r', '\n'])) ∧
        heap'.live = Ledger.empty.live) :=
  nextLineIsTableSeparator_refines plenty _ _ (by
    intro line hline
    cases hline
    decide) rfl

end Tle.Sds
