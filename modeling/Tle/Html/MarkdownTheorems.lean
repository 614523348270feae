import Tle.Html.Lemmas.Tags

/-!
# The output of `html_markdown`
-/

namespace Tle.Html
open Tle.Lib

/-! ## Inert -/

/-- The output can be split into tags of the program, newlines and escaped characters of the text. -/
theorem markdown_inert (text : Option Text) :
    ∃ parts : List (Part (text.getD [])), (htmlMarkdown text).bytes = parts.flatMap Part.bytes := by
  have hlines : ∀ line ∈ textLines (text.getD []), ∀ c ∈ line, c ∈ text.getD [] :=
    fun line hline c hc => mem_of_mem_textLines hline hc
  exact Out.Inert.append (inert_appendLines hlines) inert_closeAll

/-! ## Well nested -/

/-- Whether a code block and a math block are open after a line, from whether they were before it. -/
def blocksAfter (blocks : Bool × Bool) (line : Text) : Bool × Bool :=
  let (code, math) := blocks
  if math then (code, !closesMath line)
  else if opensMath line then (code, true)
  else if isFence line then (!code, false)
  else (code, false)

/-- The text ends in a math block that has been opened in a code block. -/
def EndsInMathInCode (text : Text) : Prop :=
  (textLines text).foldl blocksAfter (false, false) = (true, true)

instance (text : Text) : Decidable (EndsInMathInCode text) := inferInstanceAs (Decidable (_ = _))

def Flags.blocks (f : Flags) : Bool × Bool := (f.inCode, f.inMathBlock)

theorem appendText_blocks (f : Flags) (line : Text) : (appendText f line).1.blocks = f.blocks := by
  simp only [appendText]
  split_ifs <;> rfl

theorem appendBlock_blocks (f : Flags) (line : Text) (next : Option Text) :
    (appendBlock f line next).1.blocks = blocksAfter f.blocks line := by
  unfold appendBlock blocksAfter
  cases hmath : f.inMathBlock with
  | true => simp [Flags.blocks, hmath]
  | false =>
      have htext := appendText_blocks f line
      simp only [Flags.blocks, hmath, Bool.false_eq_true, ↓reduceIte] at htext ⊢
      split_ifs <;> simp_all

theorem appendLine_blocks (f : Flags) (line : Text) (next : Option Text) :
    (appendLine f line next).1.blocks = blocksAfter f.blocks line := by
  have htable : (closeTable f line).1.blocks = f.blocks := by
    unfold closeTable
    split <;> rfl
  rw [← htable]
  exact appendBlock_blocks _ line next

theorem appendLines_blocks (f : Flags) (lines : List Text) :
    (appendLines f lines).1.blocks = lines.foldl blocksAfter f.blocks := by
  induction lines generalizing f with
  | nil => rfl
  | cons line rest ih =>
      rw [List.foldl_cons, ← appendLine_blocks f line rest.head?]
      exact ih _

theorem flags_blocks_iff (c : Context) : c.flags.blocks = (true, true) ↔ c = .math true := by
  cases c with
  | flow flow => cases flow <;> exact iff_of_false (by decide) (by rintro ⟨⟩)
  | table => exact iff_of_false (by decide) (by rintro ⟨⟩)
  | code => exact iff_of_false (by decide) (by rintro ⟨⟩)
  | math inCode => cases inCode <;> simp [Context.flags, Flags.init, Flags.blocks]

/-- The tags are balanced unless the text leaves a math block open in a code block: the code block is
then closed first. -/
theorem markdown_wellNested_iff (text : Option Text) :
    WellNested (marks (htmlMarkdown text).bytes) ↔ ¬ EndsInMathInCode (text.getD []) := by
  obtain ⟨c, hflags, htakes⟩ := leads_lines (.flow .none) (textLines (text.getD []))
  have hblocks := appendLines_blocks Flags.init (textLines (text.getD []))
  have hend : EndsInMathInCode (text.getD []) ↔ c = .math true := by
    rw [← flags_blocks_iff, ← hflags]
    exact Eq.congr_left hblocks.symm
  have hout : (htmlMarkdown text).bytes =
      Out.bytes (appendLines Flags.init (textLines (text.getD []))).2 ++ Out.bytes (closeAll c.flags) := by
    rw [← hflags, ← Out.bytes_append]
    rfl
  rw [hend, ← ne_eq, ← closeAll_nests_iff c, WellNested, hout]
  exact Eq.congr_left (htakes.nest_append _)

theorem markdown_not_wellNested :
    ¬ ∀ text : Option Text, WellNested (marks (htmlMarkdown text).bytes) := by
  intro h
  exact absurd (h (some "```\n$$".toList)) (by decide +kernel)

end Tle.Html
