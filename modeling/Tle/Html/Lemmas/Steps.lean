import Tle.Html.Lemmas.Readback

/-!
# The iterations of `html_markdown`

What the loop appends is cut into the lines it is appended for.
-/

namespace Tle.Html
open Tle.Lib

variable {text line value content : Text} {lines : List Text} {f : Flags} {next : Option Text} {c : Char}

/-- One iteration: the flags before it, the line, and the line after it. -/
structure LineStep where
  flags : Flags
  line : Text
  next : Option Text

def LineStep.out (s : LineStep) : Out := (appendLine s.flags s.line s.next).2

def lineSteps (f : Flags) : List Text → List LineStep
  | [] => []
  | line :: rest => { flags := f, line, next := rest.head? } :: lineSteps (appendLine f line rest.head?).1 rest

theorem appendLines_out (f : Flags) (lines : List Text) :
    (appendLines f lines).2 = (lineSteps f lines).flatMap LineStep.out := by
  induction lines generalizing f with
  | nil => rfl
  | cons line rest ih =>
      rw [lineSteps, List.flatMap_cons, ← ih]
      rfl

/-- An iteration and those after it. -/
theorem lineSteps_cons {s : LineStep} {after : List LineStep} (h : lineSteps f lines = s :: after) :
    ∃ rest, lines = s.line :: rest ∧ s.flags = f ∧ s.next = rest.head? ∧
      lineSteps (appendLine s.flags s.line s.next).1 rest = after := by
  cases lines with
  | nil => cases h
  | cons line rest =>
      rw [lineSteps] at h
      obtain ⟨rfl, rfl⟩ := List.cons.inj h
      exact ⟨rest, rfl, rfl, rfl, rfl⟩

/-- The iterations from one of them on are those of the remaining lines. -/
theorem lineSteps_suffix {before after : List LineStep} (h : lineSteps f lines = before ++ after) :
    ∃ f' lines', after = lineSteps f' lines' := by
  induction before generalizing f lines with
  | nil => exact ⟨f, lines, h.symm⟩
  | cons s before ih =>
      obtain ⟨rest, -, -, -, hafter⟩ := lineSteps_cons h
      exact ih hafter

theorem mem_lineSteps {s : LineStep} (h : s ∈ lineSteps f lines) : s.line ∈ lines := by
  induction lines generalizing f with
  | nil => cases h
  | cons line rest ih =>
      rcases List.mem_cons.mp h with rfl | h
      · exact List.mem_cons_self
      · exact List.mem_cons_of_mem line (ih h)

/-! ## Characters of a line -/

theorem nul_not_mem_textLines (h : line ∈ textLines text) : '\x00' ∉ line := by
  intro hmem
  rcases mem_of_mem_linesFrom h hmem with hread | hrest
  · cases hread
  · exact nul_not_mem_cstr text hrest

theorem mem_dropWhile_of_not {p : Char → Bool} (h : c ∈ value) (hc : p c = false) : c ∈ value.dropWhile p := by
  rw [← List.takeWhile_append_dropWhile (p := p) (l := value), List.mem_append] at h
  rcases h with htaken | hleft
  · have hp := List.mem_takeWhile_imp htaken
    rw [hc] at hp
    cases hp
  · exact hleft

/-! ## Lines that are no fence -/

theorem isFence_iff : isFence line = true ↔ "```".toList <+: line := by
  match line with
  | [] => decide
  | [a] => simp [isFence, strncmpEq]
  | [a, b] => simp [isFence, strncmpEq]
  | a :: b :: d :: rest =>
      simp only [isFence, strncmpEq]
      grind

/-- What a fence leaves open. -/
def Flags.afterFence (f : Flags) : Flags :=
  { f with inParagraph := false, inList := false, inCode := !f.inCode }

/-- A line outside tables and math blocks that starts with three backquotes. -/
theorem appendLine_fence (hmath : f.inMathBlock = false) (htable : f.inTable = false)
    (hfence : isFence line = true) : appendLine f line next =
      (f.afterFence,
        closeParagraph f ++ closeList f ++ [.fixed (if f.inCode then "</code></pre>" else "<pre><code>")]) := by
  have hopens : opensMath line = false := by
    obtain ⟨rest, rfl⟩ := isFence_iff.mp hfence
    rfl
  simp [appendLine, closeTable, appendBlock, Flags.afterFence, htable, hmath, hopens, hfence]

end Tle.Html
