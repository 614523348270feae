import Tle.Html.Lemmas.Steps

/-!
# Line endings and paragraph text

The carriage return before a newline stays in the line, and only a fence is read alike with it. A paragraph
is printed from its first character that is no `#`.
-/

namespace Tle.Html
open Tle.Lib

variable {text line value : Text} {f : Flags} {next : Option Text} {c : Char}

/-! ## Line endings -/

/-- The text with every `\n` replaced by `\r\n`. -/
def crlf (text : Text) : Text := text.flatMap fun c => if c = '\n' then ['\r', '\n'] else [c]

/-- The lines that a newline ends, with what is read of the current one reversed. -/
def endedFrom (line : Text) : Text → List Text
  | [] => []
  | c :: s => if c = '\n' then line.reverse :: endedFrom [] s else endedFrom (c :: line) s

def endedLines (text : Text) : List Text := endedFrom [] (cstr text)

theorem cstr_crlf (text : Text) : cstr (crlf text) = crlf (cstr text) := by
  induction text with
  | nil => rfl
  | cons c text ih =>
      by_cases hnul : c = '\x00'
      · subst hnul
        rfl
      · by_cases hnewline : c = '\n'
        · subst hnewline
          simpa [cstr, crlf] using ih
        · simpa [cstr, crlf, hnul, hnewline] using ih

theorem linesFrom_crlf_newline (read s : Text) :
    linesFrom read (crlf ('\n' :: s)) = (read.reverse ++ ['\r']) :: linesFrom [] (crlf s) := by
  simp [crlf, linesFrom]

theorem linesFrom_crlf_cons {c : Char} (hc : c ≠ '\n') (read s : Text) :
    linesFrom read (crlf (c :: s)) = linesFrom (c :: read) (crlf s) := by
  simp [crlf, linesFrom, hc]

theorem linesFrom_newline (read s : Text) :
    linesFrom read ('\n' :: s) = read.reverse :: linesFrom [] s := by
  simp [linesFrom]

theorem endedFrom_newline (read s : Text) :
    endedFrom read ('\n' :: s) = read.reverse :: endedFrom [] s := by
  simp [endedFrom]

/-! ### Fences -/

theorem isFence_return (line : Text) : isFence (line ++ ['\r']) = isFence line := by
  have hne : "```".toList ≠ line ++ ['\r'] := by
    intro h
    have hlast := congrArg List.getLast? h
    simp at hlast
  rw [Bool.eq_iff_iff, isFence_iff, isFence_iff, List.prefix_concat_iff, or_iff_right hne]

/-- A text whose ended lines are fences is read alike with either line ending. -/
theorem appendLines_crlf {read s : Text} (hmath : f.inMathBlock = false) (htable : f.inTable = false)
    (hfences : ∀ line ∈ endedFrom read s, isFence line = true) :
    appendLines f (linesFrom read (crlf s)) = appendLines f (linesFrom read s) := by
  induction s generalizing read f with
  | nil => rfl
  | cons c s ih =>
      by_cases hc : c = '\n'
      · subst hc
        rw [endedFrom_newline, List.forall_mem_cons] at hfences
        have hreturn := (isFence_return read.reverse).trans hfences.1
        rw [linesFrom_crlf_newline, linesFrom_newline]
        simp only [appendLines, appendLine_fence hmath htable hreturn, appendLine_fence hmath htable hfences.1]
        rw [ih (f := f.afterFence) hmath htable hfences.2]
      · rw [linesFrom_crlf_cons hc, linesFrom, if_neg hc]
        rw [endedFrom, if_neg hc] at hfences
        exact ih hmath htable hfences

/-! ### Carriage returns in the output -/

theorem eq_of_return_mem_escapeChar (h : '\r' ∈ escapeChar c) : c = '\r' := by
  by_cases hc : c ∈ special
  · have hall : special.all (fun d => '\r' ∉ escapeChar d) = true := by decide
    exact absurd h (of_decide_eq_true (List.all_eq_true.mp hall c hc))
  · rw [escapeChar_of_not_special hc, List.mem_singleton] at h
    exact h.symm

theorem return_not_mem_tag : ∀ tag ∈ tagLiterals, '\r' ∉ tag := by decide

/-- The carriage returns of the output are the source's. -/
theorem Inert.return_mem {src s : Text} (h : Inert src s) (hmem : '\r' ∈ s) : '\r' ∈ src := by
  obtain ⟨parts, rfl⟩ := h
  obtain ⟨part, -, hpart⟩ := List.mem_flatMap.mp hmem
  cases part with
  | tag literal htag => exact absurd hpart (return_not_mem_tag literal htag)
  | newline => cases List.mem_singleton.mp hpart
  | source c hc =>
      have heq := eq_of_return_mem_escapeChar hpart
      rwa [heq] at hc

theorem return_mem_escaped (h : '\r' ∈ value) (hnul : '\x00' ∉ value) : '\r' ∈ htmlEscapeText value := by
  rw [htmlEscapeText, cstr_eq_self.mpr hnul, List.mem_flatMap]
  exact ⟨'\r', h, List.mem_singleton.mpr rfl⟩

/-- It is not in the marker of a list item. -/
theorem return_mem_item {content : Text}
    (hbullet : (content.head? = some '-' ∨ content.head? = some '*') ∧ content[1]? = some ' ')
    (h : '\r' ∈ content) : '\r' ∈ content.drop 2 := by
  cases content with
  | nil => cases h
  | cons a rest =>
      cases rest with
      | nil => simp at hbullet
      | cons b rest =>
          simp only [List.head?_cons, Option.some.injEq, List.getElem?_cons_succ,
            List.getElem?_cons_zero] at hbullet
          rcases hbullet with ⟨rfl | rfl, rfl⟩
          · simpa using h
          · simpa using h

theorem return_mem_appendText (h : '\r' ∈ line) (hnul : '\x00' ∉ line) :
    '\r' ∈ Out.bytes (appendText f line).2 := by
  have hcontent : '\r' ∈ line.dropWhile (· = '#') := mem_dropWhile_of_not h rfl
  have hsub : ∀ {value : Text}, value.Sublist (line.dropWhile (· = '#')) → '\x00' ∉ value :=
    fun hvalue hmem => hnul ((List.dropWhile_sublist _).subset (hvalue.subset hmem))
  simp only [appendText]
  split_ifs with hheading hbullet
  · have hspaces : '\r' ∈ (line.dropWhile (· = '#')).dropWhile (· = ' ') := mem_dropWhile_of_not hcontent rfl
    have hescaped := return_mem_escaped hspaces (hsub (List.dropWhile_sublist _))
    simp [markdownInline, Piece.bytes, hescaped]
  · have hdrop := return_mem_item hbullet hcontent
    have hescaped := return_mem_escaped hdrop (hsub (List.drop_sublist 2 _))
    simp [markdownInline, Piece.bytes, hescaped]
  · have hescaped := return_mem_escaped hcontent (hsub (List.Sublist.refl _))
    simp [appendParagraph, markdownInline, Piece.bytes, hescaped]

/-- A line that is no fence is printed with the carriage return that ends it. -/
theorem return_mem_appendLine (hmath : f.inMathBlock = false) (htable : f.inTable = false)
    (hfence : isFence line = false) (hnul : '\x00' ∉ line) :
    '\r' ∈ Out.bytes (appendLine f (line ++ ['\r']) next).2 := by
  have hopens : opensMath (line ++ ['\r']) = false := by
    have hne : ∀ word : Text, word.getLast? ≠ some '\r' → line ++ ['\r'] ≠ word := by
      intro word hword heq
      rw [← heq, List.getLast?_concat] at hword
      exact hword rfl
    simp [opensMath, hne]
  have hblank : lineIsBlank (line ++ ['\r']) = false := by simp [lineIsBlank, isBlank]
  have hrow : tableRow (line ++ ['\r']) = false := by simp [tableRow, isBlank]
  have hreturn : '\r' ∈ line ++ ['\r'] := List.mem_concat_self
  have hnul' : '\x00' ∉ line ++ ['\r'] := by simpa using hnul
  cases hcode : f.inCode with
  | true =>
      have hescaped := return_mem_escaped hreturn hnul'
      simp [appendLine, closeTable, appendBlock, htable, hmath, hopens, isFence_return, hfence, hcode,
        markdownInline, Piece.bytes, hescaped]
  | false =>
      have htext : '\r' ∈ Out.bytes (appendText f (line ++ ['\r'])).2 := return_mem_appendText hreturn hnul'
      simpa [appendLine, closeTable, appendBlock, htable, hmath, hopens, isFence_return, hfence, hcode, hblank,
        hrow] using htext

/-- If nothing of the line endings is printed then the ended lines are fences. -/
theorem fences_of_return_not_mem {read s : Text} (hmath : f.inMathBlock = false) (htable : f.inTable = false)
    (hread : '\x00' ∉ read) (hs : '\x00' ∉ s)
    (hout : '\r' ∉ Out.bytes (appendLines f (linesFrom read (crlf s))).2) :
    ∀ line ∈ endedFrom read s, isFence line = true := by
  induction s generalizing read f with
  | nil => exact fun line hline => absurd hline List.not_mem_nil
  | cons c s ih =>
      rw [List.mem_cons, not_or] at hs
      by_cases hc : c = '\n'
      · subst hc
        rw [linesFrom_crlf_newline, appendLines, Out.bytes_append, List.mem_append, not_or] at hout
        have hfence : isFence read.reverse = true := by
          by_contra hno
          exact hout.1 (return_mem_appendLine hmath htable (Bool.eq_false_iff.mpr hno) (by simpa using hread))
        have hreturn := (isFence_return read.reverse).trans hfence
        rw [appendLine_fence hmath htable hreturn] at hout
        rw [endedFrom_newline, List.forall_mem_cons]
        exact ⟨hfence, ih (f := f.afterFence) hmath htable List.not_mem_nil hs.2 hout.2⟩
      · rw [linesFrom_crlf_cons hc] at hout
        rw [endedFrom, if_neg hc]
        refine ih hmath htable ?_ hs.2 hout
        simpa [hread] using hs.1

/-- The output is the same with either line ending exactly when the newlines end fences only. -/
theorem crlf_iff (h : '\r' ∉ text) :
    (htmlMarkdown (some (crlf text))).bytes = (htmlMarkdown (some text)).bytes ↔
      ∀ line ∈ endedLines text, isFence line = true := by
  have hlines : textLines (crlf text) = linesFrom [] (crlf (cstr text)) := by rw [textLines, cstr_crlf]
  constructor
  · intro heq
    have hinert : Out.Inert text (htmlMarkdown (some text)) :=
      .append (inert_appendLines fun line hline c hc => mem_of_mem_textLines hline hc) inert_closeAll
    have hout : '\r' ∉ Out.bytes (htmlMarkdown (some (crlf text))) := by
      rw [heq]
      exact fun hmem => h (hinert.return_mem hmem)
    simp only [htmlMarkdown, Option.getD_some, hlines, Out.bytes_append, List.mem_append, not_or] at hout
    exact fences_of_return_not_mem rfl rfl List.not_mem_nil (nul_not_mem_cstr text) hout.1
  · intro hfences
    have hsame := appendLines_crlf (f := .init) rfl rfl hfences
    simp only [htmlMarkdown, Option.getD_some, hlines, hsame]
    rfl

theorem crlf_fence :
    (htmlMarkdown (some (crlf "```\nx".toList))).bytes = (htmlMarkdown (some "```\nx".toList)).bytes :=
  (crlf_iff (by decide)).mpr (by decide)

theorem not_crlf : ¬ ∀ text : Text, '\r' ∉ text →
    (htmlMarkdown (some (crlf text))).bytes = (htmlMarkdown (some text)).bytes := by
  intro h
  exact absurd (h "a\n\nb".toList (by decide)) (by decide +kernel)

/-! ## Paragraphs -/

/-- What is no text of the program. -/
def Out.sourceText (out : Out) : Text :=
  out.flatMap fun piece => match piece with
    | .fixed _ => []
    | _ => piece.bytes

/-- A paragraph or one more line of it starts here. -/
def Out.StartsLine (out : Out) : Prop := .fixed "<p>" ∈ out ∨ .fixed "<br>" ∈ out

instance (out : Out) : Decidable out.StartsLine := inferInstanceAs (Decidable (_ ∨ _))

/-- The line is appended to a paragraph. -/
def LineStep.RendersParagraph (s : LineStep) : Prop := s.out.StartsLine

/-- The text appended for the line is the whole line. -/
def LineStep.KeepsText (s : LineStep) : Prop := s.out.sourceText = htmlEscapeText s.line

instance (s : LineStep) : Decidable s.RendersParagraph := inferInstanceAs (Decidable s.out.StartsLine)

instance (s : LineStep) : Decidable s.KeepsText := inferInstanceAs (Decidable (_ = _))

@[simp] theorem Out.sourceText_append (out out' : Out) :
    Out.sourceText (out ++ out') = out.sourceText ++ out'.sourceText := List.flatMap_append ..

theorem sourceText_when (p : Bool) (tag : String) : (when p tag).sourceText = [] := by cases p <;> rfl

theorem sourceText_appendParagraph (f : Flags) (content : Text) :
    (appendParagraph f content).sourceText = htmlEscapeText content := by
  have hline : Out.sourceText [markdownInline content] = htmlEscapeText content := List.append_nil _
  have hopen : Out.sourceText [.fixed (if f.inParagraph then "<br>" else "<p>")] = [] := rfl
  simp only [appendParagraph, closeList, Out.sourceText_append, sourceText_when, hline, hopen,
    List.nil_append, List.append_nil]

theorem row_not_startsLine (line : Text) (header : Bool) : ¬ (appendTableRow line header).StartsLine := by
  cases header with
  | false => simp [Out.StartsLine, appendTableRow]
  | true => simp [Out.StartsLine, appendTableRow]

theorem flow_not_startsLine (f : Flags) : ¬ (closeParagraph f ++ closeList f).StartsLine := by
  simp [Out.StartsLine, closeParagraph, closeList, when]

theorem appendText_paragraph (h : (appendText f line).2.StartsLine) :
    (appendText f line).2 = appendParagraph f (line.dropWhile (· = '#')) := by
  simp only [appendText] at h ⊢
  split_ifs at h ⊢
  · simp [Out.StartsLine, closeParagraph, closeList, when, markdownInline, number] at h
  · simp [Out.StartsLine, closeParagraph, when, markdownInline] at h
  · rfl

/-- No other branch prints these tags. -/
theorem BlockOut.paragraph {out : Out} (h : BlockOut f line out) (hstarts : out.StartsLine) :
    out = appendParagraph f (line.dropWhile (· = '#')) := by
  have hrow := row_not_startsLine line
  have hflow := flow_not_startsLine f
  simp only [Out.StartsLine, List.mem_append, not_or] at hrow hflow
  cases h with
  | math => simp [Out.StartsLine, markdownInline, when] at hstarts
  | opensMath => simp [Out.StartsLine, hflow, markdownInline] at hstarts
  | fence tag htag => rcases htag with rfl | rfl <;> simp [Out.StartsLine, hflow] at hstarts
  | code => simp [Out.StartsLine, markdownInline] at hstarts
  | blank => exact absurd hstarts (flow_not_startsLine f)
  | header => simp [Out.StartsLine, hflow, hrow] at hstarts
  | separator => simp [Out.StartsLine] at hstarts
  | row => exact absurd hstarts (row_not_startsLine line false)
  | text => exact appendText_paragraph hstarts

theorem closeTable_tags (f : Flags) (line : Text) :
    (closeTable f line).2.sourceText = [] ∧ ¬ (closeTable f line).2.StartsLine := by
  unfold closeTable
  split
  · exact ⟨rfl, by simp [Out.StartsLine]⟩
  · exact ⟨rfl, by simp [Out.StartsLine]⟩

theorem LineStep.paragraph_sourceText {s : LineStep} (h : s.RendersParagraph) :
    s.out.sourceText = htmlEscapeText (s.line.dropWhile (· = '#')) := by
  obtain ⟨hclosed, hno⟩ := closeTable_tags s.flags s.line
  have hblock : (appendBlock (closeTable s.flags s.line).1 s.line s.next).2.StartsLine := by
    simp only [Out.StartsLine, not_or] at hno
    simpa [LineStep.RendersParagraph, LineStep.out, appendLine, Out.StartsLine, hno] using h
  calc s.out.sourceText
      = (closeTable s.flags s.line).2.sourceText ++
          (appendBlock (closeTable s.flags s.line).1 s.line s.next).2.sourceText := Out.sourceText_append ..
    _ = (appendParagraph (closeTable s.flags s.line).1 (s.line.dropWhile (· = '#'))).sourceText := by
          rw [hclosed, List.nil_append, (appendBlock_blockOut _ _ _).paragraph hblock]
    _ = htmlEscapeText (s.line.dropWhile (· = '#')) := sourceText_appendParagraph ..

theorem dropWhile_hash_eq_self (line : Text) :
    line.dropWhile (· = '#') = line ↔ line.head? ≠ some '#' := by
  cases line with
  | nil => simp
  | cons c rest => simp [List.dropWhile_eq_self_iff]

/-- The text of a paragraph line is the whole line unless the line starts with a `#`. -/
theorem keepsText_iff (text : Text) (s : LineStep) (hs : s ∈ lineSteps .init (textLines text))
    (h : s.RendersParagraph) : s.KeepsText ↔ s.line.head? ≠ some '#' := by
  have hnul : '\x00' ∉ s.line := nul_not_mem_textLines (mem_lineSteps hs)
  have hnul' : '\x00' ∉ s.line.dropWhile (· = '#') := fun hmem => hnul ((List.dropWhile_sublist _).subset hmem)
  rw [LineStep.KeepsText, s.paragraph_sourceText h, htmlEscapeText_inj, cstr_eq_self.mpr hnul,
    cstr_eq_self.mpr hnul']
  exact dropWhile_hash_eq_self s.line

/-- The line `a#` alone. -/
def plainStep : LineStep := { flags := .init, line := "a#".toList, next := none }

theorem keepsText_plain : plainStep.KeepsText :=
  (keepsText_iff "a#".toList plainStep List.mem_cons_self (by decide)).mpr (by decide)

theorem not_keepsText : ¬ ∀ (text : Text), ∀ s ∈ lineSteps .init (textLines text),
    s.RendersParagraph → s.KeepsText := by
  intro h
  have hkeeps := h "#include".toList { flags := .init, line := "#include".toList, next := none }
    List.mem_cons_self (by decide)
  revert hkeeps
  decide

end Tle.Html
