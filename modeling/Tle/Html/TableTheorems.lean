import Tle.Html.Lemmas.Tags
import Tle.Html.Lemmas.Steps

/-!
# Tables

A row is printed with one cell for each pair of bars unless blanks follow its last bar, and a body row
unless it has the shape of a separator.
-/

namespace Tle.Html
open Tle.Lib

variable {text line blanks inner : Text} {f : Flags} {h sep : LineStep} {rows after : List LineStep}
  {header : Bool}

/-! ## Cells -/

/-- The texts between a bar and the next one. -/
def betweenBars (line : Text) : List Text := (line.splitOnP (· = '|')).tail.dropLast

def trimBlanks (cell : Text) : Text := (cell.dropWhile isBlank).rdropWhile isBlank

def cellOf (header : Bool) (cell : Text) : Out :=
  [.fixed (if header then "<th>" else "<td>"), .escaped (trimBlanks cell),
    .fixed (if header then "</th>" else "</td>")]

/-- A row with these cells, which are yet to be trimmed. -/
def rowOf (cells : List Text) (header : Bool) : Out :=
  [.fixed "<tr>"] ++ cells.flatMap (cellOf header) ++ [.fixed "</tr>"]

/-- The row has a cell for each bar but the last, with the text up to the next bar, and the blanks after the
last bar do not change it. -/
structure RendersCells (line : Text) (header : Bool) : Prop where
  count : (betweenBars line).length = line.count '|' - 1
  cells : (appendTableRow line header).bytes = (rowOf (betweenBars line) header).bytes
  trailing : (appendTableRow line header).bytes = (appendTableRow (line.rdropWhile isBlank) header).bytes

theorem appendTableRow_eq (line : Text) (header : Bool) :
    appendTableRow line header = rowOf (tableCells line) header := rfl

theorem length_splitOnP_bar (line : Text) : (line.splitOnP (· = '|')).length = line.count '|' + 1 := by
  induction line with
  | nil => rfl
  | cons c line ih =>
      rw [List.splitOnP_cons_eq_if_modifyHead, List.count_cons]
      by_cases hc : c = '|'
      · simp [hc, ih]
      · simp [hc, ih]

theorem length_betweenBars (line : Text) : (betweenBars line).length = line.count '|' - 1 := by
  simp [betweenBars, length_splitOnP_bar]

/-! ### The shape of a row -/

theorem rdropWhile_append_blanks (hblanks : ∀ c ∈ blanks, isBlank c = true) (line : Text) :
    (line ++ ['|'] ++ blanks).rdropWhile isBlank = line ++ ['|'] := by
  have hall : ∀ c ∈ blanks.reverse, isBlank c = true := fun c hc => hblanks c (List.mem_reverse.mp hc)
  rw [List.rdropWhile, List.reverse_append, List.dropWhile_append_of_pos hall, List.reverse_concat]
  simp [isBlank]

/-- A row starts with a bar and ends with another one and blanks. -/
theorem tableRow_shape (hrow : tableRow line = true) :
    ∃ inner blanks, line = '|' :: inner ++ ['|'] ++ blanks ∧ ∀ c ∈ blanks, isBlank c = true := by
  obtain ⟨rest, hline⟩ := tableRow_head hrow
  simp only [tableRow, Bool.and_eq_true, decide_eq_true_eq] at hrow
  obtain ⟨init, hinit⟩ := List.getLast?_eq_some_iff.mp hrow.2
  have hblanks : ∀ c ∈ line.rtakeWhile isBlank, isBlank c = true := fun c hc => List.mem_rtakeWhile_imp hc
  have hsplit := List.rdropWhile_append_rtakeWhile (p := isBlank) (l := line)
  rw [hinit] at hsplit hrow
  cases init with
  | nil => simp at hrow
  | cons c inner =>
      have hc : c = '|' := by
        rw [hline] at hsplit
        exact (List.cons.inj hsplit).1
      subst hc
      exact ⟨inner, line.rtakeWhile isBlank, hsplit.symm, hblanks⟩

theorem bar_not_mem_blanks (hblanks : ∀ c ∈ blanks, isBlank c = true) : '|' ∉ blanks :=
  fun hmem => absurd (hblanks _ hmem) (by decide)

theorem getLast?_append_blanks (hne : blanks ≠ []) (hblanks : ∀ c ∈ blanks, isBlank c = true) (s : Text) :
    (s ++ blanks).getLast? ≠ some '|' := by
  rw [List.getLast?_append_of_ne_nil s hne]
  exact fun hlast => bar_not_mem_blanks hblanks (List.mem_of_getLast? hlast)

theorem splitOnP_append_blanks (hblanks : ∀ c ∈ blanks, isBlank c = true) (inner : Text) :
    (inner ++ '|' :: blanks).splitOnP (· = '|') = inner.splitOnP (· = '|') ++ [blanks] := by
  have hbars : ∀ c ∈ blanks, decide (c = '|') = false :=
    fun c hc => decide_eq_false fun heq => bar_not_mem_blanks hblanks (heq ▸ hc)
  rw [List.splitOnP_append_cons _ _ (by simp), List.splitOnP_eq_singleton hbars]

theorem betweenBars_row (hblanks : ∀ c ∈ blanks, isBlank c = true) (inner : Text) :
    betweenBars ('|' :: inner ++ ['|'] ++ blanks) = inner.splitOnP (· = '|') := by
  have hline : '|' :: inner ++ ['|'] ++ blanks = [] ++ '|' :: (inner ++ '|' :: blanks) := by simp
  rw [betweenBars, hline, List.splitOnP_append_cons _ _ (by simp), splitOnP_append_blanks hblanks]
  simp [List.splitOnP_nil]

theorem tableCells_closed (inner : Text) : tableCells ('|' :: inner ++ ['|']) = inner.splitOnP (· = '|') := by
  simp [tableCells]

/-- With blanks after the last bar there is one more cell. -/
theorem tableCells_open (hne : blanks ≠ []) (hblanks : ∀ c ∈ blanks, isBlank c = true) (inner : Text) :
    tableCells ('|' :: inner ++ ['|'] ++ blanks) = inner.splitOnP (· = '|') ++ [blanks] := by
  have htail : ('|' :: inner ++ ['|'] ++ blanks).tail = inner ++ ['|'] ++ blanks := rfl
  have hlast := getLast?_append_blanks hne hblanks (inner ++ ['|'])
  rw [tableCells, htail]
  simp only [hlast, ↓reduceIte]
  rw [← splitOnP_append_blanks hblanks, List.append_assoc, List.singleton_append]

theorem length_rowOf_concat (cells : List Text) (cell : Text) (header : Bool) :
    (rowOf cells header).bytes.length < (rowOf (cells ++ [cell]) header).bytes.length := by
  cases header with
  | false => simp [rowOf, cellOf, Piece.bytes]
  | true => simp [rowOf, cellOf, Piece.bytes]

/-- The cells of a row are those between its bars exactly when it ends with a bar. -/
theorem rendersCells_iff (line : Text) (header : Bool) (hrow : tableRow line = true) :
    RendersCells line header ↔ line.getLast? = some '|' := by
  obtain ⟨inner, blanks, rfl, hblanks⟩ := tableRow_shape hrow
  have hbetween := betweenBars_row hblanks inner
  by_cases hne : blanks = []
  · subst hne
    have hcells : tableCells ('|' :: inner ++ ['|'] ++ []) = inner.splitOnP (· = '|') := by
      rw [List.append_nil, tableCells_closed]
    refine iff_of_true ⟨length_betweenBars _, ?_, ?_⟩ (List.getLast?_eq_some_iff.mpr ⟨'|' :: inner, by simp⟩)
    · rw [appendTableRow_eq, hcells, hbetween]
    · rw [rdropWhile_append_blanks hblanks, List.append_nil]
  · refine iff_of_false (fun hrenders => ?_) (getLast?_append_blanks hne hblanks _)
    have hbytes := hrenders.cells
    rw [appendTableRow_eq, tableCells_open hne hblanks, hbetween] at hbytes
    exact absurd (congrArg List.length hbytes) (length_rowOf_concat _ blanks header).ne'

theorem rendersCells_two : RendersCells "|x| y |".toList false :=
  (rendersCells_iff _ false (by decide)).mpr (by decide)

theorem not_rendersCells : ¬ ∀ (line : Text) (header : Bool), tableRow line = true → RendersCells line header := by
  intro h
  exact absurd (h "|x| ".toList false (by decide)).cells (by decide)

/-! ## Tables -/

/-- A header row, a separator and rows in the iterations for a text, outside code, math and other tables. -/
structure IsTable (text : Text) (h sep : LineStep) (rows : List LineStep) : Prop where
  steps : ∃ before after, lineSteps .init (textLines text) = before ++ (h :: sep :: rows ++ after)
  outside : h.flags.inCode = false ∧ h.flags.inMathBlock = false ∧ h.flags.inTable = false
  header : tableRow h.line = true
  separator : tableSeparator sep.line = true
  rows : ∀ r ∈ rows, tableRow r.line = true

/-- One header row and one row for each of the other lines, in their order. -/
def RendersTable (h sep : LineStep) (rows : List LineStep) : Prop :=
  Out.bytes ((h :: sep :: rows).flatMap LineStep.out) =
    Out.bytes (closeParagraph h.flags ++ closeList h.flags ++ [.fixed "<table><thead>"] ++
      appendTableRow h.line true ++ [.fixed "</thead><tbody>"] ++
      rows.flatMap fun r => appendTableRow r.line false)

instance (h sep : LineStep) (rows : List LineStep) : Decidable (RendersTable h sep rows) :=
  inferInstanceAs (Decidable (_ = _))

theorem row_step (hcode : f.inCode = false) (hmath : f.inMathBlock = false) (htable : f.inTable = true)
    (hrow : tableRow line = true) (next : Option Text) :
    appendLine f line next = (f, if tableSeparator line then [] else appendTableRow line false) := by
  obtain ⟨hopens, hfence, hblank⟩ := tableRow_plain hrow
  simp [appendLine, closeTable, appendBlock, hcode, hmath, htable, hrow, hopens, hfence, hblank]

/-- The rows of a table but those of the shape of a separator. -/
theorem rows_out {lines : List Text} (hcode : f.inCode = false) (hmath : f.inMathBlock = false)
    (htable : f.inTable = true) (hsteps : lineSteps f lines = rows ++ after)
    (hrows : ∀ r ∈ rows, tableRow r.line = true) :
    rows.flatMap LineStep.out =
      rows.flatMap fun r => if tableSeparator r.line then [] else appendTableRow r.line false := by
  induction rows generalizing lines with
  | nil => rfl
  | cons r rows ih =>
      rw [List.forall_mem_cons] at hrows
      obtain ⟨rest, -, rfl, -, hafter⟩ := lineSteps_cons hsteps
      have hstep := row_step hcode hmath htable hrows.1 r.next
      rw [hstep] at hafter
      rw [List.flatMap_cons, List.flatMap_cons, ih hafter hrows.2, LineStep.out, hstep]

/-- What a header leaves open. -/
def Flags.afterHeader (f : Flags) : Flags :=
  { f with inParagraph := false, inList := false, inTable := true }

theorem tableRow_of_separator (hsep : tableSeparator line = true) : tableRow line = true := by
  simp only [tableSeparator, Bool.and_eq_true] at hsep
  exact hsep.1.1

/-- A separator ends with no carriage return that the look-ahead would take away. -/
theorem nextLine_separator (hsep : tableSeparator line = true) : nextLineIsTableSeparator (some line) = true := by
  have hall := hsep
  simp only [tableSeparator, Bool.and_eq_true, List.all_eq_true] at hall
  have hself : line.rdropWhile (· = '\r') = line := by
    rw [List.rdropWhile_eq_self_iff]
    intro hne hlast
    have hlast' := hall.1.2 _ (List.getLast_mem hne)
    rw [of_decide_eq_true hlast] at hlast'
    cases hlast'
  rw [nextLineIsTableSeparator, hself, hsep]

theorem header_step {next : Text} (hcode : f.inCode = false) (hmath : f.inMathBlock = false)
    (htable : f.inTable = false) (hrow : tableRow line = true) (hsep : tableSeparator next = true) :
    appendLine f line (some next) = (f.afterHeader, closeParagraph f ++ closeList f ++
      [.fixed "<table><thead>"] ++ appendTableRow line true ++ [.fixed "</thead><tbody>"]) := by
  obtain ⟨hopens, hfence, hblank⟩ := tableRow_plain hrow
  simp [appendLine, closeTable, appendBlock, Flags.afterHeader, hcode, hmath, htable, hrow, hopens, hfence,
    hblank, nextLine_separator hsep]

/-- What is printed for a table. -/
theorem IsTable.out (htable : IsTable text h sep rows) :
    (h :: sep :: rows).flatMap LineStep.out =
      closeParagraph h.flags ++ closeList h.flags ++ [.fixed "<table><thead>"] ++
        appendTableRow h.line true ++ [.fixed "</thead><tbody>"] ++
        rows.flatMap fun r => if tableSeparator r.line then [] else appendTableRow r.line false := by
  obtain ⟨before, after, hsteps⟩ := htable.steps
  obtain ⟨hcode, hmath, hno⟩ := htable.outside
  obtain ⟨f, lines, hlines⟩ := lineSteps_suffix hsteps
  obtain ⟨rest, -, -, hnext, hrest⟩ := lineSteps_cons hlines.symm
  obtain ⟨rest', rfl, hflags, -, hrest'⟩ := lineSteps_cons hrest
  have hheader := header_step hcode hmath hno htable.header htable.separator
  rw [hnext, List.head?_cons, hheader] at hflags
  change sep.flags = h.flags.afterHeader at hflags
  have hseparator := row_step (f := h.flags.afterHeader) hcode hmath rfl (tableRow_of_separator htable.separator)
    sep.next
  rw [← hflags] at hseparator
  rw [hseparator] at hrest'
  have hrows := rows_out (hflags ▸ hcode) (hflags ▸ hmath) (hflags ▸ rfl) hrest' htable.rows
  have hout : h.out = closeParagraph h.flags ++ closeList h.flags ++ [.fixed "<table><thead>"] ++
      appendTableRow h.line true ++ [.fixed "</thead><tbody>"] := by
    rw [LineStep.out, hnext, List.head?_cons, hheader]
  have hnothing : sep.out = [] := by
    rw [LineStep.out, hseparator, if_pos htable.separator]
  rw [List.flatMap_cons, List.flatMap_cons, hout, hnothing, hrows, List.nil_append]

/-! ### Rows that are left out -/

def keptRows (rows : List LineStep) : Out :=
  rows.flatMap fun r => if tableSeparator r.line then [] else appendTableRow r.line false

def allRows (rows : List LineStep) : Out := rows.flatMap fun r => appendTableRow r.line false

theorem bytes_keptRows_cons (r : LineStep) (rows : List LineStep) : (keptRows (r :: rows)).bytes =
    (if tableSeparator r.line then [] else (appendTableRow r.line false).bytes) ++ (keptRows rows).bytes := by
  rw [keptRows, List.flatMap_cons, Out.bytes_append]
  split <;> rfl

theorem bytes_allRows_cons (r : LineStep) (rows : List LineStep) :
    (allRows (r :: rows)).bytes = (appendTableRow r.line false).bytes ++ (allRows rows).bytes := by
  rw [allRows, List.flatMap_cons, Out.bytes_append]
  rfl

theorem length_keptRows_le (rows : List LineStep) :
    (keptRows rows).bytes.length ≤ (allRows rows).bytes.length := by
  induction rows with
  | nil => exact Nat.le_refl 0
  | cons r rows ih =>
      rw [bytes_keptRows_cons, bytes_allRows_cons, List.length_append, List.length_append]
      split
      · rw [List.length_nil]
        omega
      · omega

theorem appendTableRow_length_pos (line : Text) (header : Bool) :
    0 < (appendTableRow line header).bytes.length := by
  simp [appendTableRow, Piece.bytes]

/-- Nothing else makes up for a row that is left out. -/
theorem keptRows_eq_iff (rows : List LineStep) :
    (keptRows rows).bytes = (allRows rows).bytes ↔ ∀ r ∈ rows, tableSeparator r.line = false := by
  induction rows with
  | nil => exact iff_of_true rfl fun r hr => absurd hr List.not_mem_nil
  | cons r rows ih =>
      rw [bytes_keptRows_cons, bytes_allRows_cons, List.forall_mem_cons]
      cases hsep : tableSeparator r.line with
      | false =>
          rw [if_neg Bool.false_ne_true, List.append_cancel_left_eq, ih]
          exact (and_iff_right rfl).symm
      | true =>
          refine iff_of_false (fun heq => ?_) (fun h => Bool.noConfusion h.1)
          have hlength := congrArg List.length heq
          have hle := length_keptRows_le rows
          have hpos := appendTableRow_length_pos r.line false
          rw [if_pos rfl, List.nil_append, List.length_append] at hlength
          omega

/-- Every line after the separator is printed exactly when none of them has the shape of a separator. -/
theorem rendersTable_iff (text : Text) (h sep : LineStep) (rows : List LineStep)
    (htable : IsTable text h sep rows) :
    RendersTable h sep rows ↔ ∀ r ∈ rows, tableSeparator r.line = false := by
  rw [RendersTable, htable.out, Out.bytes_append _ (rows.flatMap _), Out.bytes_append _ (rows.flatMap _),
    List.append_cancel_left_eq]
  exact keptRows_eq_iff rows

/-- The third line of a table whose first two are a header and a separator. -/
def bodyStep (line : Text) : LineStep := { flags := Flags.init.afterHeader, line, next := none }

def headerStep : LineStep := { flags := .init, line := "|x|".toList, next := some "|-|".toList }

def separatorStep (line : Text) : LineStep :=
  { flags := Flags.init.afterHeader, line := "|-|".toList, next := some line }

theorem rendersTable_row : RendersTable headerStep (separatorStep "||".toList) [bodyStep "||".toList] :=
  (rendersTable_iff "|x|\n|-|\n||".toList headerStep (separatorStep "||".toList) [bodyStep "||".toList]
    ⟨⟨[], [], rfl⟩, by decide, by decide, by decide, by decide⟩).mpr (by decide)

theorem not_rendersTable : ¬ ∀ (text : Text) (h sep : LineStep) (rows : List LineStep),
    IsTable text h sep rows → RendersTable h sep rows := by
  intro h
  have hrenders := h "|x|\n|-|\n|-|".toList headerStep (separatorStep "|-|".toList) [bodyStep "|-|".toList]
    ⟨⟨[], [], rfl⟩, by decide, by decide, by decide, by decide⟩
  revert hrenders
  decide +kernel

end Tle.Html
