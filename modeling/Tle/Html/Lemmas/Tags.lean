import Tle.Html.Lemmas.Parts
import Tle.Lib.Nesting

/-!
# The tags of the output

A tag is what stands between a `<` and the next `>`. What is open is known from the flags.
-/

namespace Tle.Html
open Tle.Lib

variable {s s' value line : Text} {out out' : Out} {f : Flags} {a b c : List Text} {p : Bool}

/-! ## Reading the tags of a text -/

/-- The contents of the tags; `some read` inside one, reversed. -/
def tagsFrom : Option Text → Text → List Text
  | _, [] => []
  | none, c :: s => if c = '<' then tagsFrom (some []) s else tagsFrom none s
  | some read, c :: s => if c = '>' then read.reverse :: tagsFrom none s else tagsFrom (some (c :: read)) s

/-- `br` is void, and attributes follow the name. -/
def tagMarks (content : Text) : List (Mark Text) :=
  match content with
  | '/' :: name => [.closes name]
  | _ =>
      let name := content.takeWhile (· ≠ ' ')
      if name = "br".toList then [] else [.opens name]

def marks (s : Text) : List (Mark Text) := (tagsFrom none s).flatMap tagMarks

/-- `s` takes the open elements from `a` to `b`, whatever follows it. -/
def Takes (a : List Text) (s : Text) (b : List Text) : Prop :=
  ∃ ms, (∀ rest, marks (s ++ rest) = ms ++ marks rest) ∧ nest a ms = some b

theorem Takes.nil : Takes a [] a := ⟨[], fun _ => rfl, rfl⟩

theorem Takes.append (h : Takes a s b) (h' : Takes b s' c) : Takes a (s ++ s') c := by
  obtain ⟨ms, hmarks, hnest⟩ := h
  obtain ⟨ms', hmarks', hnest'⟩ := h'
  refine ⟨ms ++ ms', fun rest => ?_, nest_trans hnest hnest'⟩
  rw [List.append_assoc, hmarks, hmarks', List.append_assoc]

theorem Takes.nest_append (h : Takes a s b) (s' : Text) : nest a (marks (s ++ s')) = nest b (marks s') := by
  obtain ⟨ms, hmarks, hnest⟩ := h
  rw [hmarks, Lib.nest_append, hnest]
  rfl

theorem Takes.nest_marks (h : Takes a s b) : nest a (marks s) = some b := by
  have hnest := h.nest_append []
  rwa [List.append_nil] at hnest

/-- Text without a `<` moves nothing. -/
theorem Takes.text (h : '<' ∉ s) : Takes a s a := by
  refine ⟨[], fun rest => ?_, rfl⟩
  induction s with
  | nil => rfl
  | cons c s ih =>
      simp only [List.mem_cons, not_or] at h
      have hne : c ≠ '<' := fun heq => h.1 heq.symm
      rw [List.cons_append, marks, tagsFrom, if_neg hne]
      exact ih h.2

theorem Takes.escaped : Takes a (htmlEscapeText value) a :=
  Takes.text fun hmem => not_markup_of_mem_escaped hmem (by decide)

/-! ## The open elements -/

/-- What a line can find open, besides a table. -/
inductive Flow where
  | none
  | paragraph
  | list

/-- The combinations of flags that a run goes through. -/
inductive Context where
  | flow (flow : Flow)
  | table
  | code
  | math (inCode : Bool)

def Context.flags : Context → Flags
  | flow .none => .init
  | flow .paragraph => { Flags.init with inParagraph := true }
  | flow .list => { Flags.init with inList := true }
  | table => { Flags.init with inTable := true }
  | code => { Flags.init with inCode := true }
  | math inCode => { Flags.init with inMathBlock := true, inCode }

/-- The open elements, innermost first. -/
def Context.stack : Context → List Text
  | flow .none => []
  | flow .paragraph => ["p".toList]
  | flow .list => ["ul".toList]
  | table => ["tbody".toList, "table".toList]
  | code => ["code".toList, "pre".toList]
  | math inCode => "div".toList :: if inCode then ["code".toList, "pre".toList] else []

/-- The pieces take the open elements from `a` to `b`. -/
def Out.Takes (a : List Text) (out : Out) (b : List Text) : Prop := Html.Takes a out.bytes b

theorem Out.Takes.nil : Out.Takes a [] a := Html.Takes.nil

theorem Out.Takes.append (h : Out.Takes a out b) (h' : Out.Takes b out' c) : Out.Takes a (out ++ out') c := by
  rw [Out.Takes, Out.bytes_append]
  exact Html.Takes.append h h'

theorem Out.Takes.cons {piece : Piece} (h : Out.Takes a [piece] b) (h' : Out.Takes b out c) :
    Out.Takes a (piece :: out) c := Out.Takes.append h h'

theorem Out.Takes.escaped : Out.Takes a [.escaped value] a := by
  simpa [Out.Takes, Piece.bytes] using Html.Takes.escaped

/-- A text of the program with these marks. -/
theorem Out.Takes.fixed {tag : String} (ms : List (Mark Text))
    (hmarks : ∀ rest, marks (tag.toList ++ rest) = ms ++ marks rest) (hnest : nest a ms = some b) :
    Out.Takes a [.fixed tag] b := by
  rw [Out.Takes, Out.bytes_cons, Out.bytes_nil, List.append_nil]
  exact ⟨ms, hmarks, hnest⟩

theorem takes_newline : Out.Takes a [.fixed "\n"] a := .fixed [] (fun _ => rfl) rfl

theorem takes_break : Out.Takes a [.fixed "<br>"] a := .fixed [] (fun _ => rfl) rfl

/-- A tag that opens an element. -/
theorem takes_open {tag : String} (name : Text)
    (hmarks : ∀ rest, marks (tag.toList ++ rest) = .opens name :: marks rest) :
    Out.Takes a [.fixed tag] (name :: a) := .fixed [.opens name] hmarks rfl

/-- A tag that closes it. -/
theorem takes_close {tag : String} (name : Text)
    (hmarks : ∀ rest, marks (tag.toList ++ rest) = .closes name :: marks rest) :
    Out.Takes (name :: a) [.fixed tag] a := .fixed [.closes name] hmarks nest_closes_cons

theorem takes_open_two {tag : String} (outer inner : Text)
    (hmarks : ∀ rest, marks (tag.toList ++ rest) = .opens outer :: .opens inner :: marks rest) :
    Out.Takes a [.fixed tag] (inner :: outer :: a) := .fixed [.opens outer, .opens inner] hmarks rfl

theorem takes_close_two {tag : String} (inner outer : Text)
    (hmarks : ∀ rest, marks (tag.toList ++ rest) = .closes inner :: .closes outer :: marks rest) :
    Out.Takes (inner :: outer :: a) [.fixed tag] a :=
  .fixed [.closes inner, .closes outer] hmarks (by rw [nest_closes_cons, nest_closes_cons, nest_nil])

/-! ## Rows, headings and paragraphs -/

theorem takes_row (header : Bool) : Out.Takes a (appendTableRow line header) a := by
  have hcell : ∀ cell : Text, Out.Takes ("tr".toList :: a) [.fixed (if header then "<th>" else "<td>"),
      .escaped cell, .fixed (if header then "</th>" else "</td>")] ("tr".toList :: a) := by
    intro cell
    cases header with
    | false =>
        exact .cons (takes_open "td".toList fun _ => rfl)
          (.cons .escaped (takes_close "td".toList fun _ => rfl))
    | true =>
        exact .cons (takes_open "th".toList fun _ => rfl)
          (.cons .escaped (takes_close "th".toList fun _ => rfl))
  refine .append (.append (takes_open "tr".toList fun _ => rfl) ?_) (takes_close "tr".toList fun _ => rfl)
  induction tableCells line with
  | nil => exact .nil
  | cons cell cells ih =>
      rw [List.flatMap_cons]
      exact .append (hcell _) ih

theorem takes_heading {n : Nat} (hpos : 0 < n) (hle : n ≤ 3) : Out.Takes a [.fixed "<h", number n, .fixed ">",
    markdownInline value, .fixed "</h", number n, .fixed ">"] a := by
  have htags : Out.Takes a [.fixed "<h", number n, .fixed ">"] (('h' :: formatUnsigned n) :: a) ∧
      Out.Takes (('h' :: formatUnsigned n) :: a) [.fixed "</h", number n, .fixed ">"] a := by
    obtain rfl | rfl | rfl : n = 1 ∨ n = 2 ∨ n = 3 := by omega
    all_goals
      refine ⟨⟨[.opens _], fun _ => ?_, rfl⟩, [.closes _], fun _ => ?_, nest_closes_cons⟩
      · rfl
      · rfl
  exact .append htags.1 (.cons .escaped htags.2)

theorem takes_closeFlow (flow : Flow) : Out.Takes (Context.flow flow).stack
    (closeParagraph (Context.flow flow).flags ++ closeList (Context.flow flow).flags) [] := by
  cases flow with
  | none => exact .nil
  | paragraph => exact takes_close "p".toList fun _ => rfl
  | list => exact takes_close "ul".toList fun _ => rfl

theorem takes_paragraph (flow : Flow) : Out.Takes (Context.flow flow).stack
    (appendParagraph (Context.flow flow).flags value) (Context.flow .paragraph).stack := by
  have hstart : Out.Takes (Context.flow flow).stack (closeList (Context.flow flow).flags ++
      [.fixed (if (Context.flow flow).flags.inParagraph then "<br>" else "<p>")]) ["p".toList] := by
    cases flow with
    | none => exact takes_open "p".toList fun _ => rfl
    | paragraph => exact takes_break
    | list => exact .append (takes_close "ul".toList fun _ => rfl) (takes_open "p".toList fun _ => rfl)
  unfold appendParagraph
  dsimp only
  generalize (strncmpEq value "$$".toList 2 || strncmpEq value "\\[".toList 2) = math
  cases math with
  | false => exact .append (.append (.append hstart .nil) .escaped) .nil
  | true =>
      exact .append (.append (.append hstart (takes_open "span".toList fun _ => rfl)) .escaped)
        (takes_close "span".toList fun _ => rfl)

/-! ## One line -/

/-- The open elements go on following the flags. -/
def Leads (c : Context) (r : Flags × Out) : Prop :=
  ∃ c' : Context, r.1 = c'.flags ∧ Out.Takes c.stack r.2 c'.stack

theorem leads_text (flow : Flow) (line : Text) :
    Leads (.flow flow) (appendText (Context.flow flow).flags line) := by
  have hclose := takes_closeFlow flow
  have hlist : Out.Takes (Context.flow flow).stack (closeParagraph (Context.flow flow).flags ++
      when (!(Context.flow flow).flags.inList) "<ul>") ["ul".toList] := by
    cases flow with
    | none => exact takes_open "ul".toList fun _ => rfl
    | paragraph => exact .append (takes_close "p".toList fun _ => rfl) (takes_open "ul".toList fun _ => rfl)
    | list => exact .nil
  simp only [appendText]
  split_ifs with hheading hbullet
  · refine ⟨.flow .none, by cases flow <;> rfl, .append hclose ?_⟩
    exact takes_heading hheading.1 hheading.2.1
  · refine ⟨.flow .list, by cases flow <;> rfl, .append hlist ?_⟩
    exact .cons (takes_open "li".toList fun _ => rfl)
      (.cons .escaped (takes_close "li".toList fun _ => rfl))
  · exact ⟨.flow .paragraph, by cases flow <;> rfl, takes_paragraph flow⟩

theorem leads_flow (flow : Flow) (line : Text) (next : Option Text) :
    Leads (.flow flow) (appendBlock (Context.flow flow).flags line next) := by
  have hclose := takes_closeFlow flow
  have hflags : (Context.flow flow).flags.inMathBlock = false ∧ (Context.flow flow).flags.inCode = false ∧
      (Context.flow flow).flags.inTable = false := by
    cases flow <;> exact ⟨rfl, rfl, rfl⟩
  simp only [appendBlock, hflags, Bool.false_eq_true, ↓reduceIte, Bool.not_false, true_and, false_and]
  split_ifs
  · refine ⟨.math false, by cases flow <;> rfl, .append hclose ?_⟩
    exact .cons (takes_open "div".toList fun _ => rfl) (.cons .escaped takes_newline)
  · refine ⟨.code, by cases flow <;> rfl, .append hclose ?_⟩
    exact takes_open_two "pre".toList "code".toList fun _ => rfl
  · exact ⟨.flow .none, by cases flow <;> rfl, hclose⟩
  · have hhead : Out.Takes [] [.fixed "<table><thead>"] ["thead".toList, "table".toList] :=
      takes_open_two "table".toList "thead".toList fun _ => rfl
    refine ⟨.table, by cases flow <;> rfl, .append (.append (.append hclose hhead) (takes_row true)) ?_⟩
    exact .fixed [.closes "thead".toList, .opens "tbody".toList] (fun _ => rfl) nest_closes_cons
  · exact leads_text flow line

theorem leads_code (line : Text) (next : Option Text) :
    Leads .code (appendBlock Context.code.flags line next) := by
  simp only [appendBlock, Context.flags, Flags.init, Bool.false_eq_true, ↓reduceIte, Bool.not_true]
  split_ifs
  · refine ⟨.math true, rfl, ?_⟩
    exact .cons (takes_open "div".toList fun _ => rfl) (.cons .escaped takes_newline)
  · exact ⟨.flow .none, rfl, takes_close_two "code".toList "pre".toList fun _ => rfl⟩
  · exact ⟨.code, rfl, .cons .escaped takes_newline⟩

theorem leads_math (inCode : Bool) (line : Text) (next : Option Text) :
    Leads (.math inCode) (appendBlock (Context.math inCode).flags line next) := by
  have hline : ∀ a : List Text, Out.Takes a [markdownInline line, .fixed "\n"] a :=
    fun _ => .cons .escaped takes_newline
  simp only [appendBlock, Context.flags, Flags.init, ↓reduceIte]
  cases closesMath line with
  | false => exact ⟨.math inCode, rfl, .append (hline _) .nil⟩
  | true =>
      have hend : ∀ a : List Text, Out.Takes ("div".toList :: a) [.fixed "</div>"] a :=
        fun _ => takes_close "div".toList fun _ => rfl
      cases inCode with
      | false => exact ⟨.flow .none, rfl, .append (hline _) (hend _)⟩
      | true => exact ⟨.code, rfl, .append (hline _) (hend _)⟩

/-- A row is neither math, code nor blank. -/
theorem tableRow_head (h : tableRow line = true) : ∃ rest, line = '|' :: rest := by
  simp only [tableRow, Bool.and_eq_true, decide_eq_true_eq] at h
  cases line with
  | nil => cases h.1.1
  | cons d rest =>
      rcases Option.some.inj h.1.1 with rfl
      exact ⟨rest, rfl⟩

theorem tableRow_plain (h : tableRow line = true) :
    opensMath line = false ∧ isFence line = false ∧ lineIsBlank line = false := by
  obtain ⟨rest, rfl⟩ := tableRow_head h
  exact ⟨rfl, rfl, rfl⟩

theorem leads_row (line : Text) (next : Option Text) (hrow : tableRow line = true) :
    Leads .table (appendBlock Context.table.flags line next) := by
  obtain ⟨hmath, hfence, hblank⟩ := tableRow_plain hrow
  simp only [appendBlock, Context.flags, Flags.init, hmath, hfence, hblank, hrow, Bool.false_eq_true,
    ↓reduceIte, Bool.not_true, false_and, and_false, and_self]
  split
  · exact ⟨.table, rfl, .nil⟩
  · exact ⟨.table, rfl, takes_row false⟩

/-- What one line can do. -/
theorem leads_line (c : Context) (line : Text) (next : Option Text) :
    Leads c (appendLine c.flags line next) := by
  have hopen : c ≠ .table → closeTable c.flags line = (c.flags, []) := by
    intro hne
    cases c with
    | flow flow => cases flow <;> rfl
    | table => exact absurd rfl hne
    | code => rfl
    | math inCode => rfl
  unfold appendLine
  cases c with
  | flow flow =>
      rw [hopen (by rintro ⟨⟩)]
      exact leads_flow flow line next
  | code =>
      rw [hopen (by rintro ⟨⟩)]
      exact leads_code line next
  | math inCode =>
      rw [hopen (by rintro ⟨⟩)]
      exact leads_math inCode line next
  | table =>
      cases hrow : tableRow line with
      | true =>
          have hstay : closeTable Context.table.flags line = (Context.table.flags, []) := by
            simp [closeTable, hrow]
          rw [hstay]
          exact leads_row line next hrow
      | false =>
          have hend : closeTable Context.table.flags line =
              ((Context.flow .none).flags, [.fixed "</tbody></table>"]) := by
            simp [closeTable, hrow, Context.flags, Flags.init]
          obtain ⟨c', hflags, htakes⟩ := leads_flow .none line next
          rw [hend]
          exact ⟨c', hflags, .append (takes_close_two "tbody".toList "table".toList fun _ => rfl) htakes⟩

/-- What any lines do. -/
theorem leads_lines (c : Context) (lines : List Text) : Leads c (appendLines c.flags lines) := by
  induction lines generalizing c with
  | nil => exact ⟨c, rfl, .nil⟩
  | cons line rest ih =>
      obtain ⟨c', hflags, htakes⟩ := leads_line c line rest.head?
      obtain ⟨c'', hflags', htakes'⟩ := ih c'
      rw [← hflags] at hflags' htakes'
      exact ⟨c'', hflags', .append htakes htakes'⟩

/-! ## The end of the text -/

/-- Everything is closed, unless a math block stands in a code block. -/
theorem closeAll_nests_iff (c : Context) :
    nest c.stack (marks (Out.bytes (closeAll c.flags))) = some [] ↔ c ≠ .math true := by
  have hcode : Out.Takes Context.code.stack (closeAll Context.code.flags) [] :=
    takes_close_two "code".toList "pre".toList fun _ => rfl
  have htable : Out.Takes Context.table.stack (closeAll Context.table.flags) [] :=
    takes_close_two "tbody".toList "table".toList fun _ => rfl
  have hmath : Out.Takes (Context.math false).stack (closeAll (Context.math false).flags) [] :=
    takes_close "div".toList fun _ => rfl
  cases c with
  | flow flow =>
      refine iff_of_true ?_ (by rintro ⟨⟩)
      have hflow := (takes_closeFlow flow).nest_marks
      cases flow <;> exact hflow
  | table => exact iff_of_true htable.nest_marks (by rintro ⟨⟩)
  | code => exact iff_of_true hcode.nest_marks (by rintro ⟨⟩)
  | math inCode =>
      cases inCode with
      | false => exact iff_of_true hmath.nest_marks (by rintro ⟨⟩)
      | true => exact iff_of_false (by decide) (by simp)

end Tle.Html
