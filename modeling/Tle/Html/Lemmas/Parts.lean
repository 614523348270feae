import Tle.Html.Markdown
import Tle.Lib.Fields

/-!
# What the output is made of

Tags of the program, newlines and escaped characters of the source.
-/

namespace Tle.Html
open Tle.Lib

variable {src s s' value line : Text} {out out' : Out} {p : Bool} {f : Flags}

def tagLiterals : List Text :=
  ["<p>", "</p>", "<br>", "<ul>", "</ul>", "<li>", "</li>", "<h1>", "</h1>", "<h2>", "</h2>", "<h3>", "</h3>",
    "<pre>", "</pre>", "<code>", "</code>", "<div class=\"math-block\">", "</div>",
    "<span class=\"math-block\">", "</span>", "<table>", "</table>", "<thead>", "</thead>", "<tbody>",
    "</tbody>", "<tr>", "</tr>", "<th>", "</th>", "<td>", "</td>"].map String.toList

/-- A part of the output for a source text. -/
inductive Part (src : Text) where
  | tag (literal : Text) (h : literal ∈ tagLiterals)
  | newline
  | source (c : Char) (h : c ∈ src)

def Part.bytes : Part src → Text
  | tag literal _ => literal
  | newline => ['\n']
  | source c _ => escapeChar c

/-- `s` can be split into parts. -/
def Inert (src s : Text) : Prop := ∃ parts : List (Part src), s = parts.flatMap Part.bytes

theorem Inert.nil : Inert src [] := ⟨[], rfl⟩

theorem Inert.append (h : Inert src s) (h' : Inert src s') : Inert src (s ++ s') := by
  obtain ⟨parts, rfl⟩ := h
  obtain ⟨parts', rfl⟩ := h'
  exact ⟨parts ++ parts', by simp⟩

theorem Inert.tags (tags : List String) (h : ∀ t ∈ tags, t.toList ∈ tagLiterals) :
    Inert src (tags.flatMap String.toList) := by
  induction tags with
  | nil => exact .nil
  | cons t tags ih =>
      simp only [List.mem_cons, forall_eq_or_imp] at h
      rw [List.flatMap_cons]
      exact Inert.append ⟨[.tag t.toList h.1], by simp [Part.bytes]⟩ (ih h.2)

theorem Inert.newline : Inert src ['\n'] := ⟨[.newline], rfl⟩

theorem Inert.chars (h : ∀ c ∈ value, c ∈ src) : Inert src (value.flatMap escapeChar) := by
  induction value with
  | nil => exact .nil
  | cons c value ih =>
      simp only [List.mem_cons, forall_eq_or_imp] at h
      rw [List.flatMap_cons]
      exact Inert.append ⟨[.source c h.1], by simp [Part.bytes]⟩ (ih h.2)

theorem Inert.escaped (h : ∀ c ∈ value, c ∈ src) : Inert src (htmlEscapeText value) :=
  Inert.chars fun c hc => h c ((List.takeWhile_subset _ hc))

/-! ## Markup -/

def markup : Text := "<>\"'".toList

theorem not_markup_of_mem_escapeChar {c d : Char} (h : c ∈ escapeChar d) : c ∉ markup := by
  have hall : ['&', '<', '>', '"', '\''].all (fun e => (escapeChar e).all (· ∉ markup)) = true := by decide
  by_cases hd : d ∈ ['&', '<', '>', '"', '\'']
  · have hescaped := List.all_eq_true.mp hall d hd
    exact of_decide_eq_true (List.all_eq_true.mp hescaped c h)
  · have hself : escapeChar d = [d] := by
      unfold escapeChar
      split
      all_goals first | exact absurd (by decide) hd | rfl
    rw [hself, List.mem_singleton] at h
    rw [h]
    exact fun hmem => hd (List.mem_cons_of_mem _ hmem)

theorem not_markup_of_mem_escaped {c : Char} (h : c ∈ htmlEscapeText value) : c ∉ markup := by
  obtain ⟨d, -, hd⟩ := List.mem_flatMap.mp h
  exact not_markup_of_mem_escapeChar hd

/-! ## Pieces -/

@[simp] theorem Out.bytes_nil : Out.bytes [] = [] := rfl

@[simp] theorem Out.bytes_cons (piece : Piece) (out : Out) :
    Out.bytes (piece :: out) = piece.bytes ++ Out.bytes out := rfl

@[simp] theorem Out.bytes_append (out out' : Out) :
    Out.bytes (out ++ out') = Out.bytes out ++ Out.bytes out' := List.flatMap_append ..

/-- The bytes of these pieces can be split into parts. -/
def Out.Inert (src : Text) (out : Out) : Prop := Html.Inert src out.bytes

theorem Out.Inert.append (h : out.Inert src) (h' : out'.Inert src) : Out.Inert src (out ++ out') := by
  rw [Out.Inert, Out.bytes_append]
  exact Html.Inert.append h h'

theorem Out.Inert.cons {piece : Piece} (h : Out.Inert src [piece]) (h' : out.Inert src) :
    Out.Inert src (piece :: out) := Out.Inert.append h h'

theorem Out.Inert.tags {tag : String} (tags : List String) (h : ∀ t ∈ tags, t.toList ∈ tagLiterals)
    (htag : tag.toList = tags.flatMap String.toList) : Out.Inert src [.fixed tag] := by
  rw [Out.Inert, Out.bytes_cons, Out.bytes_nil, List.append_nil, Piece.bytes, htag]
  exact Html.Inert.tags tags h

theorem Out.Inert.tag {tag : String} (h : tag.toList ∈ tagLiterals) : Out.Inert src [.fixed tag] := by
  apply Out.Inert.tags [tag]
  · simpa using h
  · simp

theorem Out.Inert.newline : Out.Inert src [.fixed "\n"] := Html.Inert.newline

theorem Out.Inert.escaped (h : ∀ c ∈ value, c ∈ src) : Out.Inert src [.escaped value] := by
  simpa [Out.Inert, Piece.bytes] using Html.Inert.escaped h

theorem Out.Inert.when {tag : String} (h : Out.Inert src [.fixed tag]) : Out.Inert src (when p tag) := by
  cases p with
  | false => exact .nil
  | true => exact h

theorem inert_closeParagraph : Out.Inert src (closeParagraph f) := .when (.tag (by decide))

theorem inert_closeList : Out.Inert src (closeList f) := .when (.tag (by decide))

theorem inert_closeFlow : Out.Inert src (closeParagraph f ++ closeList f) :=
  .append inert_closeParagraph inert_closeList

theorem inert_endTable : Out.Inert src [.fixed "</tbody></table>"] := .tags ["</tbody>", "</table>"] (by decide) rfl

theorem inert_endCode : Out.Inert src [.fixed "</code></pre>"] := .tags ["</code>", "</pre>"] (by decide) rfl

/-! ## Rows -/

theorem mem_of_mem_tableCells {cell : Text} {c : Char} (hcell : cell ∈ tableCells line) (hc : c ∈ cell) :
    c ∈ line := by
  have hinner := mem_of_mem_splitOnP hcell hc
  split at hinner
  · exact List.mem_of_mem_tail ((List.dropLast_sublist _).subset hinner)
  · exact List.mem_of_mem_tail hinner

theorem mem_of_mem_trim {q : Char → Bool} {c : Char} (hc : c ∈ (value.dropWhile q).rdropWhile q) : c ∈ value :=
  (List.dropWhile_sublist q).subset ((List.rdropWhile_prefix q _).subset hc)

theorem inert_appendTableRow (header : Bool) (hline : ∀ c ∈ line, c ∈ src) :
    Out.Inert src (appendTableRow line header) := by
  have hcells : ∀ cells : List Text, (∀ cell ∈ cells, ∀ c ∈ cell, c ∈ src) →
      Out.Inert src (cells.flatMap fun cell => [.fixed (if header then "<th>" else "<td>"),
        .escaped ((cell.dropWhile isBlank).rdropWhile isBlank),
        .fixed (if header then "</th>" else "</td>")]) := by
    intro cells hchars
    induction cells with
    | nil => exact .nil
    | cons cell cells ih =>
        simp only [List.mem_cons, forall_eq_or_imp] at hchars
        have hcell : Out.Inert src [.escaped ((cell.dropWhile isBlank).rdropWhile isBlank)] :=
          .escaped fun c hc => hchars.1 c (mem_of_mem_trim hc)
        rw [List.flatMap_cons]
        refine .append (.cons ?_ (.cons hcell ?_)) (ih hchars.2)
        · cases header with
          | false => exact .tag (by decide)
          | true => exact .tag (by decide)
        · cases header with
          | false => exact .tag (by decide)
          | true => exact .tag (by decide)
  refine .append (.append (.tag (by decide)) (hcells _ ?_)) (.tag (by decide))
  exact fun cell hcell c hc => hline c (mem_of_mem_tableCells hcell hc)

/-! ## Lines -/

theorem inert_heading {n : Nat} (hpos : 0 < n) (hle : n ≤ 3) (h : ∀ c ∈ value, c ∈ src) :
    Out.Inert src [.fixed "<h", number n, .fixed ">", markdownInline value, .fixed "</h", number n,
      .fixed ">"] := by
  have htags : Out.Inert src [.fixed "<h", number n, .fixed ">"] ∧
      Out.Inert src [.fixed "</h", number n, .fixed ">"] := by
    rcases (by omega : n = 1 ∨ n = 2 ∨ n = 3) with rfl | rfl | rfl
    · exact ⟨Html.Inert.tags ["<h1>"] (by decide), Html.Inert.tags ["</h1>"] (by decide)⟩
    · exact ⟨Html.Inert.tags ["<h2>"] (by decide), Html.Inert.tags ["</h2>"] (by decide)⟩
    · exact ⟨Html.Inert.tags ["<h3>"] (by decide), Html.Inert.tags ["</h3>"] (by decide)⟩
  exact .append htags.1 (.cons (.escaped h) htags.2)

theorem inert_appendParagraph (h : ∀ c ∈ value, c ∈ src) : Out.Inert src (appendParagraph f value) := by
  refine .append (.append (.append (.append inert_closeList ?_) ?_) (.escaped h)) ?_
  · cases f.inParagraph with
    | false => exact .tag (by decide)
    | true => exact .tag (by decide)
  · exact .when (.tag (by decide))
  · exact .when (.tag (by decide))

theorem inert_appendText (hline : ∀ c ∈ line, c ∈ src) : Out.Inert src (appendText f line).2 := by
  have hcontent : ∀ c ∈ line.dropWhile (· = '#'), c ∈ src :=
    fun c hc => hline c ((List.dropWhile_sublist _).subset hc)
  simp only [appendText]
  split_ifs with hheading hbullet
  · refine .append inert_closeFlow (inert_heading hheading.1 hheading.2.1 ?_)
    exact fun c hc => hcontent c ((List.dropWhile_sublist _).subset hc)
  · refine .append (.append inert_closeParagraph (.when (.tag (by decide)))) ?_
    refine .cons (.tag (by decide)) (.cons (.escaped ?_) (.tag (by decide)))
    exact fun c hc => hcontent c (List.mem_of_mem_drop hc)
  · exact inert_appendParagraph hcontent

/-- What a line can append after a table is closed. -/
inductive BlockOut (f : Flags) (line : Text) : Out → Prop where
  | math : BlockOut f line ([markdownInline line, .fixed "\n"] ++ when (closesMath line) "</div>")
  | opensMath : BlockOut f line (closeParagraph f ++ closeList f ++
      [.fixed "<div class=\"math-block\">", markdownInline line, .fixed "\n"])
  | fence (tag : String) (h : tag = "</code></pre>" ∨ tag = "<pre><code>") :
      BlockOut f line (closeParagraph f ++ closeList f ++ [.fixed tag])
  | code : BlockOut f line [markdownInline line, .fixed "\n"]
  | blank : BlockOut f line (closeParagraph f ++ closeList f)
  | header : BlockOut f line (closeParagraph f ++ closeList f ++ [.fixed "<table><thead>"] ++
      appendTableRow line true ++ [.fixed "</thead><tbody>"])
  | separator : BlockOut f line []
  | row : BlockOut f line (appendTableRow line false)
  | text : BlockOut f line (appendText f line).2

theorem appendBlock_blockOut (f : Flags) (line : Text) (next : Option Text) :
    BlockOut f line (appendBlock f line next).2 := by
  unfold appendBlock
  split_ifs
  · exact .math
  · exact .opensMath
  · exact .fence _ (Or.inl rfl)
  · exact .fence _ (Or.inr rfl)
  · exact .code
  · exact .blank
  · exact .header
  · exact .separator
  · exact .row
  · exact .text

theorem BlockOut.inert (h : BlockOut f line out) (hline : ∀ c ∈ line, c ∈ src) : out.Inert src := by
  have hcode : Out.Inert src [markdownInline line, .fixed "\n"] := .append (.escaped hline) .newline
  cases h with
  | math => exact .append hcode (.when (.tag (by decide)))
  | opensMath => exact .append inert_closeFlow (.cons (.tag (by decide)) hcode)
  | fence tag htag =>
      rcases htag with rfl | rfl
      · exact .append inert_closeFlow inert_endCode
      · exact .append inert_closeFlow (.tags ["<pre>", "<code>"] (by decide) rfl)
  | code => exact hcode
  | blank => exact inert_closeFlow
  | header =>
      have hopen : Out.Inert src [.fixed "<table><thead>"] := .tags ["<table>", "<thead>"] (by decide) rfl
      have hbody : Out.Inert src [.fixed "</thead><tbody>"] := .tags ["</thead>", "<tbody>"] (by decide) rfl
      exact .append (.append (.append inert_closeFlow hopen) (inert_appendTableRow true hline)) hbody
  | separator => exact .nil
  | row => exact inert_appendTableRow false hline
  | text => exact inert_appendText hline

theorem inert_appendLine {next : Option Text} (hline : ∀ c ∈ line, c ∈ src) :
    Out.Inert src (appendLine f line next).2 := by
  have htable : Out.Inert src (closeTable f line).2 := by
    unfold closeTable
    split
    · exact inert_endTable
    · exact .nil
  exact .append htable ((appendBlock_blockOut _ line next).inert hline)

theorem inert_appendLines {lines : List Text} (hlines : ∀ line ∈ lines, ∀ c ∈ line, c ∈ src) :
    Out.Inert src (appendLines f lines).2 := by
  induction lines generalizing f with
  | nil => exact .nil
  | cons line rest ih =>
      simp only [List.mem_cons, forall_eq_or_imp] at hlines
      exact .append (inert_appendLine hlines.1) (ih hlines.2)

theorem inert_closeAll : Out.Inert src (closeAll f) := by
  refine .append (.append (.append inert_closeFlow ?_) ?_) ?_
  · exact .when inert_endTable
  · exact .when inert_endCode
  · exact .when (.tag (by decide))

theorem mem_of_mem_linesFrom {read rest : Text} {c : Char} (hline : line ∈ linesFrom read rest)
    (hc : c ∈ line) : c ∈ read ∨ c ∈ rest := by
  induction rest generalizing read with
  | nil =>
      rw [linesFrom] at hline
      split at hline
      · cases hline
      · rcases List.mem_singleton.mp hline with rfl
        exact Or.inl (List.mem_reverse.mp hc)
  | cons d rest ih =>
      rw [linesFrom] at hline
      split at hline
      · rcases List.mem_cons.mp hline with rfl | hline
        · exact Or.inl (List.mem_reverse.mp hc)
        · rcases ih hline with hnil | hrest
          · cases hnil
          · exact Or.inr (List.mem_cons_of_mem d hrest)
      · rcases ih hline with hread | hrest
        · rcases List.mem_cons.mp hread with rfl | hread
          · exact Or.inr List.mem_cons_self
          · exact Or.inl hread
        · exact Or.inr (List.mem_cons_of_mem d hrest)

theorem mem_of_mem_textLines {c : Char} (hline : line ∈ textLines src) (hc : c ∈ line) : c ∈ src := by
  rcases mem_of_mem_linesFrom hline hc with hnil | hsrc
  · cases hnil
  · exact List.takeWhile_subset _ hsrc

end Tle.Html
