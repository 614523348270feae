import Mathlib.Data.List.DropRight
import Tle.Html.Page

/-!
# `html_markdown`

The five flags and what each line appends. The loop that is to strip `'\r'` looks at the terminator of
the line and never strips.
-/

namespace Tle.Html
open Tle.Lib

/-! ## Kinds of lines -/

def isBlank (c : Char) : Bool := c = ' ' || c = '\t'

def lineIsBlank (line : Text) : Bool := line.all isBlank

def tableRow (line : Text) : Bool :=
  let trimmed := line.rdropWhile isBlank
  line.head? = some '|' && trimmed.length > 1 && trimmed.getLast? = some '|'

def tableSeparator (line : Text) : Bool :=
  tableRow line && line.all (fun c => c = '-' || c = '|' || c = ':' || isBlank c) && line.any (· = '-')

/-- `next` is the line that follows, if one does. -/
def nextLineIsTableSeparator (next : Option Text) : Bool :=
  match next with
  | none => false
  | some line => tableSeparator (line.rdropWhile (· = '\r'))

def isFence (line : Text) : Bool := line = "```".toList || strncmpEq line "```".toList 3

def opensMath (line : Text) : Bool := line = "\\[".toList || line = "$$".toList

def closesMath (line : Text) : Bool := line = "\\]".toList || line = "$$".toList

/-! ## One row -/

def tableCells (line : Text) : List Text :=
  let body := line.tail
  let inner := if body.getLast? = some '|' then body.dropLast else body
  inner.splitOnP (· = '|')

def appendTableRow (line : Text) (header : Bool) : Out :=
  [.fixed "<tr>"] ++
  (tableCells line).flatMap (fun cell =>
    [.fixed (if header then "<th>" else "<td>"), .escaped ((cell.dropWhile isBlank).rdropWhile isBlank),
      .fixed (if header then "</th>" else "</td>")]) ++
  [.fixed "</tr>"]

def markdownInline (text : Text) : Piece := .escaped text

/-! ## One line -/

structure Flags where
  inCode : Bool
  inList : Bool
  inParagraph : Bool
  inMathBlock : Bool
  inTable : Bool
  deriving DecidableEq

def Flags.init : Flags where
  inCode := false
  inList := false
  inParagraph := false
  inMathBlock := false
  inTable := false

def when (p : Bool) (text : String) : Out := if p then [.fixed text] else []

def closeParagraph (f : Flags) : Out := when f.inParagraph "</p>"

def closeList (f : Flags) : Out := when f.inList "</ul>"

/-- The last branch, after headings and bullets. -/
def appendParagraph (f : Flags) (content : Text) : Out :=
  let math := strncmpEq content "$$".toList 2 || strncmpEq content "\\[".toList 2
  closeList f ++ [.fixed (if f.inParagraph then "<br>" else "<p>")] ++
    when math "<span class=\"math-block\">" ++ [markdownInline content] ++ when math "</span>"

/-- A line that is neither math, code nor table. -/
def appendText (f : Flags) (line : Text) : Flags × Out :=
  let heading := (line.takeWhile (· = '#')).length
  let content := line.dropWhile (· = '#')
  if 0 < heading ∧ heading ≤ 3 ∧ content.head? = some ' ' then
    ({ f with inParagraph := false, inList := false },
      closeParagraph f ++ closeList f ++ [.fixed "<h", number heading, .fixed ">",
        markdownInline (content.dropWhile (· = ' ')), .fixed "</h", number heading, .fixed ">"])
  else if (content.head? = some '-' ∨ content.head? = some '*') ∧ content[1]? = some ' ' then
    ({ f with inParagraph := false, inList := true },
      closeParagraph f ++ when (!f.inList) "<ul>" ++
        [.fixed "<li>", markdownInline (content.drop 2), .fixed "</li>"])
  else ({ f with inList := false, inParagraph := true }, appendParagraph f content)

/-- A table ends at the first line that is no row. -/
def closeTable (f : Flags) (line : Text) : Flags × Out :=
  if f.inTable && !tableRow line then ({ f with inTable := false }, [.fixed "</tbody></table>"])
  else (f, [])

/-- The chain of branches after it. -/
def appendBlock (f : Flags) (line : Text) (next : Option Text) : Flags × Out :=
  if f.inMathBlock then
    ({ f with inMathBlock := !closesMath line },
      [markdownInline line, .fixed "\n"] ++ when (closesMath line) "</div>")
  else if opensMath line then
    ({ f with inParagraph := false, inList := false, inMathBlock := true },
      closeParagraph f ++ closeList f ++
        [.fixed "<div class=\"math-block\">", markdownInline line, .fixed "\n"])
  else if isFence line then
    ({ f with inParagraph := false, inList := false, inCode := !f.inCode },
      closeParagraph f ++ closeList f ++ [.fixed (if f.inCode then "</code></pre>" else "<pre><code>")])
  else if f.inCode then (f, [markdownInline line, .fixed "\n"])
  else if lineIsBlank line then
    ({ f with inParagraph := false, inList := false }, closeParagraph f ++ closeList f)
  else if tableRow line ∧ !f.inTable ∧ nextLineIsTableSeparator next then
    ({ f with inParagraph := false, inList := false, inTable := true },
      closeParagraph f ++ closeList f ++ [.fixed "<table><thead>"] ++ appendTableRow line true ++
        [.fixed "</thead><tbody>"])
  else if f.inTable ∧ tableRow line then (f, if tableSeparator line then [] else appendTableRow line false)
  else appendText f line

def appendLine (f : Flags) (line : Text) (next : Option Text) : Flags × Out :=
  let (f, closed) := closeTable f line
  let (f, block) := appendBlock f line next
  (f, closed ++ block)

/-! ## The whole text -/

/-- The lines of a text, with what is read of the current one reversed. -/
def linesFrom (line : Text) : Text → List Text
  | [] => if line = [] then [] else [line.reverse]
  | c :: s => if c = '\n' then line.reverse :: linesFrom [] s else linesFrom (c :: line) s

def textLines (text : Text) : List Text := linesFrom [] (cstr text)

/-- The loop over the lines. -/
def appendLines (f : Flags) : List Text → Flags × Out
  | [] => (f, [])
  | line :: rest =>
      let (f, out) := appendLine f line rest.head?
      let (f, later) := appendLines f rest
      (f, out ++ later)

/-- What is still open is closed in this order. -/
def closeAll (f : Flags) : Out :=
  closeParagraph f ++ closeList f ++ when f.inTable "</tbody></table>" ++ when f.inCode "</code></pre>" ++
    when f.inMathBlock "</div>"

def htmlMarkdown (text : Option Text) : Out :=
  let (f, out) := appendLines .init (textLines (text.getD []))
  out ++ closeAll f

example : (htmlMarkdown (some "# A & B\n|x|y|\n|-|-|\n|1||\n- z".toList)).bytes =
    ("<h1>A &amp; B</h1><table><thead><tr><th>x</th><th>y</th></tr></thead><tbody>" ++
      "<tr><td>1</td><td></td></tr></tbody></table><ul><li>z</li></ul>").toList := by
  decide +kernel

end Tle.Html
