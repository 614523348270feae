import Tle.Html.Markdown
import Tle.Sds.Strings

/-!
# What `html.c` does with the strings of `sds.c`
-/

namespace Tle.Sds
open Tle.Lib Tle.Lib.Comp

variable (m : Allocator)

/-- `html_escape_text(out, text)`; a call appends each byte, or its reference. -/
def htmlEscapeText (out : Option Sdshdr) (text : Option Text) : Comp Ledger (Option Sdshdr) :=
  match text with
  | none => pure out
  | some text => (cstr text).foldlM (fun out c => Append.run m out (.cat (Html.escapeChar c))) out

/-- `while (sdslen(next) && next[sdslen(next) - 1] == '\r') sdsIncrLen(next, -1);` -/
def trimReturn (next : Sdshdr) : Comp Ledger (Round Sdshdr Sdshdr) :=
  if sdslen next = 0 then pure (.done next)
  else
    match next.buf[sdslen next - 1]? with
    | none => undefined
    | some c =>
        if c = '\r' then do
          let next ← sdsIncrLen next
          return .next next
        else pure (.done next)

/-- What follows the end of the line, if its newline is there. -/
def nextLine (rest : Option Text) : Option Text :=
  match rest.map cstr with
  | some (_ :: start) => some (start.takeWhile (· ≠ '\n'))
  | _ => none

/-- `next_line_is_table_separator(end)`; `rest` is the text from `end` on, unless that is null. -/
def nextLineIsTableSeparator (rest : Option Text) : Comp Ledger Bool :=
  match nextLine rest with
  | none => pure false
  | some line => do
      match ← sdsnewlen m (some line) line.length with
      | none => undefined
      | some next =>
          let next ← loop (line.length + 1) trimReturn next
          let result := Html.tableSeparator (cstr next.buf)
          sdsfree (some next)
          return result

end Tle.Sds
