import Tle.Lib.Double

/-!
# Building a page

A page is a list of pieces, one for each append to `out`; a builder is the list it appends. Texts of the
program keep the code points of their literals.
-/

namespace Tle.Html
open Tle.Lib

def escapeChar : Char → Text
  | '&' => "&amp;".toList
  | '<' => "&lt;".toList
  | '>' => "&gt;".toList
  | '"' => "&quot;".toList
  | '\'' => "&#x27;".toList
  | c => [c]

def htmlEscapeText (text : Text) : Text := (cstr text).flatMap escapeChar

inductive Piece where
  /-- a text of the program -/
  | fixed (text : String)
  /-- a value under `html_escape_text` -/
  | escaped (value : Text)
  /-- a value as it is: `sdscat`, or a conversion of `sdscatprintf` -/
  | plain (value : Text)
  deriving DecidableEq

def Piece.bytes : Piece → Text
  | fixed text => text.toList
  | escaped value => htmlEscapeText value
  | plain value => cstr value

abbrev Out := List Piece

def Out.bytes (out : Out) : Text := out.flatMap Piece.bytes

def number (n : Nat) : Piece := .plain (formatUnsigned n)

/-! ## Header and footer -/

/-- The page starts with the title and this style sheet. -/
def styleSheet : String :=
  "</title><style>" ++
  ":root\x7bcolor-scheme:light;--ink:#111;--muted:#666;--line:#cfcfcf;--paper:#fff;" ++
  "--wash:#f6f6f3\x7d" ++
  "*\x7bbox-sizing:border-box\x7d" ++
  "body\x7bfont-family:sans-serif;max-width:64rem;margin:0 auto;padding:0 1.25rem;" ++
  "line-height:1.5;color:var(--ink);background:var(--wash)\x7d" ++
  "header\x7bpadding:1.25rem 0;border-bottom:1px solid var(--ink);margin-bottom:2rem\x7d" ++
  "nav ul\x7blist-style:none;display:flex;flex-wrap:wrap;align-items:center;gap:.5rem;margin:0;" ++
  "padding:0\x7d" ++
  "nav li:first-child\x7bmargin-right:auto;font-weight:600\x7d" ++
  "nav a,.button\x7bdisplay:inline-block;padding:.35rem .65rem;border:1px solid var(--ink);" ++
  "border-radius:0;color:var(--ink);background:var(--paper);text-decoration:none\x7d" ++
  "nav a:hover,.button:hover,button:hover\x7bcolor:var(--paper);background:var(--ink)\x7d" ++
  "a\x7bcolor:var(--ink);text-decoration-thickness:1px;text-underline-offset:.15em\x7d" ++
  "h1\x7bfont-size:1.7rem;line-height:1.2;margin:0 0 1.25rem\x7dh2\x7bfont-size:1.15rem;" ++
  "margin-top:2rem\x7d" ++
  "p\x7bmargin:0 0 1rem\x7d.actions\x7bdisplay:flex;flex-wrap:wrap;gap:.5rem;margin:1.25rem 0\x7d" ++
  ".inline-form\x7bdisplay:inline;margin:0;padding:0;border:0;background:none\x7d" ++
  ".inline-form button\x7bmin-height:1.8rem;padding:.15rem .45rem\x7d" ++
  ".hint\x7bpadding:.75rem 1rem;border-left:2px solid var(--ink);color:var(--muted);" ++
  "background:#fafafa\x7d" ++
  "table\x7bwidth:100%;border-collapse:collapse;background:var(--paper);margin:1.25rem 0 1.5rem\x7d" ++
  "th,td\x7bpadding:.65rem .75rem;text-align:left;border-bottom:1px solid var(--line);" ++
  "vertical-align:top\x7d" ++
  "th\x7bfont-size:.8rem;text-transform:uppercase;letter-spacing:.04em;color:var(--muted);" ++
  "font-weight:600\x7d" ++
  "tbody tr:hover\x7bbackground:#fafafa\x7d" ++
  "form\x7bdisplay:flex;flex-wrap:wrap;align-items:flex-end;gap:.85rem;padding:1rem;" ++
  "margin:1.25rem 0;background:var(--paper);border:1px solid var(--line)\x7d" ++
  "label\x7bdisplay:flex;flex-direction:column;gap:.25rem;font-size:.9rem\x7d" ++
  "label:has(input[type=checkbox])\x7bflex-direction:row;align-items:center;" ++
  "margin-bottom:.45rem\x7d" ++
  "input,textarea,select\x7bfont:inherit;min-height:2.2rem;padding:.35rem .5rem;" ++
  "border:1px solid var(--ink);border-radius:0;background:var(--paper);color:var(--ink)\x7d" ++
  "textarea\x7bresize:vertical;min-height:7rem;max-height:70vh\x7d" ++
  "input[type=checkbox]\x7bmin-height:0;accent-color:var(--ink)\x7d" ++
  "button\x7bfont:inherit;min-height:2.2rem;padding:.35rem .75rem;border:1px solid var(--ink);" ++
  "border-radius:0;background:var(--ink);color:var(--paper);cursor:pointer\x7d" ++
  "pre\x7boverflow:auto;padding:1rem;border:1px solid var(--line);background:var(--paper)\x7d" ++
  "dl\x7bdisplay:grid;grid-template-columns:max-content 1fr;gap:.45rem 1.5rem;padding:1rem;" ++
  "background:var(--paper);border:1px solid var(--line)\x7d" ++
  "dt\x7bfont-weight:600;color:var(--muted)\x7ddd\x7bmargin:0\x7d" ++
  "footer\x7bmargin-top:3rem;padding:1rem 0;border-top:1px solid var(--line);" ++
  "color:var(--muted);font-size:.85rem\x7d" ++
  ".statement\x7bmax-width:52rem;background:var(--paper);padding:1.5rem 2rem;" ++
  "border:1px solid var(--line)\x7d" ++
  ".statement h1,.statement h2,.statement h3\x7bmargin-top:1.5rem\x7d" ++
  ".statement h1:first-child\x7bmargin-top:0\x7d" ++
  ".statement ul\x7bpadding-left:1.5rem\x7d.statement code\x7bpadding:.1rem .25rem;" ++
  "background:var(--wash)\x7d" ++
  ".statement pre\x7bwhite-space:pre-wrap\x7d.statement-frame\x7bwidth:100%;height:75vh;" ++
  "border:1px solid var(--line);background:var(--paper)\x7d" ++
  ".math-block\x7btext-align:center;overflow:auto;margin:1rem 0\x7d" ++
  "</style></head><body>"

def htmlPageHeader (username : Option Text) (title : Option String) : Out :=
  let signedIn := username.filter (cstr · ≠ [])
  [.fixed "<!doctype html><html lang=\"en\"><head><meta charset=\"utf-8\">",
    .fixed "<link rel=\"icon\" href=\"/favicon.svg\" type=\"image/svg+xml\">",
    .fixed "<meta name=\"viewport\" content=\"width=device-width, initial-scale=1\">",
    .fixed "<title>", .escaped (title.getD "tle grader").toList, .fixed styleSheet, .fixed "<header><nav><ul>"] ++
  (match signedIn with
    | some name => [.fixed "<li>hello ", .escaped name, .fixed "</li>"]
    | none => []) ++
  [.fixed ("<li><a href=\"/\">frontpage</a></li>" ++
    "<li><a href=\"?page=tasks\">tasks</a></li>" ++
    "<li><a href=\"?page=submissions\">submissions</a></li>" ++
    "<li><a href=\"?page=leaderboard\">leaderboard</a></li>"),
    .fixed (if signedIn.isSome then "<li><a href=\"?page=logout\">logout</a></li>"
      else "<li><a href=\"?page=register\">register</a></li><li><a href=\"?page=login\">login</a></li>"),
    .fixed "</ul></nav></header><main>"]

/-- The fields of `localtime` that are printed. -/
structure ServerTime where
  mon : Nat
  mday : Nat
  year : Nat
  hour : Nat
  min : Nat

/-- `strftime` in the C locale with `%x %I:%M%p`. -/
def ServerTime.format (t : ServerTime) : Text :=
  let two (n : Nat) := zeroPad 2 (formatUnsigned n)
  two (t.mon + 1) ++ '/' :: two t.mday ++ '/' :: two (t.year % 100) ++ ' ' ::
    two (if t.hour % 12 = 0 then 12 else t.hour % 12) ++ ':' :: two t.min ++
    (if t.hour < 12 then "AM".toList else "PM".toList)

def htmlPageFooter (now : Option ServerTime) : Out :=
  [.fixed "</main><footer><p>"] ++
  (match now with
    | some t => [.fixed "server time — ", .plain t.format]
    | none => []) ++
  [.fixed ("</p><p>For problems or task submissions, contact the administrator.</p>" ++
    "</footer></body></html>")]

end Tle.Html
