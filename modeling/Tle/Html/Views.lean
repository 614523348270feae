import Tle.Html.Markdown

/-!
# The pages

The records hold the fields that the pages print.
-/

namespace Tle.Html
open Tle.Lib

def frontPage : String := "hello!"

def maxCodeBytes : Nat := 86860

/-! ## Records -/

structure Task where
  name : Text
  pk : Nat
  memoryLimit : Nat
  timeLimit : Nat
  submissionCount : Nat
  acceptedCount : Nat

structure TaskListItem where
  pk : Nat
  name : Text
  solved : Bool
  tried : Bool
  bookmarked : Bool

structure SubmissionRow where
  submissionId : Nat
  timeUsed : Nat
  memoryUsed : Nat
  username : Text
  taskName : Text
  verdict : Text
  subtaskResults : Text
  submissionTime : Text
  score : Double

structure AdminTaskItem where
  pk : Nat
  name : Text
  hidden : Bool

structure SubmissionDetail where
  submissionId : Nat
  timeUsed : Nat
  memoryUsed : Nat
  score : Double
  isPublic : Bool
  failedCase : Int
  username : Text
  taskName : Text
  verdict : Text
  verdictMessage : Text
  subtaskResults : Text
  compilerOutput : Text
  submissionTime : Text

structure LeaderboardRow where
  username : Text
  solved : Int
  totalScore : Double

/-! ## Parts of pages -/

def escapedOr (text : Option Text) : Out := text.elim [] fun text => [.escaped text]

def isSignedIn (username : Option Text) : Bool := username.any (cstr · ≠ [])

def score (s : Double) : Piece := .plain (formatFixed 0 2 s)

def compactSubmissionStatus (row : SubmissionRow) : Out :=
  let code :=
    if cstr row.verdict = "accepted".toList then "AC"
    else if cstr row.verdict = "wrong_answer".toList then "WA"
    else if cstr row.verdict = "compilation_error".toList then "CE"
    else if cstr row.verdict = "time_limit".toList then "TL"
    else if cstr row.verdict = "memory_limit".toList then "ML"
    else if cstr row.verdict = "runtime_error".toList then "RE"
    else if cstr row.verdict = "internal_error".toList then "IE"
    else ".."
  if cstr row.subtaskResults ≠ [] then [.plain row.subtaskResults]
  else
    [.fixed "[", .fixed code, .fixed "][P", .plain (formatFixed 3 0 row.score), .fixed "][T",
      .plain (zeroPad 4 (formatUnsigned row.timeUsed)), .fixed "][X",
      .plain (zeroPad 4 (formatUnsigned row.memoryUsed)), .fixed "]"]

def taskListTable (items : List TaskListItem) : Out :=
  [.fixed "<table><thead><tr><th></th><th>ID</th><th>Name</th></tr></thead><tbody>"] ++
  items.flatMap (fun item =>
    [.fixed "<tr><td>", .fixed (if item.solved then "✓" else ""), .fixed "</td><td>", number item.pk,
      .fixed "</td><td><a href=\"?page=task&amp;pk=", number item.pk, .fixed "\">", .escaped item.name,
      .fixed "</a></td></tr>"]) ++
  [.fixed "</tbody></table>"]

/-- The style sheet and the scripts for formulas. -/
def mathStyle : String :=
  "<link rel=\"stylesheet\" href=\"https://cdn.jsdelivr.net/npm/katex@0.16.11/dist/katex.min.css\">"

def mathScript : String :=
  "</article><script defer src=\"https://cdn.jsdelivr.net/npm/katex@0.16.11/dist/katex.min.js\"></script>" ++
  "<script defer src=\"https://cdn.jsdelivr.net/npm/katex@0.16.11/dist/contrib/auto-render.min.js\"></script>" ++
  "<script>window.addEventListener('load',function()\x7bif(typeof renderMathInElement==='function')" ++
  "renderMathInElement(document.querySelector('.statement'),\x7bdelimiters:[" ++
  "\x7bleft:'$$',right:'$$',display:true\x7d,\x7bleft:'\\\\[',right:'\\\\]',display:true\x7d," ++
  "\x7bleft:'\\\\(',right:'\\\\)',display:false\x7d,\x7bleft:'$',right:'$',display:false\x7d]\x7d);\x7d);</script>"

def statementFrame (pk : Nat) : Out :=
  [.fixed "<iframe class=\"statement-frame\" title=\"Task statement\" src=\"?page=desc_file&amp;pk=",
    number pk, .fixed "\"></iframe>"]

/-! ## The views -/

def viewFrontPage (items : List TaskListItem) : Out :=
  [.fixed "<h1>tle grader</h1>", .fixed frontPage] ++ taskListTable items ++
    [.fixed "<p><a href=\"?page=tasks\">All tasks &rarr;</a></p>"]

def bookmarkForm (item : TaskListItem) (csrf : Option Text) : Out :=
  [.fixed "<form class=\"inline-form\" action=\"?page=bookmark&amp;pk=", number item.pk,
    .fixed "\" method=\"post\"><input type=\"hidden\" name=\"csrf\" value=\"", .plain (csrf.getD []),
    .fixed "\"><button type=\"submit\">", .fixed (if item.bookmarked then "★" else "☆"),
    .fixed "</button></form>"]

def viewTaskList (username : Option Text) (items : List TaskListItem) (csrf : Option Text) : Out :=
  [.fixed ("<form method=\"get\"><input type=\"hidden\" name=\"page\" value=\"tasks\">" ++
      "<label>Search <input name=\"q\" placeholder=\"task name\"></label>" ++
      "<label>Show <select name=\"state\"><option value=\"\">all tasks</option>" ++
      "<option value=\"solved\">solved</option><option value=\"tried\">tried but unsolved</option>" ++
      "<option value=\"bookmarked\">bookmarked</option></select></label>" ++
      "<button type=\"submit\">Filter</button></form>"),
    .fixed "<table><thead><tr><th></th><th>ID</th><th>Task</th><th></th></tr></thead><tbody>"] ++
  items.flatMap (fun item =>
    [.fixed "<tr><td>", .fixed (if item.solved then "✓" else if item.tried then "·" else ""),
      .fixed "</td><td>", number item.pk, .fixed "</td><td><a href=\"?page=task&amp;pk=", number item.pk,
      .fixed "\">", .escaped item.name, .fixed "</a></td><td>"] ++
    (if isSignedIn username then bookmarkForm item csrf else []) ++ [.fixed "</td></tr>"]) ++
  [.fixed "</tbody></table>"]

def viewSubmissionList (rows : List SubmissionRow) (lastId : Nat) : Out :=
  [.fixed ("<form method=\"get\"><input type=\"hidden\" name=\"page\" value=\"submissions\">" ++
      "<label>User <input name=\"user\"></label>" ++
      "<label>Task <input name=\"task\" type=\"number\" min=\"1\"></label>" ++
      "<label>Verdict <input name=\"verdict\"></label>" ++
      "<label><input type=\"checkbox\" name=\"mine\"> My submissions</label>" ++
      "<button type=\"submit\">Filter</button></form>"),
    .fixed ("<table><thead><tr><th>id</th><th>submission time</th>" ++
      "<th>username</th><th>task</th><th>verdict</th>" ++
      "<th>score</th><th>time used (ms)</th><th>memory used (kib)</th></tr></thead><tbody>")] ++
  rows.flatMap (fun row =>
    [.fixed "<tr><td><a href=\"?page=submission&amp;id=", number row.submissionId, .fixed "\">",
      number row.submissionId, .fixed "</a></td>", .fixed "<td>", .escaped row.submissionTime,
      .fixed "</td><td>", .escaped row.username, .fixed "</td><td>", .escaped row.taskName,
      .fixed "</td><td>"] ++ compactSubmissionStatus row ++
    [.fixed "</td><td>", score row.score, .fixed "</td><td>", number row.timeUsed, .fixed "</td><td>",
      number row.memoryUsed, .fixed "</td></tr>"]) ++
  [.fixed "</tbody></table><p class=\"actions\">Show ",
    .fixed "<a class=\"button\" href=\"?page=submissions&amp;count=20\">20</a> ",
    .fixed "<a class=\"button\" href=\"?page=submissions&amp;count=50\">50</a> ",
    .fixed "<a class=\"button\" href=\"?page=submissions&amp;count=100\">100</a> lines</p>"] ++
  if rows = [] then []
  else [.fixed "<a href=\"?page=submissions&amp;from=", number lastId, .fixed "\">Previous page</a>"]

def viewSubmissionDetail (s : SubmissionDetail) : Out :=
  [.fixed "<h1>Submission ", number s.submissionId, .fixed "</h1><dl>", .fixed "<dt>User</dt><dd>",
    .escaped s.username, .fixed "</dd><dt>Task</dt><dd>", .escaped s.taskName,
    .fixed "</dd><dt>Verdict</dt><dd>", .escaped s.verdict] ++
  (if cstr s.verdictMessage ≠ [] ∧ cstr s.verdictMessage ≠ cstr s.verdict then
    [.fixed " — ", .escaped s.verdictMessage] else []) ++
  [.fixed "</dd><dt>Score</dt><dd>", score s.score, .fixed "</dd><dt>Time</dt><dd>", number s.timeUsed,
    .fixed " ms</dd><dt>Memory</dt><dd>", number s.memoryUsed, .fixed " KiB</dd>"] ++
  (if cstr s.subtaskResults ≠ [] then
    [.fixed "<dt>Subtasks</dt><dd><code>", .escaped s.subtaskResults,
      .fixed ("</code><p class=\"hint\">Each bracket is one subtask. A = accepted, W = wrong answer, " ++
        "T = time limit, M = memory limit, R = runtime error, E = judge error.</p></dd>")] else []) ++
  (if 0 ≤ s.failedCase then
    [.fixed "<dt>Failed case</dt><dd>", .plain (formatInt s.failedCase), .fixed "</dd>"] else []) ++
  [.fixed "<dt>Submitted</dt><dd>", .escaped s.submissionTime, .fixed "</dd></dl>"] ++
  (if s.isPublic then
    [.fixed "<p class=\"actions\"><a class=\"button\" href=\"?page=view_code&amp;id=", number s.submissionId,
      .fixed "\">View submitted code</a></p>"] else []) ++
  [.fixed "<form action=\"?page=admin\" method=\"post\"><input type=\"hidden\" name=\"rejudge\" value=\"",
    number s.submissionId, .fixed "\"><button type=\"submit\">Admin rejudge</button></form>"] ++
  if cstr s.compilerOutput ≠ [] then
    [.fixed "<h2>Compiler output</h2><pre><code>", .escaped s.compilerOutput, .fixed "</code></pre>"]
  else []

def viewAdmin (items : List AdminTaskItem) : Out :=
  [.fixed "<table><thead><tr><th>Visibility</th><th>ID</th><th>Name</th></tr></thead><tbody>"] ++
  items.flatMap (fun item =>
    [.fixed ("<tr><td><form action=\"?page=admin\" method=\"post\">" ++
        "<input type=\"hidden\" name=\"toggle_hidden\" value=\""), number item.pk,
      .fixed "\"><button type=\"submit\">", .fixed (if item.hidden then "unhide" else "hide"),
      .fixed "</button></form></td><td>", number item.pk, .fixed "</td><td><a href=\"?page=task&amp;pk=",
      number item.pk, .fixed "\">", .escaped item.name, .fixed "</a></td></tr>"]) ++
  [.fixed "</tbody></table>"]

def viewTask (task : Task) (statement : Option Text) (statementPdf : Bool) : Out :=
  [.fixed "<h1>", .escaped task.name, .fixed "</h1><p>", .fixed mathStyle,
    .fixed " (", number task.memoryLimit, .fixed " kilobytes, ", number task.timeLimit, .fixed " milliseconds)</p><p>Submissions: ",
    number task.submissionCount, .fixed " · Accepted: ", number task.acceptedCount,
    .fixed "</p><p class=\"actions\"><a class=\"button\" href=\"?page=submit&amp;pk=", number task.pk,
    .fixed "\">Submit code</a></p>", .fixed "<h2>Statement</h2>"] ++
  if statementPdf then statementFrame task.pk
  else
    [.fixed "<article class=\"statement\">"] ++
      htmlMarkdown (some (statement.getD "The statement is unavailable.".toList)) ++ [.fixed mathScript]

def viewStatement (task : Task) (markdown : Option Text) : Out :=
  [.fixed mathStyle, .fixed "<h1>", .escaped task.name, .fixed "</h1><article class=\"statement\">"] ++
    htmlMarkdown markdown ++ [.fixed mathScript]

def viewPdfStatement (task : Task) : Out :=
  [.fixed "<h1>", .escaped task.name, .fixed "</h1>"] ++ statementFrame task.pk

/-- The task name is printed by `%s`. -/
def viewSubmit (taskName : Option Text) (taskPk : Nat) (csrf : Option Text) (outputOnly : Bool) : Out :=
  [.fixed "<h1>Submit ", .plain (taskName.getD "task".toList), .fixed "</h1><p>",
    .fixed (if outputOnly then "The output" else "The code"), .fixed " must not be longer than ",
    number maxCodeBytes, .fixed " bytes.</p><form action=\"?page=submit&amp;pk=", number taskPk,
    .fixed ("\" method=\"post\" enctype=\"multipart/form-data\">" ++
      "<input type=\"hidden\" name=\"task_pk\" value=\""), number taskPk,
    .fixed "\"><input type=\"hidden\" name=\"csrf\" value=\"", .plain (csrf.getD []), .fixed "\"><label>",
    .fixed (if outputOnly then "Paste output" else "Paste code"),
    .fixed (" <textarea name=\"code\" rows=\"5\" cols=\"80\"></textarea></label>" ++
      "<p class=\"hint\">Or choose a file instead. Use one submission method at a time.</p>" ++
      "<label>File <input type=\"file\" name=\"file\" accept=\".c,.cpp,.txt,.out\"></label>" ++
      "<label><input type=\"checkbox\" name=\"is_public\" checked> Make code public</label>" ++
      "<label><input type=\"checkbox\" name=\"is_anonymous\"> Submit anonymously</label>" ++
      "<button type=\"submit\">Upload</button></form>")]

def viewRegister : Out :=
  [.fixed ("<h1>Register</h1><p>Username and password must be less than 32 and 256 bytes.</p>" ++
    "<form action=\"?page=register\" method=\"post\">" ++
    "<label>Username <input type=\"text\" name=\"username\" required></label>" ++
    "<label>Password <input type=\"password\" name=\"password\" required></label>" ++
    "<button type=\"submit\">Register</button></form>")]

def viewLogin : Out :=
  [.fixed ("<h1>Login</h1>" ++
    "<form action=\"?page=login\" method=\"post\">" ++
    "<label>Username <input type=\"text\" name=\"username\" required></label>" ++
    "<label>Password <input type=\"password\" name=\"password\" required></label>" ++
    "<button type=\"submit\">Login</button></form>")]

def viewLeaderboard (rows : List LeaderboardRow) : Out :=
  [.fixed ("<h1>Leaderboard</h1><table><thead><tr>" ++
    "<th>Rank</th><th>User</th><th>Solved</th><th>Total score</th></tr></thead><tbody>")] ++
  rows.zipIdx.flatMap (fun (row, i) =>
    [.fixed "<tr><td>", number (i + 1), .fixed "</td><td>", .escaped row.username, .fixed "</td><td>",
      .plain (formatInt row.solved), .fixed "</td><td>", score row.totalScore, .fixed "</td></tr>"]) ++
  [.fixed "</tbody></table>"]

def viewCode (id : Nat) (code : Option Text) : Out :=
  [.fixed "<h1>Submission ", number id, .fixed "</h1><pre><code>"] ++ escapedOr code ++
    [.fixed "</code></pre>"]

/-- The views, with what each is given besides the user. -/
inductive View where
  | frontPage (items : List TaskListItem)
  | taskList (items : List TaskListItem) (csrf : Option Text)
  | submissionList (rows : List SubmissionRow) (lastId : Nat)
  | submissionDetail (submission : SubmissionDetail)
  | admin (items : List AdminTaskItem)
  | task (task : Task) (statement : Option Text) (statementPdf : Bool)
  | statement (task : Task) (markdown : Option Text)
  | pdfStatement (task : Task)
  | submit (taskName : Option Text) (taskPk : Nat) (csrf : Option Text) (outputOnly : Bool)
  | register
  | login
  | leaderboard (rows : List LeaderboardRow)
  | code (id : Nat) (code : Option Text)

def View.title : View → String
  | frontPage _ => "tle grader"
  | taskList _ _ => "tasks"
  | submissionList _ _ => "submissions"
  | submissionDetail _ => "submission detail"
  | admin _ => "admin page"
  | task _ _ _ => "task"
  | statement _ _ => "task statement"
  | pdfStatement _ => "task statement"
  | submit _ _ _ _ => "submit"
  | register => "register"
  | login => "login"
  | leaderboard _ => "leaderboard"
  | code _ _ => "submission code"

/-- What stands between header and footer. -/
def View.body (username : Option Text) : View → Out
  | frontPage items => viewFrontPage items
  | taskList items csrf => viewTaskList username items csrf
  | submissionList rows lastId => viewSubmissionList rows lastId
  | submissionDetail submission => viewSubmissionDetail submission
  | admin items => viewAdmin items
  | task t text statementPdf => viewTask t text statementPdf
  | statement t markdown => viewStatement t markdown
  | pdfStatement t => viewPdfStatement t
  | submit taskName taskPk csrf outputOnly => viewSubmit taskName taskPk csrf outputOnly
  | register => viewRegister
  | login => viewLogin
  | leaderboard rows => viewLeaderboard rows
  | code id text => viewCode id text

/-- Every view puts its body between `begin` and `end`. -/
def View.page (username : Option Text) (now : Option ServerTime) (v : View) : Out :=
  htmlPageHeader username (some v.title) ++ v.body username ++ htmlPageFooter now

end Tle.Html
