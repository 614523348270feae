import Tle.Web.Handler
import Tle.Web.Site

/-!
# The GET requests of `web.c`

The last call of `ahc_echo` for a GET request, with the tables it reads under the lock.
-/

namespace Tle.Web
open Tle.Lib Tle.Html

structure GetRequest extends Request where
  url : Text := "/".toList
  /-- `*upload_data_size` -/
  uploadSize : Nat := 0
  id : Option Text := none
  from_ : Option Text := none
  count : Option Text := none
  user : Option Text := none
  task : Option Text := none
  verdict : Option Text := none
  mine : Option Text := none
  q : Option Text := none
  state : Option Text := none
  showSolved : Option Text := none

/-- What a call finds besides the request and the tables of the tasks and the submissions. -/
structure Surroundings where
  answers : Answers := {}
  fetch_ok : Bool := true
  validity_ok : Bool := true
  /-- `read_file_binary` -/
  files : Text → Option Text := fun _ => none
  sum : List Rat → Rat := List.sum
  now : Option ServerTime := none
  /-- whether a certificate has been loaded -/
  tls : Bool := false

/-- The request carries the password of the administrator. -/
def CarriesAdminPassword (server : Server) (a : Answers) (r : Request) : Prop :=
  (authenticate a r).password ≠ [] ∧ server.adminPassword = some (authenticate a r).password

/-! ## Numbers and names -/

/-- `strtoul(s, &endptr, 10)`, when it converts the whole string and leaves `errno` alone. -/
def strtoulChecked (s : Text) : Option Nat :=
  if (scanInt s).any (2 ^ 64 ≤ ·.natAbs) then none else strtoulWhole s

/-- `strrchr(s, '.')` -/
def lastDot (s : Text) : Option Text := s.tails.reverse.find? (·.head? = some '.')

def getContentType (path : Text) : String :=
  if lastDot path = some ".pdf".toList then "application/pdf"
  else if lastDot path = some ".txt".toList then "text/plain"
  else "application/octet-stream"

def taskPath (task : TaskData) : Text := "./tasks/".toList ++ task.name ++ '/' :: task.desc

/-- The parameter `pk`, as the statements are given it. -/
def pkOf (pkText : Text) : BitVec 32 := BitVec.ofNat 32 (strtoul pkText)

/-! ## Replies -/

/-- `basic_response_sds` with the status 200 -/
def htmlResponse (html : Out) : Reply :=
  .response 200 (safetyHeaders ++ [("Content-Type", "text/html; charset=utf-8".toList)])
    (String.ofList html.bytes)

def faviconSvg : String :=
  "<svg xmlns=\"http://www.w3.org/2000/svg\" viewBox=\"0 0 64 64\" role=\"img\" aria-labelledby=\"title\">" ++
  "<title>tle</title><rect width=\"64\" height=\"64\" fill=\"#111\"/>" ++
  "<path d=\"m16 17 15 15-15 15M37 47h12\" fill=\"none\" stroke=\"#fff\" stroke-linecap=\"square\" " ++
  "stroke-width=\"5\"/>" ++
  "</svg>"

def favicon : Reply := .response 200 (safetyHeaders ++ [("Content-Type", "image/svg+xml".toList)]) faviconSvg

/-! ## The pages -/

inductive GetPage where
  | frontpage
  | submissions
  | leaderboard
  | submission
  | viewCode
  | tasks
  | task
  | desc
  | descFile
  | submit
  | register
  | login
  | logout
  | admin
  deriving DecidableEq

def GetPage.named (page : Text) : Option GetPage :=
  if page = "frontpage".toList then some frontpage
  else if page = "submissions".toList then some submissions
  else if page = "leaderboard".toList then some leaderboard
  else if page = "submission".toList then some submission
  else if page = "view_code".toList then some viewCode
  else if page = "tasks".toList then some tasks
  else if page = "task".toList then some task
  else if page = "desc".toList then some desc
  else if page = "desc_file".toList then some descFile
  else if page = "submit".toList then some submit
  else if page = "register".toList then some register
  else if page = "login".toList then some login
  else if page = "logout".toList then some logout
  else if page = "admin".toList then some admin
  else none

/-- The page of a request; without the parameter it is the front page. -/
def GetRequest.pageNamed (r : GetRequest) : Option GetPage :=
  GetPage.named (r.page.getD "frontpage".toList)

namespace Site

variable (d : Site) (env : Surroundings) (r : GetRequest) (auth : Auth)

def view (v : View) : Reply := htmlResponse (v.page (some auth.username) env.now)

def csrfField : Option Text := if auth.sessionAuthenticated then some auth.csrfToken else none

def viewer : Int := if auth.authFail then -1 else auth.userId

/-! ### Lists -/

def frontpage : Reply :=
  match d.fetchTasks env.fetch_ok (viewer auth) (some "1".toList) with
  | none => responseInternalServerError
  | some items => view env auth (.frontPage items)

def verdictNames : List Text :=
  ["accepted", "wrong_answer", "time_limit", "memory_limit", "runtime_error", "compilation_error",
    "internal_error", "queued", "grading"].map String.toList

/-- The parameter `task`: 0 selects all. -/
def taskFilter (task : Option Text) : Option Nat :=
  if task.getD [] = [] then some 0
  else (strtoulChecked (task.getD [])).filter fun parsed => parsed ≠ 0 ∧ parsed < 2 ^ 32

def countNumber (count : Option Text) : Option Nat :=
  match count with
  | none => some 20
  | some count =>
      if isOneOf ["20".toList, "50".toList, "100".toList] count then some (strtoul count) else none

def fromNumber (from_ : Option Text) : Option Nat :=
  match from_ with
  | none => some (2 ^ 32 - 1)
  | some from_ => (strtoulChecked from_).map (· % 2 ^ 32)

def submissionsPage : Reply :=
  if r.mine.isSome && auth.authFail then responseNotFound
  else
    let userFilter := if r.mine.isSome then some auth.username else r.user
    let known := r.verdict.getD [] = [] || isOneOf verdictNames (r.verdict.getD [])
    match taskFilter r.task, known, countNumber r.count, fromNumber r.from_ with
    | some taskNumber, true, some count, some from_ =>
        match d.fetchSubmissions env.fetch_ok from_ count userFilter taskNumber r.verdict with
        | none => responseInternalServerError
        | some (rows, lastId) => view env auth (.submissionList rows lastId)
    | _, _, _, _ => responseNotFound

def leaderboardPage : Reply :=
  match d.fetchLeaderboard env.fetch_ok env.sum with
  | none => responseInternalServerError
  | some rows => view env auth (.leaderboard rows)

def stateNames : List Text := ["", "solved", "tried", "bookmarked"].map String.toList

def tasksPage : Reply :=
  if r.showSolved.any (!isOneOf ["0".toList, "1".toList] ·) then responseNotFound
  else if r.state.any (!isOneOf stateNames ·) then responseNotFound
  else
    match d.fetchTasksFiltered env.fetch_ok (viewer auth) r.showSolved r.q r.state with
    | none => responseInternalServerError
    | some items => view env auth (.taskList items (csrfField auth))

/-! ### Submissions -/

def detailId (id : Option Text) : Option (BitVec 32) :=
  ((id.bind strtoulChecked).map (BitVec.ofNat 32)).filter (· ≠ 0)

def submissionPage : Reply :=
  match (detailId r.id).bind (d.fetchSubmissionDetail env.fetch_ok) with
  | none => responseNotFound
  | some submission => view env auth (.submissionDetail submission)

def viewCodePage : Reply :=
  match r.id with
  | none => .refused
  | some idText =>
      match d.fetchSubmissionCodeById env.fetch_ok (pkOf idText) with
      | none => basicResponse "<h1>code is not public or missing(sad)</h1>" 404
      | some code => view env auth (.code (pkOf idText).toNat (some code))

/-! ### Tasks -/

def taskPage : Reply :=
  match r.pk with
  | none => .refused
  | some pkText =>
      match d.fetchTaskByPk env.fetch_ok (pkOf pkText) with
      | none => .refused
      | some task =>
          if !Tasks.validDescriptionName task.desc then responseNotFound
          else
            let statementPdf : Bool := lastDot task.desc = some ".pdf".toList
            let statement := if statementPdf then none else env.files (taskPath task)
            view env auth (.task task.toTask statement statementPdf)

/-- The pages `desc` and `desc_file`. -/
def descPage (rawFile : Bool) : Reply :=
  match r.pk with
  | none => .refused
  | some pkText =>
      match d.fetchTaskByPk env.fetch_ok (pkOf pkText) with
      | none => .refused
      | some task =>
          if !Tasks.validDescriptionName task.desc then responseNotFound
          else
            match env.files (taskPath task) with
            | none => responseInternalServerError
            | some content =>
                if rawFile then
                  .response 200 (safetyHeaders ++ [("Content-Type", (getContentType (taskPath task)).toList),
                    ("Content-Disposition", "inline".toList)]) (String.ofList content)
                else if lastDot task.desc = some ".pdf".toList then view env auth (.pdfStatement task.toTask)
                else view env auth (.statement task.toTask (some content))

def submitPage : Reply :=
  match r.pk with
  | none => .refused
  | some pkText =>
      let pk := pkOf pkText
      let taskValidity := d.checkTaskPkValidity env.validity_ok pk
      if taskValidity = 0 then responseNotFound
      else if taskValidity = -1 then responseInternalServerError
      else
        match d.fetchTaskByPk env.fetch_ok pk with
        | none => responseInternalServerError
        | some task =>
            view env auth (.submit (some task.name) pk.toNat (csrfField auth)
              (task.comparison = "output_only".toList))

/-! ### Accounts -/

def clearedCookie : String :=
  "tle_session=; Max-Age=0; Path=/; HttpOnly; SameSite=Lax" ++ if env.tls then "; Secure" else ""

def logoutReply (server : Server) : Reply :=
  .response 302 [("Location", server.baseUrl), ("Set-Cookie", (clearedCookie env).toList)] ""

def adminPage (server : Server) : Reply :=
  if server.adminPassword.getD [] = [] ∨ some auth.password ≠ server.adminPassword then
    .basicAuthFail "realm" "access denied"
  else
    match d.fetchAdminTasks env.fetch_ok with
    | none => responseInternalServerError
    | some items => view env auth (.admin items)

/-! ## `ahc_echo` -/

/-- The reply, and for `logout` the token whose session is deleted. -/
def get (server : Server) : Reply × Option Text :=
  let auth := authenticate env.answers r.toRequest
  if r.url = "/favicon.svg".toList then (favicon, none)
  else if r.uploadSize ≠ 0 then (.refused, none)
  else match r.pageNamed with
  | some .frontpage => (d.frontpage env auth, none)
  | some .submissions => (d.submissionsPage env r auth, none)
  | some .leaderboard => (d.leaderboardPage env auth, none)
  | some .submission => (d.submissionPage env r auth, none)
  | some .viewCode => (d.viewCodePage env r auth, none)
  | some .tasks => (d.tasksPage env r auth, none)
  | some .task => (d.taskPage env r auth, none)
  | some .desc => (d.descPage env r auth false, none)
  | some .descFile => (d.descPage env r auth true, none)
  | some .submit => (d.submitPage env r auth, none)
  | some .register => (view env auth .register, none)
  | some .login => (view env auth .login, none)
  | some .logout => (logoutReply env server, cookieValue r.cookie "tle_session".toList 65)
  | some .admin => (d.adminPage env auth server, none)
  | none => (responseNotFound, none)

end Site

end Tle.Web
