import Tle.Lib.Pointer
import Tle.Web.Get

/-!
# The pointers of `web.c`

`ahc_echo` once more, with the pointers to what a request carries: an argument, a header or a credential that is
absent is a null pointer. The buffers on the stack and in `struct connection_info` are never null.
-/

namespace Tle.Web.Pointers
open Tle.Lib Tle.Queue Tle.Html

/-! ## Headers -/

/-- `base_url`, with what `getenv` returns. -/
def baseUrl (server : Server) : Reads Pointer := do
  if ← Reads.all [.ok server.configuredUrl.isSome, Pointer.nonempty server.configuredUrl] then
    return server.configuredUrl
  else return some defaultUrl

def sameOriginRequest (server : Server) (r : Request) : Reads Bool := do
  let value : Pointer := if r.origin.isSome then r.origin else r.referer
  if value.isNone then return false
  let base ← baseUrl server
  let baseFound ← Pointer.strstr base (some "://".toList)
  let valueFound ← Pointer.strstr value (some "://".toList)
  if baseFound.isNone || valueFound.isNone then return false
  let baseAuthority := Pointer.advance baseFound 3
  let valueAuthority := Pointer.advance valueFound 3
  let baseLen ← Pointer.strcspn baseAuthority '/'
  let valueLen ← Pointer.strcspn valueAuthority '/'
  -- `base_authority - base`
  let schemeLen := (base.getD []).length - (baseAuthority.getD []).length
  Reads.all [.ok (baseLen = valueLen), Pointer.strncmp baseAuthority valueAuthority baseLen,
    Pointer.strncmp base value schemeLen]

def hasLength (s : Pointer) (n : Nat) : Reads Bool := do
  let length ← Pointer.strlen s
  return length = n

def csrfValid (sessionAuthenticated : Bool) (sessionCsrf submittedCsrf : Pointer) : Reads Bool :=
  Reads.all [.ok sessionAuthenticated, .ok sessionCsrf.isSome, .ok submittedCsrf.isSome, hasLength sessionCsrf 64,
    hasLength submittedCsrf 64, Pointer.strcmp sessionCsrf submittedCsrf]

/-- The loop of `cookie_value` from `p` on. -/
def cookieValueFrom (name : Text) (outSize : Nat) : Pointer → Reads (Option Text)
  | none => .error .nullRead
  | some p =>
      if p = [] then .ok none
      else if strncmpEq (skipSeparators p) name name.length ∧ (skipSeparators p)[name.length]? = some '=' then
        let value := ((skipSeparators p).drop (name.length + 1)).takeWhile (· ≠ ';')
        if value = [] ∨ outSize ≤ value.length then .ok none else .ok (some value)
      else
        match _h : (skipSeparators p).dropWhile (· ≠ ';') with
        -- `strchr` has returned a null pointer
        | [] => .ok none
        | c :: rest => cookieValueFrom name outSize (some (c :: rest))
termination_by p => (p.getD []).length
decreasing_by exact length_dropWhile_skipSeparators _h

def cookieValue (cookie : Pointer) (name : Text) (outSize : Nat) : Reads (Option Text) :=
  if cookie.isNone then .ok none else cookieValueFrom name outSize cookie

/-! ## Accounts -/

def isEmpty (s : Pointer) : Reads Bool := do
  let filled ← Pointer.nonempty s
  return !filled

def shorterThan (n : Nat) (s : Pointer) : Reads Bool := do
  let length ← Pointer.strlen s
  return length < n

def longerThan (n : Nat) (s : Pointer) : Reads Bool := do
  let length ← Pointer.strlen s
  return n < length

def sessionLookup (a : Answers) (token : Pointer) : Reads (Option (Int × Text)) := do
  if ← Reads.any [.ok token.isNone, isEmpty token] then return none
  let token ← Pointer.text token
  return Web.sessionLookup a token

/-- What `user_valid_auth` finds in a row: the column `hashed_password`, what `crypt_r` returns and the digest of
`legacy_md5`. -/
structure Stored where
  stored : Pointer := none
  hash : Pointer := none
  computed : Text := []

/-- `secure_equal` starts with the lengths. -/
def secureEqual (a b : Pointer) : Reads Unit := do
  let _ ← Pointer.strlen a
  let _ ← Pointer.strlen b

/-- The comparisons of `user_valid_auth`. -/
def compareStored (s : Stored) : Reads Unit := do
  if ← Reads.all [.ok s.stored.isSome, Pointer.strncmp s.stored (some "$6$".toList) 3] then
    if s.hash.isSome then secureEqual s.hash s.stored
  else if s.stored.isSome then secureEqual (some s.computed) s.stored
  let _ ← Reads.all [.ok s.stored.isSome, Pointer.strncmp s.stored (some "$6$".toList) 3]

def userValidAuth (a : Answers) (rows : Text → Text → Option Stored) (username password : Pointer) : Reads Int := do
  if username.isNone || password.isNone then return 0
  let username ← Pointer.text username
  let password ← Pointer.text password
  if let some row := rows username password then compareStored row
  return a.userValidAuth username password

def userRegister (a : Answers) (username password : Pointer) : Reads Int := do
  if ← Reads.any [.ok username.isNone, .ok password.isNone, isEmpty username, isEmpty password,
      longerThan 31 username, longerThan 255 password] then return -1
  let username ← Pointer.text username
  let password ← Pointer.text password
  return Web.userRegister a username password

/-! ## Who asks -/

variable (rows : Text → Text → Option Stored)

def ofCookie (a : Answers) (r : Request) : Reads Auth := do
  let some token ← cookieValue r.cookie "tle_session".toList 65 | return {}
  let some (userId, csrfToken) ← sessionLookup a (some token) | return {}
  match userFetchUsernameById a userId 32 with
  | none => return { userId, csrfToken }
  | some username => return { userId, username, csrfToken, authFail := false, sessionAuthenticated := true }

def checkCredentials (a : Answers) (r : Request) (auth : Auth) : Reads Auth := do
  if auth.sessionAuthenticated then return auth
  let authResult ←
    if r.username.isSome && r.password.isSome then userValidAuth a rows r.username r.password else pure 0
  return { auth with authFail := authResult ≤ 0 }

def keepPassword (r : Request) (auth : Auth) : Reads Auth := do
  if ← Reads.all [.ok r.password.isSome, shorterThan 256 r.password] then
    let password ← Pointer.text r.password
    return { auth with password }
  else if r.password.isSome then return { auth with authFail := true }
  else return auth

def takeUsername (a : Answers) (r : Request) (auth : Auth) : Reads Auth := do
  if auth.sessionAuthenticated then return auth
  if auth.authFail then return { auth with userId := -1 }
  if ← Reads.all [.ok r.username.isSome, shorterThan 32 r.username] then
    let username ← Pointer.text r.username
    return if username ≠ [] then { auth with username, userId := userFetchIdByUsername a username }
      else { auth with username }
  else return { auth with authFail := true }

def authenticate (a : Answers) (r : Request) : Reads Auth := do
  let auth ← ofCookie a r
  let auth ← checkCredentials rows a r auth
  let auth ← keepPassword r auth
  takeUsername a r auth

/-! ## The pages of POST -/

variable (server : Server) (a : Answers) (r : Request) (auth : Auth) (conn : ConnectionInfo) (queue : Session)

def csrfInvalid : Reads Bool := do
  let valid ← csrfValid auth.sessionAuthenticated (some auth.csrfToken) (some conn.csrf.text)
  return !valid

def otherOrigin : Reads Bool := do
  let same ← sameOriginRequest server r
  return !same

def secureCookieEnabled : Reads Bool := do
  let base ← baseUrl server
  Pointer.strncmp base (some "https://".toList) 8

/-- The address of the site, in a header. -/
def location : Reads Text := do
  let base ← baseUrl server
  Pointer.text base

def submit : Reads Outcome := do
  if ← Reads.all [.ok auth.sessionAuthenticated, csrfInvalid auth conn] then
    return { reply := basicResponse "csrf check failed" 403, queue }
  if conn.fileFieldSeen && conn.codeFieldSeen then
    return { reply := basicResponse "choose either pasted code or a file" 400, queue }
  -- `sdslen` reads in front of the string
  if ← Reads.any [.ok conn.code.isNone, isEmpty conn.code] then
    return { reply := basicResponse "code can't be empty" 400, queue }
  if conn.isAnonymous && !a.anonymousAllowed then
    return { reply := basicResponse "anonymous submission rate limit exceeded" 429, queue }
  if auth.authFail && !conn.isAnonymous then
    return { reply := .basicAuthFail "realm" "access denied", queue }
  let c := enqueueCall a auth conn
  let (queue', submissionId) := enqueueSubmission c queue
  let effects := if c.stores queue then [.enqueued c] else []
  if submissionId < 0 then return { reply := responseInternalServerError, queue := queue', effects }
  let base ← location server
  let base := (base ++ "?page=submissions".toList).take 511
  return { reply := .response 302 [("Location", base)] "", queue := queue', effects }

def bookmark : Reads Outcome := do
  if ← Reads.any [csrfInvalid auth conn, otherOrigin server r, .ok r.pk.isNone] then
    return { reply := basicResponse "bookmark request denied" 403, queue }
  let pkText ← Pointer.text r.pk
  let pk := BitVec.ofNat 32 (strtoul pkText)
  if auth.userId < 0 ∨ a.toggleBookmark auth.userId pk < 0 then
    return { reply := responseInternalServerError, queue }
  let base ← location server
  return { reply := .response 302 [("Location", base)] "", queue, effects := [.bookmarkToggled auth.userId pk] }

def register : Reads Outcome := do
  let result ← userRegister a (some conn.username.text) (some conn.password.text)
  return match result with
  | -2 => { reply := basicResponse "<h1>username already exists!</h1>" 400, queue }
  | 0 =>
      { reply := basicResponse "<h1>created account succesfully</h1>" 200
        queue, effects := [.registered conn.username.text] }
  | _ =>
      { reply := basicResponse ("<h1>error: make sure username is less than 32 char and password is " ++
          "less than 256 chars </h1>") 400
        queue }

def login : Reads Outcome := do
  let valid ← userValidAuth a rows (some conn.username.text) (some conn.password.text)
  let loginId := if valid = 1 then userFetchIdByUsername a conn.username.text else -1
  match if 0 ≤ loginId then sessionCreate a loginId else none with
  | none => return { reply := basicResponse "login failed" 401, queue }
  | some token =>
      let base ← location server
      let secure ← secureCookieEnabled server
      let cookie := ("tle_session=".toList ++ token ++ "; Path=/; HttpOnly; SameSite=Lax".toList ++
        if secure then "; Secure".toList else []).take 159
      return { reply := .response 302 [("Location", base), ("Set-Cookie", cookie)] ""
               queue, effects := [.loggedIn loginId] }

/-- `!admin_password || !*admin_password || strcmp(password, admin_password)` -/
def notAdmin : Reads Bool :=
  Reads.any [.ok server.adminPassword.isNone, isEmpty server.adminPassword, do
    let same ← Pointer.strcmp (some auth.password) server.adminPassword
    return !same]

def admin : Reads Outcome := do
  if ← notAdmin server auth then return { reply := basicResponse "access denied" 401, queue }
  if ← otherOrigin server r then return { reply := basicResponse "csrf check failed" 403, queue }
  match conn.adminAction with
  | none => return { reply := responseNotFound, queue }
  | some action =>
      let (queue', result) := match action with
        | .rejudge => requeueSubmission a.requeueFirst_ok a.requeueSecond_ok conn.adminId queue
        | .toggleHidden => (queue, a.taskToggleVisibility conn.adminId)
      return { reply := adminReply action result
               queue := queue'
               effects := if action.changes a conn.adminId queue then [.adminAction action conn.adminId] else [] }

/-- The last call for a POST request. -/
def postPage : Reads Outcome := do
  -- `strcmp(page, "submit")`
  let page ← Pointer.text r.page
  match Page.named page with
  | some .submit => submit server a auth conn queue
  | some .bookmark => bookmark server a r auth conn queue
  | some .register => register a conn queue
  | some .login => login rows server a conn queue
  | some .admin => admin server a r auth conn queue
  | none => return { reply := .refused, queue }

/-! ## The pages of GET -/

variable (d : Site) (env : Surroundings) (g : GetRequest)

/-- `fetch_tasks_filtered`; an argument that adds nothing to the query counts as absent. -/
def fetchTasksFiltered (userId : Int) (showSolved query state : Pointer) : Reads (Option (List TaskListItem)) := do
  let hideSolved ← Reads.all [.ok showSolved.isSome, Pointer.equals showSolved "0"]
  let search ← Reads.all [.ok query.isSome, Pointer.nonempty query]
  let solved ← Reads.all [.ok state.isSome, Pointer.equals state "solved"]
  let tried ← Reads.all [.ok state.isSome, Pointer.equals state "tried"]
  let bookmarked ← Reads.all [.ok state.isSome, Pointer.equals state "bookmarked"]
  return d.fetchTasksFiltered env.fetch_ok userId (if hideSolved then some "0".toList else none)
    (if search then query else none)
    (if solved then some "solved".toList else if tried then some "tried".toList
      else if bookmarked then some "bookmarked".toList else none)

/-- `fetch_submissions` -/
def fetchSubmissions (from_ limit : Nat) (userFilter : Pointer) (taskFilter : Nat) (verdictFilter : Pointer) :
    Reads (Option (List SubmissionRow × Nat)) := do
  let byUser ← Reads.all [.ok userFilter.isSome, Pointer.nonempty userFilter]
  let byVerdict ← Reads.all [.ok verdictFilter.isSome, Pointer.nonempty verdictFilter]
  return d.fetchSubmissions env.fetch_ok from_ limit (if byUser then userFilter else none) taskFilter
    (if byVerdict then verdictFilter else none)

def frontpage : Reads Reply := do
  match ← fetchTasksFiltered d env (Site.viewer auth) (some "1".toList) none none with
  | none => return responseInternalServerError
  | some items => return Site.view env auth (.frontPage items)

def taskFilter (task : Pointer) : Reads (Option Nat) := do
  if ← Reads.all [.ok task.isSome, Pointer.nonempty task] then
    let task ← Pointer.text task
    return (strtoulChecked task).filter fun parsed => parsed ≠ 0 ∧ parsed < 2 ^ 32
  else return some 0

/-- `strcmp(s, word) && …` for all words. -/
def noneOf (words : List Text) (s : Pointer) : Reads Bool :=
  Reads.all (words.map fun word => do
    let same ← Pointer.strcmp s (some word)
    return !same)

def unknownVerdict (verdict : Pointer) : Reads Bool :=
  Reads.all [.ok verdict.isSome, Pointer.nonempty verdict, noneOf Site.verdictNames verdict]

def countNumber (count : Pointer) : Reads (Option Nat) := do
  if count.isNone then return some 20
  if ← noneOf ["20".toList, "50".toList, "100".toList] count then return none
  let count ← Pointer.text count
  return some (strtoul count)

def fromNumber (from_ : Pointer) : Reads (Option Nat) := do
  if from_.isNone then return some (2 ^ 32 - 1)
  let from_ ← Pointer.text from_
  return (strtoulChecked from_).map (· % 2 ^ 32)

def submissionsPage : Reads Reply := do
  if g.mine.isSome && auth.authFail then return responseNotFound
  let userFilter : Pointer := if g.mine.isSome then some auth.username else g.user
  let some taskNumber ← taskFilter g.task | return responseNotFound
  if ← unknownVerdict g.verdict then return responseNotFound
  let some count ← countNumber g.count | return responseNotFound
  let some from_ ← fromNumber g.from_ | return responseNotFound
  match ← fetchSubmissions d env from_ count userFilter taskNumber g.verdict with
  | none => return responseInternalServerError
  | some (rows, lastId) => return Site.view env auth (.submissionList rows lastId)

def submissionPage : Reads Reply := do
  if ← Reads.any [.ok g.id.isNone, isEmpty g.id] then return responseNotFound
  let id ← Pointer.text g.id
  let id := ((strtoulChecked id).map (BitVec.ofNat 32)).filter (· ≠ 0)
  match id.bind (d.fetchSubmissionDetail env.fetch_ok) with
  | none => return responseNotFound
  | some submission => return Site.view env auth (.submissionDetail submission)

def viewCodePage : Reads Reply := do
  if g.id.isNone then return .refused
  let idText ← Pointer.text g.id
  match d.fetchSubmissionCodeById env.fetch_ok (pkOf idText) with
  | none => return basicResponse "<h1>code is not public or missing(sad)</h1>" 404
  | some code => return Site.view env auth (.code (pkOf idText).toNat (some code))

/-- `csrf ? csrf : ""`, in a form. -/
def csrfText (csrf : Pointer) : Reads Text := Pointer.text (if csrf.isSome then csrf else some [])

def tasksPage : Reads Reply := do
  if ← Reads.all [.ok g.showSolved.isSome, noneOf ["0".toList, "1".toList] g.showSolved] then
    return responseNotFound
  if ← Reads.all [.ok g.state.isSome, noneOf Site.stateNames g.state] then return responseNotFound
  match ← fetchTasksFiltered d env (Site.viewer auth) g.showSolved g.q g.state with
  | none => return responseInternalServerError
  | some items =>
      let _ ← csrfText (Site.csrfField auth)
      return Site.view env auth (.taskList items (Site.csrfField auth))

/-- The file name of a statement ends in `.pdf`. -/
def statementPdf (desc : Text) : Reads Bool := do
  let extension ← Pointer.strrchr (some desc) '.'
  Pointer.equals (if extension.isSome then extension else some []) ".pdf"

def taskPage : Reads Reply := do
  if g.pk.isNone then return .refused
  let pkText ← Pointer.text g.pk
  match d.fetchTaskByPk env.fetch_ok (pkOf pkText) with
  | none => return .refused
  | some task =>
      let pdf ← statementPdf task.desc
      if !Tasks.validDescriptionName task.desc then return responseNotFound
      let statement := if pdf then none else env.files (taskPath task)
      return Site.view env auth (.task task.toTask statement pdf)

def getContentType (path : Text) : Reads String := do
  let ext ← Pointer.strrchr (some path) '.'
  if ext.isNone then return "application/octet-stream"
  if ← Pointer.equals ext ".pdf" then return "application/pdf"
  if ← Pointer.equals ext ".txt" then return "text/plain"
  return "application/octet-stream"

def descPage (rawFile : Bool) : Reads Reply := do
  if g.pk.isNone then return .refused
  let pkText ← Pointer.text g.pk
  let some task := d.fetchTaskByPk env.fetch_ok (pkOf pkText) | return .refused
  if !Tasks.validDescriptionName task.desc then return responseNotFound
  let some content := env.files (taskPath task) | return responseInternalServerError
  if rawFile then
    let contentType ← getContentType (taskPath task)
    return .response 200 (safetyHeaders ++ [("Content-Type", contentType.toList),
      ("Content-Disposition", "inline".toList)]) (String.ofList content)
  let extension ← Pointer.strrchr (some task.desc) '.'
  if ← Reads.all [.ok extension.isSome, Pointer.equals extension ".pdf"] then
    return Site.view env auth (.pdfStatement task.toTask)
  return Site.view env auth (.statement task.toTask (some content))

def submitPage : Reads Reply := do
  if g.pk.isNone then return .refused
  let pkText ← Pointer.text g.pk
  let pk := pkOf pkText
  let taskValidity := d.checkTaskPkValidity env.validity_ok pk
  if taskValidity = 0 then return responseNotFound
  if taskValidity = -1 then return responseInternalServerError
  let some task := d.fetchTaskByPk env.fetch_ok pk | return responseInternalServerError
  let outputOnly ← Pointer.equals (some task.comparison) "output_only"
  let _ ← csrfText (Site.csrfField auth)
  return Site.view env auth (.submit (some task.name) pk.toNat (Site.csrfField auth) outputOnly)

/-- `session_destroy`, up to its statement. -/
def sessionDestroy (token : Pointer) : Reads Unit := do
  let _ ← Reads.any [.ok token.isNone, isEmpty token]

def logoutReply : Reads Reply := do
  if let some token ← cookieValue g.cookie "tle_session".toList 65 then sessionDestroy (some token)
  let base ← location server
  return .response 302 [("Location", base), ("Set-Cookie", (Site.clearedCookie env).toList)] ""

def adminPage : Reads Reply := do
  if ← notAdmin server auth then return .basicAuthFail "realm" "access denied"
  match d.fetchAdminTasks env.fetch_ok with
  | none => return responseInternalServerError
  | some items => return Site.view env auth (.admin items)

/-- The page that a request is for; all comparisons but the first read `page` only if it is there. -/
def pageNamed (page : Pointer) : Reads (Option GetPage) := do
  if ← Reads.any [.ok page.isNone, Pointer.equals page "frontpage"] then return some .frontpage
  let page ← Pointer.text page
  return GetPage.named page

/-- The last call for a GET request. -/
def getPage : Reads Reply := do
  if g.url = "/favicon.svg".toList then return favicon
  if g.uploadSize ≠ 0 then return .refused
  match ← pageNamed g.page with
  | some .frontpage => frontpage auth d env
  | some .submissions => submissionsPage auth d env g
  | some .leaderboard => return d.leaderboardPage env auth
  | some .submission => submissionPage auth d env g
  | some .viewCode => viewCodePage auth d env g
  | some .tasks => tasksPage auth d env g
  | some .task => taskPage auth d env g
  | some .desc => descPage auth d env g false
  | some .descFile => descPage auth d env g true
  | some .submit => submitPage auth d env g
  | some .register => return Site.view env auth .register
  | some .login => return Site.view env auth .login
  | some .logout => logoutReply server env g
  | some .admin => adminPage server auth d env
  | none => return responseNotFound

/-! ## Runs -/

/-- A call of `post_iterator`; a part of a form without a name has no key. -/
structure Part where
  key : Pointer
  data : Text
  off : Nat := 0

/-- `post_iterator` starts with `strcmp("task_pk", key)`. -/
def iterate (p : Parse) (part : Part) : Reads Parse := do
  let key ← Pointer.text part.key
  return p.call { key, data := part.data, off := part.off }

/-- What a call of `ahc_echo` is given: the size of the data, the calls of `post_iterator` that it leads to, and
what it finds in the rest of the program. -/
structure Call where
  created : Bool := true
  uploadSize : Nat := 0
  parts : List Part := []
  site : Site := {}
  env : Surroundings := {}
  rows : Text → Text → Option Stored := fun _ _ => none

/-- A call, with its reply unless it returns `MHD_YES` and waits for more. -/
def ahcEcho (server : Server) (method : Text) (r : GetRequest) (e : Exchange) (c : Call) :
    Reads (Exchange × Option Reply) :=
  match e.connection with
  | .fresh =>
      if method = "POST".toList ∧ !c.created then return ({ e with connection := .closed }, some .refused)
      else return ({ e with connection := .reading {} }, none)
  | .reading p => do
      let auth ← authenticate c.rows c.env.answers r.toRequest
      if method = "POST".toList then
        if 0 < c.uploadSize then
          let p ← c.parts.foldlM iterate p
          return ({ e with connection := .reading p }, none)
        let o ← postPage c.rows server c.env.answers r.toRequest auth p.conn e.queue
        return ({ connection := .closed, queue := o.queue }, some o.reply)
      if method = "GET".toList then
        let reply ← getPage server auth c.site c.env { r with uploadSize := c.uploadSize }
        return ({ e with connection := .closed }, some reply)
      return ({ e with connection := .closed }, some .refused)
  | .closed => return (e, none)

/-- The calls for one request. -/
def echoes (server : Server) (method : Text) (r : GetRequest) (calls : List Call) (e : Exchange) : Reads Exchange :=
  calls.foldlM (fun e c => do
    let (e, _) ← ahcEcho server method r e c
    return e) e

end Tle.Web.Pointers
