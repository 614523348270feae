import Tle.Queue.Lemmas.Calls
import Tle.Web.Form

/-!
# The POST requests of `web.c` and the accounts of `user.c`

What the tables, libcrypt, the random source and the rate limiter answer is given with each call of
`ahc_echo`; the queue is the one of `task.c`.
-/

namespace Tle.Web
open Tle.Lib Tle.Queue

/-- The environment of the server. -/
structure Server where
  configuredUrl : Option Text := none
  adminPassword : Option Text := none

/-- What libmicrohttpd finds in a request. -/
structure Request where
  page : Option Text := none
  pk : Option Text := none
  cookie : Option Text := none
  origin : Option Text := none
  referer : Option Text := none
  username : Option Text := none
  password : Option Text := none

inductive InsertResult where
  | done
  | constraint
  | failed
  deriving DecidableEq

/-- What the rest of the program answers during one call. A lookup that finds no row and one that fails
answer `none`. -/
structure Answers where
  sessionByToken : Text → Option (Int × Text) := fun _ => none
  usernameById : Int → Option Text := fun _ => none
  idByUsername : Text → Option Int := fun _ => none
  userValidAuth : Text → Text → Int := fun _ _ => 0
  userExists : Text → Int := fun _ => 0
  hashPassword : Text → Option Text := fun _ => none
  insertUser : Text → Text → InsertResult := fun _ _ => .done
  randomHex : Option (Text × Text) := none
  insertSession : Int → Text → Text → Bool := fun _ _ _ => true
  anonymousAllowed : Bool := true
  begin_ok : Bool := true
  insertSubmission_ok : Bool := true
  insertJob_ok : Bool := true
  commit_ok : Bool := true
  rollback_ok : Bool := true
  toggleBookmark : Int → BitVec 32 → Int := fun _ _ => -1
  requeueFirst_ok : Bool := true
  requeueSecond_ok : Bool := true
  taskToggleVisibility : BitVec 32 → Int := fun _ => 0

/-! ## Addresses and tokens -/

def defaultUrl : Text := "http://localhost:8080".toList

def Server.baseUrl (server : Server) : Text :=
  match server.configuredUrl with
  | some url => if url ≠ [] then url else defaultUrl
  | none => defaultUrl

def Server.secureCookieEnabled (server : Server) : Bool := strncmpEq server.baseUrl "https://".toList 8

def sameOriginRequest (server : Server) (r : Request) : Bool :=
  match r.origin.or r.referer with
  | none => false
  | some value =>
      let base := server.baseUrl
      match strstr base "://".toList, strstr value "://".toList with
      | some base_, some value_ =>
          let baseAuthority := base_.drop 3
          let valueAuthority := value_.drop 3
          let baseLen := (baseAuthority.takeWhile (· ≠ '/')).length
          let valueLen := (valueAuthority.takeWhile (· ≠ '/')).length
          baseLen = valueLen && strncmpEq baseAuthority valueAuthority baseLen &&
            strncmpEq base value (base.length - baseAuthority.length)
      | _, _ => false

def csrfValid (sessionAuthenticated : Bool) (sessionCsrf submittedCsrf : Text) : Bool :=
  sessionAuthenticated && sessionCsrf.length = 64 && submittedCsrf.length = 64 &&
    sessionCsrf = submittedCsrf

def skipSeparators (p : Text) : Text := p.dropWhile (fun c => c = ' ' || c = ';')

theorem length_dropWhile_skipSeparators {p rest : Text} {c : Char}
    (h : (skipSeparators p).dropWhile (· ≠ ';') = c :: rest) : (c :: rest).length < p.length := by
  have hskip : (skipSeparators p).length ≤ p.length := List.length_dropWhile_le _ _
  cases hq : skipSeparators p with
  | nil => simp [hq] at h
  | cons b q =>
      have hb : b ≠ ';' := by
        have hhead := List.head?_dropWhile_not (fun c => c = ' ' || c = ';') p
        rw [show p.dropWhile _ = b :: q from hq] at hhead
        simp_all
      rw [hq, List.dropWhile_cons_of_pos (by simpa using hb)] at h
      have hrest := List.length_dropWhile_le (· ≠ ';') q
      rw [h] at hrest
      rw [hq] at hskip
      simp only [List.length_cons] at hskip hrest ⊢
      omega

/-- The loop of `cookie_value` from `p` on. -/
def cookieValueFrom (name : Text) (outSize : Nat) (p : Text) : Option Text :=
  if p = [] then none
  else if strncmpEq (skipSeparators p) name name.length ∧ (skipSeparators p)[name.length]? = some '=' then
    let value := ((skipSeparators p).drop (name.length + 1)).takeWhile (· ≠ ';')
    if value = [] ∨ outSize ≤ value.length then none else some value
  else
    match _h : (skipSeparators p).dropWhile (· ≠ ';') with
    | [] => none
    | c :: rest => cookieValueFrom name outSize (c :: rest)
termination_by p.length
decreasing_by exact length_dropWhile_skipSeparators _h

def cookieValue (cookie : Option Text) (name : Text) (outSize : Nat) : Option Text :=
  cookie.bind (cookieValueFrom name outSize)

/-! ## Accounts -/

def sessionLookup (a : Answers) (token : Text) : Option (Int × Text) :=
  if token = [] then none
  else (a.sessionByToken token).map fun (userId, csrf) => (userId, (cstr csrf).take 64)

def userFetchUsernameById (a : Answers) (userId : Int) (outSize : Nat) : Option Text :=
  (a.usernameById userId).map fun username => (cstr username).take (outSize - 1)

def userFetchIdByUsername (a : Answers) (username : Text) : Int := (a.idByUsername username).getD (-1)

def userRegister (a : Answers) (username password : Text) : Int :=
  if username = [] ∨ password = [] ∨ 31 < username.length ∨ 255 < password.length then -1
  else if a.userExists username = 1 then -2
  else match a.hashPassword password with
  | none => -1
  | some passwordHash =>
      match a.insertUser username passwordHash with
      | .constraint => -2
      | .failed => -1
      | .done => 0

/-- The token of the new session. -/
def sessionCreate (a : Answers) (userId : Int) : Option Text :=
  match a.randomHex with
  | none => none
  | some (token, csrf) => if a.insertSession userId token csrf then some token else none

/-! ## Who asks -/

/-- The local variables of `ahc_echo`. -/
structure Auth where
  userId : Int := -1
  username : Text := []
  password : Text := []
  csrfToken : Text := []
  authFail : Bool := true
  sessionAuthenticated : Bool := false

/-- The session cookie. A session whose user is not found leaves its number and its token behind. -/
def Auth.ofCookie (a : Answers) (r : Request) : Auth :=
  match (cookieValue r.cookie "tle_session".toList 65).bind (sessionLookup a) with
  | none => {}
  | some (userId, csrfToken) =>
      match userFetchUsernameById a userId 32 with
      | none => { userId, csrfToken }
      | some username => { userId, username, csrfToken, authFail := false, sessionAuthenticated := true }

def Auth.checkCredentials (a : Answers) (r : Request) (auth : Auth) : Auth :=
  if auth.sessionAuthenticated then auth
  else
    let authResult : Int := match r.username, r.password with
      | some username, some password => a.userValidAuth username password
      | _, _ => 0
    { auth with authFail := authResult ≤ 0 }

def Auth.keepPassword (r : Request) (auth : Auth) : Auth :=
  match r.password with
  | none => auth
  | some password =>
      if password.length < 256 then { auth with password } else { auth with authFail := true }

def Auth.takeUsername (a : Answers) (r : Request) (auth : Auth) : Auth :=
  if auth.sessionAuthenticated then auth
  else if auth.authFail then { auth with userId := -1 }
  else match r.username with
  | none => { auth with authFail := true }
  | some username =>
      if username.length < 32 then
        if username ≠ [] then { auth with username, userId := userFetchIdByUsername a username }
        else { auth with username }
      else { auth with authFail := true }

def authenticate (a : Answers) (r : Request) : Auth :=
  (((Auth.ofCookie a r).checkCredentials a r).keepPassword r).takeUsername a r

/-! ## Replies and effects -/

inductive Reply where
  | response (status : Nat) (headers : List (String × Text)) (body : String)
  | basicAuthFail (realm : String) (body : String)
  | refused
  -- a string function reads through a null pointer
  | undefined

def safetyHeaders : List (String × Text) :=
  [("X-Content-Type-Options", "nosniff".toList), ("X-Frame-Options", "SAMEORIGIN".toList),
    ("Referrer-Policy", "no-referrer".toList)]

def basicResponse (msg : String) (status : Nat) : Reply :=
  .response status (safetyHeaders ++ [("Content-Type", "text/html; charset=utf-8".toList)]) msg

def responseInternalServerError : Reply := basicResponse "internal server error" 500

def responseNotFound : Reply := basicResponse "404!!!!" 404

/-- What a request has done: a submission that is stored, an account, a session or a bookmark that is
written, an action of the administrator that has changed a table. -/
inductive Effect where
  | enqueued (c : EnqueueCall)
  | registered (username : Text)
  | loggedIn (userId : Int)
  | adminAction (action : AdminAction) (id : BitVec 32)
  | bookmarkToggled (userId : Int) (pk : BitVec 32)

structure Outcome where
  reply : Reply
  queue : Session
  effects : List Effect := []

/-! ## The pages -/

inductive Page where
  | submit
  | bookmark
  | register
  | login
  | admin
  deriving DecidableEq

def Page.named (page : Text) : Option Page :=
  if page = "submit".toList then some submit
  else if page = "bookmark".toList then some bookmark
  else if page = "register".toList then some register
  else if page = "login".toList then some login
  else if page = "admin".toList then some admin
  else none

/-- `snprintf(location, 512, "%s?page=submissions", base_url())` -/
def submissionsUrl (server : Server) : Text := (server.baseUrl ++ "?page=submissions".toList).take 511

def sessionCookie (server : Server) (token : Text) : Text :=
  ("tle_session=".toList ++ token ++ "; Path=/; HttpOnly; SameSite=Lax".toList ++
    if server.secureCookieEnabled then "; Secure".toList else []).take 159

def enqueueCall (a : Answers) (auth : Auth) (conn : ConnectionInfo) : EnqueueCall where
  userId := if conn.isAnonymous then -1 else auth.userId
  taskPk := BitVec.ofInt 32 conn.taskPk
  -- bound with length -1: up to the first NUL
  code := some (cstr (conn.code.getD []))
  isPublic := conn.isPublic
  begin_ok := a.begin_ok
  insertSubmission_ok := a.insertSubmission_ok
  insertJob_ok := a.insertJob_ok
  commit_ok := a.commit_ok
  rollback_ok := a.rollback_ok

def submitReply (server : Server) (submissionId : Int) : Reply :=
  if submissionId < 0 then responseInternalServerError
  else .response 302 [("Location", submissionsUrl server)] ""

def submit (server : Server) (a : Answers) (auth : Auth) (conn : ConnectionInfo) (queue : Session) :
    Outcome :=
  if auth.sessionAuthenticated && !csrfValid auth.sessionAuthenticated auth.csrfToken conn.csrf.text then
    { reply := basicResponse "csrf check failed" 403, queue }
  else if conn.fileFieldSeen && conn.codeFieldSeen then
    { reply := basicResponse "choose either pasted code or a file" 400, queue }
  else if conn.code.getD [] = [] then
    { reply := basicResponse "code can't be empty" 400, queue }
  else if conn.isAnonymous && !a.anonymousAllowed then
    { reply := basicResponse "anonymous submission rate limit exceeded" 429, queue }
  else if auth.authFail && !conn.isAnonymous then
    { reply := .basicAuthFail "realm" "access denied", queue }
  else
    let c := enqueueCall a auth conn
    let (queue', submissionId) := enqueueSubmission c queue
    { reply := submitReply server submissionId
      queue := queue'
      effects := if c.stores queue then [.enqueued c] else [] }

def bookmark (server : Server) (a : Answers) (r : Request) (auth : Auth) (conn : ConnectionInfo)
    (queue : Session) : Outcome :=
  match r.pk with
  | none => { reply := basicResponse "bookmark request denied" 403, queue }
  | some pkText =>
      if !csrfValid auth.sessionAuthenticated auth.csrfToken conn.csrf.text || !sameOriginRequest server r then
        { reply := basicResponse "bookmark request denied" 403, queue }
      else
        let pk := BitVec.ofNat 32 (strtoul pkText)
        if auth.userId < 0 ∨ a.toggleBookmark auth.userId pk < 0 then
          { reply := responseInternalServerError, queue }
        else
          { reply := .response 302 [("Location", server.baseUrl)] ""
            queue, effects := [.bookmarkToggled auth.userId pk] }

def register (a : Answers) (conn : ConnectionInfo) (queue : Session) : Outcome :=
  match userRegister a conn.username.text conn.password.text with
  | -2 => { reply := basicResponse "<h1>username already exists!</h1>" 400, queue }
  | 0 =>
      { reply := basicResponse "<h1>created account succesfully</h1>" 200
        queue, effects := [.registered conn.username.text] }
  | _ =>
      { reply := basicResponse ("<h1>error: make sure username is less than 32 char and password is " ++
          "less than 256 chars </h1>") 400
        queue }

/-- The account of the form, with the token of a new session for it. -/
def openSession (a : Answers) (conn : ConnectionInfo) : Option (Int × Text) :=
  let loginId :=
    if a.userValidAuth conn.username.text conn.password.text = 1 then
      userFetchIdByUsername a conn.username.text
    else -1
  if 0 ≤ loginId then (sessionCreate a loginId).map (loginId, ·) else none

def login (server : Server) (a : Answers) (conn : ConnectionInfo) (queue : Session) : Outcome :=
  match openSession a conn with
  | none => { reply := basicResponse "login failed" 401, queue }
  | some (loginId, token) =>
      { reply := .response 302
          [("Location", server.baseUrl), ("Set-Cookie", sessionCookie server token)] ""
        queue, effects := [.loggedIn loginId] }

def adminReply (action : AdminAction) (result : Int) : Reply :=
  if result < 0 then responseInternalServerError
  else match action with
  | .rejudge =>
      if result ≠ 0 then basicResponse "requeued" 200 else basicResponse "submission not found" 404
  | .toggleHidden => basicResponse "toggled" 200

/-- The statement of the action has changed a row, or is not asked whether it has. A rejudge whose second statement
fails has requeued the job all the same. -/
def AdminAction.changes (a : Answers) (id : BitVec 32) (queue : Session) : AdminAction → Bool
  | rejudge => (queue.exec a.requeueFirst_ok fun d => some (d.requeueJob id)).2.any (0 < ·)
  | toggleHidden => 0 ≤ a.taskToggleVisibility id

def admin (server : Server) (a : Answers) (r : Request) (auth : Auth) (conn : ConnectionInfo)
    (queue : Session) : Outcome :=
  match server.adminPassword with
  | none => { reply := basicResponse "access denied" 401, queue }
  | some adminPassword =>
      if adminPassword = [] ∨ auth.password ≠ adminPassword then
        { reply := basicResponse "access denied" 401, queue }
      else if !sameOriginRequest server r then
        { reply := basicResponse "csrf check failed" 403, queue }
      else match conn.adminAction with
      | none => { reply := responseNotFound, queue }
      | some action =>
          let (queue', result) := match action with
            | .rejudge => requeueSubmission a.requeueFirst_ok a.requeueSecond_ok conn.adminId queue
            | .toggleHidden => (queue, a.taskToggleVisibility conn.adminId)
          { reply := adminReply action result
            queue := queue'
            effects := if action.changes a conn.adminId queue then [.adminAction action conn.adminId] else [] }

def postPage (server : Server) (a : Answers) (r : Request) (conn : ConnectionInfo) (queue : Session) :
    Outcome :=
  let auth := authenticate a r
  match r.page with
  | none => { reply := .undefined, queue }
  | some page =>
      match Page.named page with
      | some .submit => submit server a auth conn queue
      | some .bookmark => bookmark server a r auth conn queue
      | some .register => register a conn queue
      | some .login => login server a conn queue
      | some .admin => admin server a r auth conn queue
      | none => { reply := .refused, queue }

/-! ## `ahc_echo` -/

/-- `*ptr` between the calls for one request. -/
inductive Connection where
  | fresh
  | reading (p : Parse)
  | closed

structure Exchange where
  connection : Connection := .fresh
  queue : Session

/-- One call of `ahc_echo`: whether a post processor can be made, the calls of `post_iterator` for the
bytes it is given (`none` when there are none left), and the answers it gets. The last value of a form
may be delivered only when the post processor is destroyed; it counts as one of the upload before. -/
structure Visit where
  created : Bool := true
  upload : Option (List IteratorCall) := none
  answers : Answers := {}

/-- A call for a POST request, with its reply unless it returns `MHD_YES` and waits for more. -/
def ahcEcho (server : Server) (r : Request) (e : Exchange) (v : Visit) :
    Exchange × Option Reply × List Effect :=
  match e.connection, v.upload with
  | .fresh, _ =>
      if v.created then ({ e with connection := .reading {} }, none, [])
      else ({ e with connection := .closed }, some .refused, [])
  -- the result of `MHD_post_process` is dropped
  | .reading p, some calls => ({ e with connection := .reading (postProcess p calls) }, none, [])
  | .reading p, none =>
      let o := postPage server v.answers r p.conn e.queue
      ({ connection := .closed, queue := o.queue }, some o.reply, o.effects)
  | .closed, _ => (e, none, [])

end Tle.Web
