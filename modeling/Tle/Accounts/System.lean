import Tle.Accounts.Sessions
import Tle.Web.Handler

/-!
# Accounts over many requests

What the tables answer to `ahc_echo`, and the critical sections of its calls, which follow one another in any
order.
-/

namespace Tle.Accounts
open Tle.Lib Tle.Web

/-! ## What the tables answer -/

/-- The C string with these bytes. -/
def ofText (text : Text) : Option CString :=
  if hbytes : isBytes text = true then some ⟨text, isBytes_iff.mp hbytes⟩ else none

/-- A call of `user_valid_auth`. -/
def authCall (e : Conditions) (username password : Option Text) : AuthCall :=
  { e.auth with username := username.bind ofText, password := password.bind ofText }

/-- The rest is as given. -/
def answers (h : Hashes) (a : Store) (e : Conditions) (rest : Answers) : Answers :=
  { rest with
    sessionByToken := fun token =>
      if e.selectSession_ok then (a.sessions.find token).map fun s => (toInt32 s.userId, s.csrfToken) else none
    usernameById := fun userId =>
      if e.selectName_ok then (a.users.table.find userId).map (·.username.text) else none
    idByUsername := fun username =>
      if e.selectId_ok then ((ofText username).bind a.users.byName).map (toInt32 ·.userId) else none
    userValidAuth := fun username password =>
      (userValidAuth h a.users (authCall e (some username) (some password))).2
    userExists := fun username => ((ofText username).map (a.userExists e)).getD 0
    hashPassword := fun password => ((ofText password).bind (hashPassword h e.auth)).map (·.text)
    insertUser := fun username hash =>
      if !e.insertUser_ok then .failed
      else match (ofText username).bind fun username => (ofText hash).bind (a.insertUser username) with
      | none => .constraint
      | some _ => .done
    randomHex := (randomHex e.token 65).bind fun token => (randomHex e.csrf 65).map (token, ·)
    insertSession := fun userId token csrfToken =>
      e.insertSession_ok && (a.insertSession { token, userId, csrfToken }).isSome }

/-! ## Critical sections -/

/-- The first section of a call, and those of the pages. -/
inductive Section where
  | authenticate (r : Request)
  | register (conn : ConnectionInfo)
  | login (conn : ConnectionInfo)
  | logout (r : Request)

/-- `user_valid_auth` is called unless the cookie is that of a session. -/
def authenticateSection (h : Hashes) (a : Store) (e : Conditions) (r : Request) : Store × Auth :=
  (if (Auth.ofCookie (answers h a e {}) r).sessionAuthenticated then a
    else (a.validAuth h (authCall e r.username r.password)).1,
    authenticate (answers h a e {}) r)

def registerSection (h : Hashes) (a : Store) (e : Conditions) (conn : ConnectionInfo) : Store × Int :=
  a.userRegister h e (ofText conn.username.text) (ofText conn.password.text)

/-- The tables, and the account with the token and the other token of its new session. -/
def loginSection (h : Hashes) (a : Store) (e : Conditions) (conn : ConnectionInfo) :
    Store × Option (Int × Text × Text) :=
  let (a', valid) := a.validAuth h (authCall e (some conn.username.text) (some conn.password.text))
  let loginId :=
    if valid = 1 then userFetchIdByUsername (answers h a' e {}) conn.username.text else -1
  if 0 ≤ loginId then
    match a'.sessionCreate e loginId with
    | none => (a', none)
    | some (a'', token, csrf) => (a'', some (loginId, token, csrf))
  else (a', none)

def sessionToken (r : Request) : Option Text := cookieValue r.cookie "tle_session".toList 65

def Section.run (h : Hashes) (a : Store) : Section × Conditions → Store
  | (authenticate r, e) => (authenticateSection h a e r).1
  | (register conn, e) => (registerSection h a e conn).1
  | (login conn, e) => (loginSection h a e conn).1
  | (logout r, e) => a.sessionDestroy e (sessionToken r)

/-! ## History -/

inductive Event where
  | registered (username password : Text) (userId : Int)
  | loggedIn (username password : Text) (userId : Int) (token csrf : Text)
  | loggedOut (token : Text)

def Section.events (h : Hashes) (a : Store) : Section × Conditions → List Event
  | (authenticate _, _) => []
  | (register conn, e) =>
      if (registerSection h a e conn).2 = 0 then
        [.registered conn.username.text conn.password.text (a.sequence + 1)]
      else []
  | (login conn, e) =>
      match (loginSection h a e conn).2 with
      | none => []
      | some (userId, token, csrf) => [.loggedIn conn.username.text conn.password.text userId token csrf]
  | (logout r, e) =>
      match sessionToken r with
      | none => []
      | some token => if token = [] ∨ !e.deleteSession_ok then [] else [.loggedOut token]

/-- The tables after the sections. -/
def after (h : Hashes) (a : Store) (sections : List (Section × Conditions)) : Store :=
  run (Section.run h) a sections

def events (h : Hashes) (a : Store) (sections : List (Section × Conditions)) : List Event :=
  history (Section.run h) (Section.events h) a sections

end Tle.Accounts
