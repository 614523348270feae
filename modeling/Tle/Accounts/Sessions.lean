import Mathlib.Data.Char
import Mathlib.Data.List.Lex
import Tle.Accounts.PasswordTheorems

/-!
# The tables `users` and `sessions`

The functions of `user.c` that write them. Every critical section between `db_lock` and `db_unlock` has
conditions: what SQLite, the random source and the C library do in it.
-/

namespace Tle.Accounts
open Tle.Lib

structure Conditions where
  selectExists_ok : Bool := true
  insertUser_ok : Bool := true
  insertSession_ok : Bool := true
  selectSession_ok : Bool := true
  deleteSession_ok : Bool := true
  selectName_ok : Bool := true
  selectId_ok : Bool := true
  /-- for `user_valid_auth` and `hash_password` -/
  auth : AuthCall := { username := none, password := none }
  /-- the reads of `/dev/urandom`, unless it cannot be opened -/
  token : Option (List (List (BitVec 8))) := none
  csrf : Option (List (List (BitVec 8))) := none

/-! ## `random_hex` -/

/-- A `read` may hand over fewer bytes than are left to read. -/
def readBytes : Nat → List (List (BitVec 8)) → Option (List (BitVec 8))
  | 0, _ => some []
  | _ + 1, [] => none
  | n + 1, bytes :: reads =>
      if bytes = [] then none
      else (readBytes (n + 1 - (bytes.take (n + 1)).length) reads).map (bytes.take (n + 1) ++ ·)

def hex : Text := "0123456789abcdef".toList

def hexDigit (n : Nat) : Char := (hex[n % 16]?).getD '0'

def randomHex (random : Option (List (List (BitVec 8)))) (outSize : Nat) : Option Text :=
  if outSize < 65 then none
  else (random.bind (readBytes 32)).map (·.flatMap fun byte => [hexDigit (byte.toNat / 16), hexDigit byte.toNat])

/-! ## The tables -/

structure SessionRow where
  token : Text
  userId : Int
  csrfToken : Text
  deriving DecidableEq

/-- `sequence` is the number that `AUTOINCREMENT` has given out last. The foreign key of `sessions` is
enforced. -/
structure Store where
  users : Users
  sequence : Int
  sessions : Table SessionRow.token
  numbered : ∀ r ∈ users.table.rows, r.userId ≤ sequence
  owned : ∀ s ∈ sessions.rows, (users.table.find s.userId).isSome = true

variable {h : Hashes} {users : Users} {a a' : Store} {c : AuthCall} {e : Conditions} {username hash : CString}

theorem byName_eq_none_iff : users.byName username = none ↔ ∀ r ∈ users.table.rows, r.username ≠ username := by
  simp [Users.byName]

/-- `INSERT INTO users(username, hashed_password) VALUES(?1, ?2)`; `none` is `SQLITE_CONSTRAINT`. -/
def Store.insertUser (a : Store) (username hash : CString) : Option Store :=
  if hname : a.users.byName username = none then
    let row : UserRow := { userId := a.sequence + 1, username, hashedPassword := hash }
    have hbehind : ∀ r ∈ a.users.table.rows, r.userId < row.userId := fun r hr => Int.lt_add_one_of_le (a.numbered r hr)
    some
      { users :=
          { table :=
              { rows := a.users.table.rows ++ [row]
                sorted := by
                  apply List.pairwise_append.mpr
                  refine ⟨a.users.table.sorted, List.pairwise_singleton _ _, ?_⟩
                  simpa using hbehind }
            unique := by
              have hother := byName_eq_none_iff.mp hname
              intro r hr r' hr' hequal
              simp only [List.mem_append, List.mem_singleton] at hr hr'
              rcases hr with hr | rfl
              · rcases hr' with hr' | rfl
                · exact a.users.unique r hr r' hr' hequal
                · exact absurd hequal (hother r hr)
              · rcases hr' with hr' | rfl
                · exact absurd hequal.symm (hother r' hr')
                · rfl }
        sequence := a.sequence + 1
        sessions := a.sessions
        numbered := by
          intro r hr
          simp only [List.mem_append, List.mem_singleton] at hr
          rcases hr with hr | rfl
          · exact Int.le_of_lt (hbehind r hr)
          · exact Int.le_refl _
        owned := by
          intro s hs
          have hfound := a.owned s hs
          simp only [Table.find, List.find?_append] at hfound ⊢
          rw [Option.isSome_or, hfound, Bool.true_or] }
  else none

/-- `INSERT INTO sessions(token,user_id,csrf_token) VALUES(?1,?2,?3)`; refused when the token is taken or there
is no such user. -/
def Store.insertSession (a : Store) (row : SessionRow) : Option Store :=
  if huser : (a.users.table.find row.userId).isSome = true then
    match hinsert : a.sessions.insert? row with
    | none => none
    | some sessions =>
        some
          { a with
            sessions
            owned := by
              intro s hs
              rw [Table.rows_insert? hinsert, Table.mem_insertRow] at hs
              rcases hs with rfl | hs
              · exact huser
              · exact a.owned s hs }
  else none

/-- `DELETE FROM sessions WHERE token=?1` -/
def Store.deleteSession (a : Store) (token : Text) : Store :=
  { a with
    sessions := a.sessions.deleteWhere fun s => s.token = token
    owned := fun s hs => a.owned s (List.mem_filter.mp hs).1 }

theorem find_userValidAuth (h : Hashes) (users : Users) (c : AuthCall) (k : Int) :
    ∃ f : UserRow → UserRow, (∀ r, (f r).userId = r.userId ∧ (f r).username = r.username) ∧
      (userValidAuth h users c).1.table.find k = (users.table.find k).map f := by
  rcases userValidAuth_cases h users c with heq | ⟨username, p, row, newHash, -, -, -, -, -, heq⟩
  · refine ⟨id, fun r => ⟨rfl, rfl⟩, ?_⟩
    rw [heq, Option.map_id_fun, id]
  · refine ⟨UserRow.store (toInt32 row.userId) newHash, fun r => by simp, ?_⟩
    rw [heq, find_setPassword]

theorem isSome_find_userValidAuth (h : Hashes) (users : Users) (c : AuthCall) (k : Int) :
    ((userValidAuth h users c).1.table.find k).isSome = (users.table.find k).isSome := by
  obtain ⟨f, -, hfind⟩ := find_userValidAuth h users c k
  rw [hfind, Option.isSome_map]

/-- `user_valid_auth`, which may store a password anew. -/
def Store.validAuth (h : Hashes) (a : Store) (c : AuthCall) : Store × Int :=
  ({ a with
    users := (userValidAuth h a.users c).1
    numbered := by
      intro r hr
      have hfound : ((userValidAuth h a.users c).1.table.find r.userId).isSome = true := by
        rw [Table.mem_rows_iff.mp hr, Option.isSome_some]
      rw [isSome_find_userValidAuth] at hfound
      obtain ⟨old, hold⟩ := Option.isSome_iff_exists.mp hfound
      rw [← Table.find_key hold]
      exact a.numbered old (Table.find_mem hold)
    owned := fun s hs => (isSome_find_userValidAuth h a.users c s.userId).trans (a.owned s hs) },
    (userValidAuth h a.users c).2)

/-! ## `user_register` -/

def Store.userExists (a : Store) (e : Conditions) (username : CString) : Int :=
  if !e.selectExists_ok then -1 else if (a.users.byName username).isSome then 1 else 0

def Store.userRegister (h : Hashes) (a : Store) (e : Conditions) (username password : Option CString) :
    Store × Int :=
  match username, password with
  | some username, some password =>
      if username.text = [] ∨ password.text = [] ∨ 31 < username.text.length ∨ 255 < password.text.length then
        (a, -1)
      else if a.userExists e username = 1 then (a, -2)
      else match hashPassword h e.auth password with
      | none => (a, -1)
      | some passwordHash =>
          if !e.insertUser_ok then (a, -1)
          else match a.insertUser username passwordHash with
          -- somebody has taken the name, although `user_exists` did not see it
          | none => (a, -2)
          | some a' => (a', 0)
  | _, _ => (a, -1)

/-! ## Sessions -/

/-- The tables with the new session, its token and its other token. -/
def Store.sessionCreate (a : Store) (e : Conditions) (userId : Int) : Option (Store × Text × Text) :=
  match randomHex e.token 65, randomHex e.csrf 65 with
  | some token, some csrf =>
      if !e.insertSession_ok then none
      else (a.insertSession { token, userId, csrfToken := csrf }).map (·, token, csrf)
  | _, _ => none

def Store.sessionDestroy (a : Store) (e : Conditions) (token : Option Text) : Store :=
  match token with
  | none => a
  | some token => if token = [] ∨ !e.deleteSession_ok then a else a.deleteSession token

end Tle.Accounts
