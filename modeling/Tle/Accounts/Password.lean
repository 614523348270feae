import Tle.Lib.Run
import Tle.Lib.Scan
import Tle.Lib.Table

/-!
# Passwords

The functions of `user.c` that check a password, on the table `users`. `crypt_r` and the MD5 code are given, and
with each call what the random source and SQLite do.
-/

namespace Tle.Accounts
open Tle.Lib

/-- The bytes of a C string; none of them is NUL. -/
@[ext] structure CString where
  text : Text
  bytes : ∀ c ∈ text, c ≠ '\x00' ∧ c.toNat < 256
  deriving DecidableEq

/-- The bytes of a constant. -/
def isBytes (s : Text) : Bool := s.all fun c => c ≠ '\x00' && c.toNat < 256

theorem isBytes_iff {s : Text} : isBytes s = true ↔ ∀ c ∈ s, c ≠ '\x00' ∧ c.toNat < 256 := by
  simp [isBytes]

/-- The libraries: `crypt_r`, which may return a null pointer, and `legacy_md5`. -/
structure Hashes where
  crypt : CString → CString → Option CString
  md5 : CString → CString

/-! ## `secure_equal` -/

/-- `(unsigned char)s[i]`, or 0 behind the end. -/
def byteAt (s : CString) (i : Nat) : BitVec 8 := (s.text[i]?.map fun c => BitVec.ofNat 8 c.toNat).getD 0

def secureEqual (a b : CString) : Bool :=
  let aLen := a.text.length
  let bLen := b.text.length
  let n := if bLen < aLen then aLen else bLen
  (List.range n).foldl (fun diff i => diff ||| (byteAt a i ^^^ byteAt b i)) (BitVec.ofNat 8 (aLen ^^^ bLen)) = 0

/-! ## `hash_password` -/

def alphabet : Text := "./0123456789ABCDEFGHIJKLMNOPQRSTUVWXYZabcdefghijklmnopqrstuvwxyz".toList

/-- The character for a random byte. -/
def saltChar (byte : BitVec 8) : Char := (alphabet[byte.toNat % 64]?).getD '.'

theorem saltChar_mem (byte : BitVec 8) : saltChar byte ∈ alphabet := by
  have hlt : byte.toNat % 64 < alphabet.length := Nat.mod_lt _ (by decide)
  rw [saltChar, List.getElem?_eq_getElem hlt]
  exact List.getElem_mem hlt

/-- `$6$` and a character for each of the 16 random bytes. -/
def salt (random : Fin 16 → BitVec 8) : CString where
  text := "$6$".toList ++ List.ofFn fun i => saltChar (random i)
  bytes := by
    have hbytes : isBytes ("$6$".toList ++ alphabet) = true := by decide
    have hall := isBytes_iff.mp hbytes
    rw [List.forall_mem_append] at hall
    intro c hc
    rcases List.mem_append.mp hc with hc | hc
    · exact hall.1 c hc
    · obtain ⟨i, rfl⟩ := List.mem_ofFn.mp hc
      exact hall.2 _ (saltChar_mem (random i))

/-! ## The table -/

structure UserRow where
  userId : Int
  username : CString
  hashedPassword : CString
  deriving DecidableEq

/-- `username TEXT NOT NULL UNIQUE` -/
structure Users where
  table : Table UserRow.userId
  unique : ∀ r ∈ table.rows, ∀ r' ∈ table.rows, r.username = r'.username → r.userId = r'.userId

def Users.byName (users : Users) (username : CString) : Option UserRow :=
  users.table.rows.find? fun r => r.username = username

/-- The row after an update of the row with the number. -/
def UserRow.store (userId : Int) (hash : CString) (r : UserRow) : UserRow :=
  if r.userId = userId then { r with hashedPassword := hash } else r

@[simp] theorem UserRow.userId_store (userId : Int) (hash : CString) (r : UserRow) :
    (r.store userId hash).userId = r.userId := by
  unfold store
  split <;> rfl

@[simp] theorem UserRow.username_store (userId : Int) (hash : CString) (r : UserRow) :
    (r.store userId hash).username = r.username := by
  unfold store
  split <;> rfl

theorem rows_store (t : Table UserRow.userId) (userId : Int) (hash : CString) :
    (t.updateWhere (·.userId = userId) (fun r => { r with hashedPassword := hash }) fun _ => rfl).rows =
      t.rows.map (UserRow.store userId hash) := by
  simp [Table.updateWhere, UserRow.store]

/-- `UPDATE users SET hashed_password = ?1 WHERE user_id = ?2` -/
def Users.setPassword (users : Users) (userId : Int) (hash : CString) : Users where
  table := users.table.updateWhere (·.userId = userId) (fun r => { r with hashedPassword := hash }) fun _ => rfl
  unique := by
    intro r hr r' hr' hname
    rw [rows_store] at hr hr'
    obtain ⟨old, hold, rfl⟩ := List.mem_map.mp hr
    obtain ⟨old', hold', rfl⟩ := List.mem_map.mp hr'
    rw [UserRow.username_store, UserRow.username_store] at hname
    rw [UserRow.userId_store, UserRow.userId_store]
    exact users.unique old hold old' hold' hname

/-! ## `user_valid_auth` -/

/-- A call with its pointers, and what it meets. -/
structure AuthCall where
  username : Option CString
  password : Option CString
  prepare_ok : Bool := true
  step_ok : Bool := true
  /-- the bytes of `/dev/urandom` -/
  random : Option (Fin 16 → BitVec 8) := none
  strdup_ok : Bool := true
  prepareUpdate_ok : Bool := true
  stepUpdate_ok : Bool := true

def hashPassword (h : Hashes) (c : AuthCall) (password : CString) : Option CString :=
  c.random.bind fun random => (h.crypt password (salt random)).filter fun _ => c.strdup_ok

def isCrypt (stored : CString) : Bool := strncmpEq stored.text "$6$".toList 3

/-- The password belongs to what is stored. -/
def valid (h : Hashes) (password stored : CString) : Bool :=
  if isCrypt stored then (h.crypt password stored).any (secureEqual · stored)
  else secureEqual (h.md5 password) stored

/-- A password that is stored the old way is stored anew. -/
def Users.upgrade (users : Users) (h : Hashes) (c : AuthCall) (password : CString) (row : UserRow) : Users :=
  if valid h password row.hashedPassword && !isCrypt row.hashedPassword then
    match hashPassword h c password with
    | none => users
    | some newHash =>
        if c.prepareUpdate_ok && c.stepUpdate_ok then users.setPassword (toInt32 row.userId) newHash else users
  else users

def userValidAuth (h : Hashes) (users : Users) (c : AuthCall) : Users × Int :=
  match c.username, c.password with
  | some username, some password =>
      if !c.prepare_ok || !c.step_ok then (users, -1)
      else match users.byName username with
      | none => (users, 0)
      | some row =>
          (users.upgrade h c password row, if valid h password row.hashedPassword then 1 else 0)
  | _, _ => (users, 0)

def Users.after (users : Users) (h : Hashes) (calls : List AuthCall) : Users :=
  run (fun users c => (userValidAuth h users c).1) users calls

end Tle.Accounts
