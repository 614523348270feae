import Tle.Accounts.System

/-!
# What the statements do to the tables
-/

namespace Tle.Accounts
open Tle.Lib Tle.Web

variable {h : Hashes} {a a' : Store} {c : AuthCall} {row : SessionRow} {name username hash q : CString}
  {n n' : Nat} {b : Bool} {text token : Text} {r : UserRow} {random : Option (List (List (BitVec 8)))}

/-! ## C strings -/

@[simp] theorem ofText_text (s : CString) : ofText s.text = some s := by
  rw [ofText, dif_pos (isBytes_iff.mpr s.bytes)]

theorem text_of_ofText (htext : ofText text = some name) : name.text = text := by
  unfold ofText at htext
  split at htext
  · cases htext
    rfl
  · cases htext

/-! ## `random_hex` -/

theorem length_readBytes {reads : List (List (BitVec 8))} {bytes : List (BitVec 8)}
    (hread : readBytes n reads = some bytes) : bytes.length = n := by
  induction reads generalizing n bytes with
  | nil =>
      cases n with
      | zero =>
          cases hread
          rfl
      | succ n => cases hread
  | cons got reads ih =>
      cases n with
      | zero =>
          cases hread
          rfl
      | succ n =>
          rw [readBytes] at hread
          split at hread
          · cases hread
          · obtain ⟨rest, hrest, rfl⟩ := Option.map_eq_some_iff.mp hread
            have hlength := ih hrest
            have htake : (got.take (n + 1)).length ≤ n + 1 := List.length_take_le _ _
            rw [List.length_append, hlength]
            omega

theorem hexDigit_mem (n : Nat) : hexDigit n ∈ hex := by
  have hlt : n % 16 < hex.length := Nat.mod_lt _ (by decide)
  rw [hexDigit, List.getElem?_eq_getElem hlt, Option.getD_some]
  exact List.getElem_mem hlt

/-- A token is 64 digits. -/
theorem randomHex_spec (hrandom : randomHex random 65 = some token) : token.length = 64 ∧ ∀ c ∈ token, c ∈ hex := by
  rw [randomHex, if_neg (Nat.lt_irrefl 65)] at hrandom
  obtain ⟨bytes, hread, rfl⟩ := Option.map_eq_some_iff.mp hrandom
  obtain ⟨reads, -, hread⟩ := Option.bind_eq_some_iff.mp hread
  have hbytes := length_readBytes hread
  constructor
  · simp [List.length_flatMap, List.map_const', hbytes]
  · intro c hc
    obtain ⟨byte, -, hc⟩ := List.mem_flatMap.mp hc
    simp only [List.mem_cons, List.not_mem_nil, or_false] at hc
    rcases hc with rfl | rfl
    · exact hexDigit_mem _
    · exact hexDigit_mem _

/-! ## Users -/

/-- The number under the name. -/
def Users.number (users : Users) (name : CString) : Option Int := (users.byName name).map (·.userId)

theorem number_eq_some_iff {users : Users} {k : Int} :
    users.number name = some k ↔ ∃ r, users.byName name = some r ∧ r.userId = k := Option.map_eq_some_iff

theorem insertUser_eq_none_iff : a.insertUser username hash = none ↔ ∃ r, a.users.byName username = some r := by
  unfold Store.insertUser
  split
  · rename_i hname
    simp [hname]
  · rename_i hname
    simpa using Option.ne_none_iff_exists'.mp hname

section InsertUser

variable (hinsert : a.insertUser username hash = some a')

include hinsert

theorem byName_of_insertUser : a.users.byName username = none := by
  cases hfind : a.users.byName username with
  | none => rfl
  | some r =>
      rw [insertUser_eq_none_iff.mpr ⟨r, hfind⟩] at hinsert
      cases hinsert

theorem rows_insertUser : a'.users.table.rows =
    a.users.table.rows ++ [{ userId := a.sequence + 1, username, hashedPassword := hash }] := by
  unfold Store.insertUser at hinsert
  split at hinsert
  · cases hinsert
    rfl
  · cases hinsert

theorem sequence_insertUser : a'.sequence = a.sequence + 1 := by
  unfold Store.insertUser at hinsert
  split at hinsert
  · cases hinsert
    rfl
  · cases hinsert

theorem sessions_insertUser : a'.sessions = a.sessions := by
  unfold Store.insertUser at hinsert
  split at hinsert
  · cases hinsert
    rfl
  · cases hinsert

theorem byName_insertUser (name : CString) : a'.users.byName name =
    if username = name then some { userId := a.sequence + 1, username, hashedPassword := hash }
    else a.users.byName name := by
  rw [Users.byName, rows_insertUser hinsert, List.find?_append]
  split
  · rename_i hname
    subst hname
    have hnone : a.users.table.rows.find? (fun r => r.username = username) = none := byName_of_insertUser hinsert
    rw [hnone]
    simp
  · rename_i hname
    rw [List.find?_cons_of_neg (by simpa using hname), List.find?_nil, Option.or_none]
    rfl

end InsertUser

/-! ## Sessions -/

theorem insertSession_spec (hinsert : a.insertSession row = some a') :
    a'.users = a.users ∧ a'.sequence = a.sequence ∧ a.sessions.insert? row = some a'.sessions := by
  unfold Store.insertSession at hinsert
  split at hinsert
  · split at hinsert
    · cases hinsert
    · rename_i sessions hsessions
      cases hinsert
      exact ⟨rfl, rfl, hsessions⟩
  · cases hinsert

theorem find_deleteSession (a : Store) (token token' : Text) :
    (a.deleteSession token).sessions.find token' = if token' = token then none else a.sessions.find token' := by
  have hfind := Table.find_deleteWhere a.sessions token token'
  convert hfind using 2
  simp only [Store.deleteSession]
  congr 1
  funext s
  exact decide_eq_decide.mpr Iff.rfl

@[simp] theorem users_deleteSession (a : Store) (token : Text) : (a.deleteSession token).users = a.users := rfl

@[simp] theorem sequence_deleteSession (a : Store) (token : Text) : (a.deleteSession token).sequence = a.sequence := rfl

/-! ## `user_valid_auth` -/

@[simp] theorem sequence_validAuth (h : Hashes) (a : Store) (c : AuthCall) :
    (a.validAuth h c).1.sequence = a.sequence := rfl

@[simp] theorem sessions_validAuth (h : Hashes) (a : Store) (c : AuthCall) :
    (a.validAuth h c).1.sessions = a.sessions := rfl

theorem number_validAuth (h : Hashes) (a : Store) (c : AuthCall) (name : CString) :
    (a.validAuth h c).1.users.number name = a.users.number name := by
  have husers : (a.validAuth h c).1.users = (userValidAuth h a.users c).1 := rfl
  rw [husers, Users.number, Users.number]
  rcases userValidAuth_cases h a.users c with heq | ⟨username, p, row, newHash, -, -, -, -, -, heq⟩
  · rw [heq]
  · rw [heq, byName_setPassword, Option.map_map]
    congr 1
    funext r
    simp

end Tle.Accounts
