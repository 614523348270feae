import Tle.Accounts.Lemmas.Runs

/-!
# An account is for ever
-/

namespace Tle.Accounts
open Tle.Lib Tle.Web Tle.Queue

variable {h : Hashes} {a a' : Store} {e : Conditions} {rest : Answers} {evs : List Event} {u p : Text} {k : Int}
  {name username password hash : CString} {conn : ConnectionInfo}

/-! ## The handler and the tables -/

theorem userRegister_answers (username password : CString) :
    Web.userRegister (answers h a e rest) username.text password.text =
      (a.userRegister h e (some username) (some password)).2 := by
  have hexists : (answers h a e rest).userExists username.text = a.userExists e username := by simp [answers]
  have hhash : (answers h a e rest).hashPassword password.text = (hashPassword h e.auth password).map (·.text) := by
    simp [answers]
  rw [Web.userRegister, Store.userRegister, hexists, hhash]
  split
  · rfl
  · split
    · rfl
    · cases hashPassword h e.auth password with
      | none => rfl
      | some hash =>
          simp only [Option.map_some, answers, ofText_text, Option.bind_some]
          cases e.insertUser_ok with
          | false => rfl
          | true => cases a.insertUser username hash <;> rfl

theorem ofText_of_register (hdone : Web.userRegister (answers h a e rest) u p = 0) :
    ∃ username password, ofText u = some username ∧ ofText p = some password := by
  unfold Web.userRegister at hdone
  split at hdone
  · cases hdone
  · split at hdone
    · cases hdone
    · split at hdone
      · cases hdone
      · rename_i hash hhash
        simp only [answers, Option.map_eq_some_iff, Option.bind_eq_some_iff] at hhash
        obtain ⟨-, ⟨password, hpassword, -⟩, -⟩ := hhash
        cases husername : ofText u with
        | some username => exact ⟨username, password, rfl, hpassword⟩
        | none =>
            simp only [answers, husername, Option.bind_none] at hdone
            split at hdone
            · cases hdone
            · cases hdone
            · rename_i hinsert
              split at hinsert <;> cases hinsert

/-- An account is made by the handler when the tables have got one. -/
theorem register_effects (queue : Session) : (register (answers h a e rest) conn queue).effects ≠ [] ↔
    ∃ username password hash a', ofText conn.username.text = some username ∧
      ofText conn.password.text = some password ∧ hashPassword h e.auth password = some hash ∧
      a.insertUser username hash = some a' ∧ Section.run h a (.register conn, e) = a' ∧
      Section.events h a (.register conn, e) =
        [.registered conn.username.text conn.password.text (a.sequence + 1)] := by
  have hzero : (register (answers h a e rest) conn queue).effects ≠ [] ↔
      Web.userRegister (answers h a e rest) conn.username.text conn.password.text = 0 := by
    unfold register
    split
    · rename_i heq
      simp [heq]
    · rename_i heq
      simp [heq]
    · rename_i hexists hdone
      simpa using hdone
  rw [hzero]
  constructor
  · intro hdone
    obtain ⟨username, password, husername, hpassword⟩ := ofText_of_register hdone
    rw [← text_of_ofText husername, ← text_of_ofText hpassword, userRegister_answers] at hdone
    have hsection : registerSection h a e conn = a.userRegister h e (some username) (some password) := by
      rw [registerSection, husername, hpassword]
    obtain ⟨-, hfailed⟩ | ⟨username', password', hash, heq, heq', -, -, hhash, hinsert, -⟩ :=
      userRegister_cases h a e (some username) (some password)
    · exact absurd hdone hfailed
    · cases heq
      cases heq'
      refine ⟨username, password, hash, _, husername, hpassword, hhash, hinsert, ?_, ?_⟩
      · rw [Section.run, hsection]
      · rw [Section.events, hsection, if_pos hdone]
  · rintro ⟨username, password, hash, a', husername, hpassword, -, -, -, hevents⟩
    rw [← text_of_ofText husername, ← text_of_ofText hpassword, userRegister_answers]
    by_contra hfailed
    rw [Section.events, registerSection, husername, hpassword, if_neg hfailed] at hevents
    cases hevents

/-! ## What becomes of an account -/

/-- What `hash_password` has stored accepts the passwords that it is the hash of. -/
theorem userValidAuth_iff {row : UserRow} (hprepare : e.auth.prepare_ok = true) (hstep : e.auth.step_ok = true)
    (hrow : a.users.byName name = some row) (hcrypt : isCrypt row.hashedPassword = true) (q : CString) :
    (answers h a e rest).userValidAuth name.text q.text = 1 ↔
      h.crypt q row.hashedPassword = some row.hashedPassword := by
  have hvalid : valid h q row.hashedPassword = true ↔ h.crypt q row.hashedPassword = some row.hashedPassword := by
    simp [valid, hcrypt, Option.any_eq_true, secureEqual_iff]
  rw [← hvalid]
  simp only [answers, authCall, Option.bind_some, ofText_text, userValidAuth, hprepare, hstep, hrow]
  cases valid h q row.hashedPassword <;> simp

/-- Whatever other people do: once an account is made, it keeps its number and the hash of its password, and nobody
gets another account under its name. -/
theorem registration_permanent (h : Hashes) (laws : h.Salted) (a : Store) (hproper : a.Proper)
    (before : List (Section × Conditions)) (conn : ConnectionInfo) (e : Conditions) (rest : Answers) (queue : Session)
    (hmade : (register (answers h (after h a before) e rest) conn queue).effects ≠ []) :
    ∃ (k : Int) (password hash : CString), password.text = conn.password.text ∧
      hashPassword h e.auth password = some hash ∧ h.crypt password hash = some hash ∧
      ∀ behind, (after h a (before ++ (.register conn, e) :: behind)).sequence < 2 ^ 31 →
        ∀ (e' : Conditions) (rest' : Answers),
          (e'.selectId_ok = true → userFetchIdByUsername
            (answers h (after h a (before ++ (.register conn, e) :: behind)) e' rest') conn.username.text = k) ∧
          (e'.auth.prepare_ok = true → e'.auth.step_ok = true → ∀ q : CString,
            (answers h (after h a (before ++ (.register conn, e) :: behind)) e' rest').userValidAuth
              conn.username.text q.text = 1 ↔ h.crypt q hash = some hash) ∧
          ∀ (conn' : ConnectionInfo) (queue' : Session), conn'.username.text = conn.username.text →
            (register (answers h (after h a (before ++ (.register conn, e) :: behind)) e' rest') conn'
              queue').effects = [] := by
  obtain ⟨username, password, hash, a', husername, hpassword, hhash, hinsert, hrun, -⟩ :=
    (register_effects queue).mp hmade
  obtain ⟨hcrypt, hagain⟩ := hashPassword_spec laws hhash
  refine ⟨(after h a before).sequence + 1, password, hash, text_of_ofText hpassword, hhash, hagain, ?_⟩
  intro behind hsmall e' rest'
  -- the account is in the tables from here on
  have hmade' : after h a (before ++ [(.register conn, e)]) = a' := after_snoc _ _ |>.trans hrun
  rw [after_split, hmade'] at hsmall ⊢
  have hproper' : a'.Proper := by
    rw [← hmade']
    apply (keeps_after hproper _ _).1
    rw [hmade']
    exact Int.lt_of_le_of_lt (sequence_le_after h a' behind) hsmall
  obtain ⟨hproper'', hextends⟩ := keeps_after hproper' behind hsmall
  have hrow := hextends.crypted username _ (byName_insertUser hinsert username ▸ if_pos rfl) hcrypt
  generalize after h a' behind = b at hsmall hproper'' hrow ⊢
  rw [← text_of_ofText husername]
  refine ⟨?_, fun hprepare hstep q => userValidAuth_iff hprepare hstep hrow hcrypt q, ?_⟩
  · intro hok
    simp only [userFetchIdByUsername, answers, hok, if_true, ofText_text, Option.bind_some, hrow, Option.map_some,
      Option.getD_some]
    exact hproper''.toInt32 hsmall (byName_mem hrow).1
  · intro conn' queue' hsame
    by_contra hagain'
    obtain ⟨username', password', hash', b', husername', -, -, hinsert', -⟩ := (register_effects queue').mp hagain'
    rw [hsame, ofText_text] at husername'
    cases husername'
    rw [byName_of_insertUser hinsert'] at hrow
    cases hrow

/-! ## Names and numbers -/

/-- The name and the number of a new account. -/
def Event.account : Event → Option (Text × Int)
  | .registered username _ userId => some (username, userId)
  | _ => none

/-- The numbers that have been given out are below those to come, and their owners are in the table. -/
structure Given (accounts : List (Text × Int)) (a : Store) : Prop where
  ordered : accounts.Pairwise fun x y => x.2 < y.2 ∧ x.1 ≠ y.1
  below : ∀ x ∈ accounts, x.2 ≤ a.sequence
  owners : ∀ x ∈ accounts, ∃ name : CString, name.text = x.1 ∧ a.users.number name = some x.2

variable {accounts : List (Text × Int)}

theorem Given.of_numbers (hgiven : Given accounts a) (hsequence : a'.sequence = a.sequence)
    (hnumbers : ∀ name, a'.users.number name = a.users.number name) : Given accounts a' where
  ordered := hgiven.ordered
  below := by rw [hsequence]; exact hgiven.below
  owners := by simpa only [hnumbers] using hgiven.owners

theorem Given.insertUser (hgiven : Given accounts a) (hinsert : a.insertUser username hash = some a') :
    Given (accounts ++ [(username.text, a.sequence + 1)]) a' := by
  have hsequence := sequence_insertUser hinsert
  refine ⟨?_, ?_, ?_⟩
  · rw [List.pairwise_append]
    refine ⟨hgiven.ordered, List.pairwise_singleton _ _, ?_⟩
    intro x hx y hy
    cases List.mem_singleton.mp hy
    refine ⟨Int.lt_add_one_of_le (hgiven.below x hx), ?_⟩
    intro hname
    obtain ⟨name, htext, hnumber⟩ := hgiven.owners x hx
    rw [CString.ext (htext.trans hname), Users.number, byName_of_insertUser hinsert] at hnumber
    cases hnumber
  · rw [List.forall_mem_append, List.forall_mem_singleton, hsequence]
    exact ⟨fun x hx => Int.le_trans (hgiven.below x hx) (Int.le_of_lt (Int.lt_succ _)), Int.le_refl _⟩
  · rw [List.forall_mem_append, List.forall_mem_singleton]
    constructor
    · intro x hx
      obtain ⟨name, htext, hnumber⟩ := hgiven.owners x hx
      exact ⟨name, htext, (extends_insertUser hinsert).number name _ hnumber⟩
    · refine ⟨username, rfl, ?_⟩
      rw [Users.number, byName_insertUser hinsert, if_pos rfl, Option.map_some]

theorem Given.change (hgiven : Given accounts a) (hchange : Change h a evs a') :
    Given (accounts ++ evs.filterMap Event.account) a' := by
  have hsame : ∀ {a'' : Store}, a''.sequence = a.sequence → (∀ name, a''.users.number name = a.users.number name) →
      Given (accounts ++ []) a'' := by
    intro a'' hsequence hnumbers
    rw [List.append_nil]
    exact hgiven.of_numbers hsequence hnumbers
  cases hchange with
  | nothing => exact hsame rfl fun _ => rfl
  | checked c => exact hsame (sequence_validAuth h a c) (number_validAuth h a c)
  | registered _ _ _ hinsert => exact hgiven.insertUser hinsert
  | @loggedIn c _ _ _ _ _ _ _ _ _ _ _ _ _ hinsert =>
      obtain ⟨husers, hsequence, -⟩ := insertSession_spec hinsert
      exact hsame hsequence fun name => husers ▸ number_validAuth h a c name
  | loggedOut token => exact hsame (sequence_deleteSession a token) fun _ => rfl

/-- In every history the numbers of the accounts ascend, no two accounts have one name, and each has its number
to the end. -/
theorem accounts_ordered (h : Hashes) (a : Store) (sections : List (Section × Conditions)) :
    ((events h a sections).filterMap Event.account).Pairwise (fun x y => x.2 < y.2 ∧ x.1 ≠ y.1) ∧
      ∀ x ∈ (events h a sections).filterMap Event.account,
        ∃ name : CString, name.text = x.1 ∧ (after h a sections).users.number name = some x.2 := by
  have hgiven : Given ((events h a sections).filterMap Event.account) (after h a sections) := by
    refine run_invariant (P := fun evs a' => Given (evs.filterMap Event.account) a') ?_ ?_ sections
    · exact ⟨List.Pairwise.nil, by simp, by simp⟩
    · intro evs a' s hgiven
      rw [List.filterMap_append]
      exact hgiven.change (section_change h a' s)
  exact ⟨hgiven.ordered, hgiven.owners⟩

/-! ## Two users -/

def noUsers : Store where
  users := ⟨Table.empty, by simp [Table.empty]⟩
  sequence := 0
  sessions := Table.empty
  numbered := by simp [Table.empty]
  owned := by simp [Table.empty]

theorem proper_noUsers : noUsers.Proper where
  started := Int.le_refl 0
  numbers := by simp [noUsers, Table.empty]
  names := by simp [noUsers, Table.empty]

/-- A form with a password that everybody has. -/
def formOf (username : Text) : ConnectionInfo where
  username := ((Buffer.zero 32).put 0 username).getD (.zero 32)
  password := ((Buffer.zero 256).put 0 "password".toList).getD (.zero 256)

/-- Every random byte is zero. -/
def zeros : Conditions where
  auth := { username := none, password := none, random := some zeroSalt }
  token := some [List.replicate 32 0]
  csrf := some [List.replicate 32 0]

/-- Ann has an account, and then Bob gets one. -/
theorem registration_permanent_ann : (answers sampleHashes (after sampleHashes noUsers
    [(.register (formOf "ann".toList), zeros), (.register (formOf "bob".toList), zeros)]) {} {}).userValidAuth
      "ann".toList "password".toList = 1 := by
  obtain ⟨k, password, hash, hpassword, -, hagain, hlater⟩ := registration_permanent sampleHashes
    sampleHashes_lawful.toSalted noUsers proper_noUsers [] (formOf "ann".toList) zeros {} (.idle Db.empty) (by decide)
  have hname : (formOf "ann".toList).username.text = "ann".toList := by decide
  have htext : (formOf "ann".toList).password.text = "password".toList := by decide
  have haccepts := ((hlater [(.register (formOf "bob".toList), zeros)] (by decide) {} {}).2.1 rfl rfl password).mpr
    hagain
  rw [hname, hpassword, htext] at haccepts
  exact haccepts

end Tle.Accounts
