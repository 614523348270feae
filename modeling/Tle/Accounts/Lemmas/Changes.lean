import Tle.Accounts.Lemmas.Store

/-!
# What a critical section can do
-/

namespace Tle.Accounts
open Tle.Lib Tle.Web

inductive Change (h : Hashes) (a : Store) : List Event → Store → Prop
  | nothing : Change h a [] a
  | checked (c : AuthCall) : Change h a [] (a.validAuth h c).1
  | registered {username password hash : CString} {c : AuthCall} {a' : Store} :
      username.text ≠ [] → username.text.length ≤ 31 → hashPassword h c password = some hash →
      a.insertUser username hash = some a' →
      Change h a [.registered username.text password.text (a.sequence + 1)] a'
  | loggedIn {c : AuthCall} {username password : CString} {row : UserRow} {e : Conditions} {token csrf : Text}
      {a' : Store} :
      c.username = some username → c.password = some password → (a.validAuth h c).2 = 1 →
      (a.validAuth h c).1.users.byName username = some row →
      randomHex e.token 65 = some token → randomHex e.csrf 65 = some csrf →
      (a.validAuth h c).1.insertSession { token, userId := toInt32 row.userId, csrfToken := csrf } = some a' →
      Change h a [.loggedIn username.text password.text (toInt32 row.userId) token csrf] a'
  | loggedOut (token : Text) : Change h a [.loggedOut token] (a.deleteSession token)

variable {h : Hashes} {a a' : Store} {e : Conditions} {rest : Answers} {conn : ConnectionInfo} {name : CString}
  {userId : Int} {token csrf : Text}

theorem userRegister_cases (h : Hashes) (a : Store) (e : Conditions) (u p : Option CString) :
    ((a.userRegister h e u p).1 = a ∧ (a.userRegister h e u p).2 ≠ 0) ∨
      ∃ username password hash, u = some username ∧ p = some password ∧ username.text ≠ [] ∧
        username.text.length ≤ 31 ∧ hashPassword h e.auth password = some hash ∧
        a.insertUser username hash = some (a.userRegister h e u p).1 ∧ (a.userRegister h e u p).2 = 0 := by
  unfold Store.userRegister
  split
  · rename_i username password
    split
    · simp
    · rename_i hlengths
      simp only [not_or, Nat.not_lt] at hlengths
      split
      · simp
      · split
        · simp
        · rename_i hash hhash
          split
          · simp
          · split
            · simp
            · rename_i a' hinsert
              exact Or.inr ⟨username, password, hash, rfl, rfl, hlengths.1, hlengths.2.2.1, hhash, hinsert, rfl⟩
  · simp

theorem sessionCreate_spec (hcreate : a.sessionCreate e userId = some (a', token, csrf)) :
    randomHex e.token 65 = some token ∧ randomHex e.csrf 65 = some csrf ∧
      a.insertSession { token, userId, csrfToken := csrf } = some a' := by
  unfold Store.sessionCreate at hcreate
  split at hcreate
  · rename_i htoken hcsrf
    split at hcreate
    · cases hcreate
    · obtain ⟨stored, hinsert, heq⟩ := Option.map_eq_some_iff.mp hcreate
      cases heq
      exact ⟨htoken, hcsrf, hinsert⟩
  · cases hcreate

theorem userFetchIdByUsername_answers (hid : 0 ≤ userFetchIdByUsername (answers h a e rest) name.text) :
    ∃ row, a.users.byName name = some row ∧
      userFetchIdByUsername (answers h a e rest) name.text = toInt32 row.userId := by
  simp only [userFetchIdByUsername, answers, ofText_text, Option.bind_some] at hid ⊢
  cases hok : e.selectId_ok with
  | false => simp [hok] at hid
  | true =>
      cases hrow : a.users.byName name with
      | none => simp [hok, hrow] at hid
      | some row => exact ⟨row, rfl, by simp⟩

theorem validAuth_pointers {c : AuthCall} (hvalid : (a.validAuth h c).2 = 1) :
    ∃ username password, c.username = some username ∧ c.password = some password := by
  have hanswer : (userValidAuth h a.users c).2 = 1 := hvalid
  unfold userValidAuth at hanswer
  split at hanswer
  · rename_i username password husername hpassword
    exact ⟨username, password, husername, hpassword⟩
  · cases hanswer

/-- A login has checked the password and stored a session, or it has at most stored the password anew. -/
theorem loginSection_cases (h : Hashes) (a : Store) (e : Conditions) (conn : ConnectionInfo) :
    (∃ c, loginSection h a e conn = ((a.validAuth h c).1, none)) ∨
      ∃ username password row token csrf a', ofText conn.username.text = some username ∧
        ofText conn.password.text = some password ∧
        (a.validAuth h { e.auth with username := some username, password := some password }).2 = 1 ∧
        (a.validAuth h { e.auth with username := some username, password := some password }).1.users.byName username =
          some row ∧ randomHex e.token 65 = some token ∧ randomHex e.csrf 65 = some csrf ∧
        (a.validAuth h { e.auth with username := some username, password := some password }).1.insertSession
          { token, userId := toInt32 row.userId, csrfToken := csrf } = some a' ∧
        loginSection h a e conn = (a', some (toInt32 row.userId, token, csrf)) := by
  have hfirst : loginSection h a e conn =
      let c := authCall e (some conn.username.text) (some conn.password.text)
      let loginId :=
        if (a.validAuth h c).2 = 1 then
          userFetchIdByUsername (answers h (a.validAuth h c).1 e {}) conn.username.text
        else -1
      if 0 ≤ loginId then
        ((a.validAuth h c).1.sessionCreate e loginId).elim ((a.validAuth h c).1, none)
          (fun created => (created.1, some (loginId, created.2)))
      else ((a.validAuth h c).1, none) := by
    unfold loginSection
    dsimp only
    generalize a.validAuth h (authCall e (some conn.username.text) (some conn.password.text)) = checked
    obtain ⟨a', valid⟩ := checked
    dsimp only
    rcases a'.sessionCreate e _ with _ | ⟨a'', token, csrf⟩ <;> rfl
  by_cases hvalid : (a.validAuth h (authCall e (some conn.username.text) (some conn.password.text))).2 = 1
  · obtain ⟨username, password, husername, hpassword⟩ := validAuth_pointers hvalid
    replace husername : ofText conn.username.text = some username := husername
    replace hpassword : ofText conn.password.text = some password := hpassword
    have hcall : authCall e (some conn.username.text) (some conn.password.text) =
        { e.auth with username := some username, password := some password } := by
      simp [authCall, husername, hpassword]
    rw [hfirst, hcall, ← text_of_ofText husername]
    rw [hcall] at hvalid
    simp only [if_pos hvalid]
    split
    · rename_i hloginId
      obtain ⟨row, hrow, hid⟩ := userFetchIdByUsername_answers hloginId
      rw [hid]
      cases hcreate : (a.validAuth h
          { e.auth with username := some username, password := some password }).1.sessionCreate e
            (toInt32 row.userId) with
      | none => exact Or.inl ⟨_, rfl⟩
      | some created =>
        obtain ⟨a', token, csrf⟩ := created
        obtain ⟨htoken, hcsrf, hinsert⟩ := sessionCreate_spec hcreate
        exact Or.inr ⟨username, password, row, token, csrf, a', ofText_text username, hpassword, hvalid, hrow, htoken,
          hcsrf, hinsert, rfl⟩
    · exact Or.inl ⟨_, rfl⟩
  · rw [hfirst]
    simp only [if_neg hvalid]
    exact Or.inl ⟨_, rfl⟩

theorem section_change (h : Hashes) (a : Store) (s : Section × Conditions) :
    Change h a (Section.events h a s) (Section.run h a s) := by
  obtain ⟨s, e⟩ := s
  cases s with
  | authenticate r =>
      simp only [Section.events, Section.run, authenticateSection]
      split
      · exact Change.nothing
      · exact Change.checked _
  | register conn =>
      have hsection : registerSection h a e conn =
          a.userRegister h e (ofText conn.username.text) (ofText conn.password.text) := rfl
      rw [Section.events, Section.run, hsection]
      obtain ⟨heq, hfailed⟩ | ⟨username, password, hash, husername, hpassword, hne, hlength, hhash, hinsert, hdone⟩ :=
        userRegister_cases h a e (ofText conn.username.text) (ofText conn.password.text)
      · rw [heq, if_neg hfailed]
        exact Change.nothing
      · rw [if_pos hdone, ← text_of_ofText husername, ← text_of_ofText hpassword]
        rw [husername, hpassword] at hinsert
        simp only [ofText_text]
        exact Change.registered hne hlength hhash hinsert
  | login conn =>
      simp only [Section.events, Section.run]
      obtain ⟨c, heq⟩ | ⟨username, password, row, token, csrf, a', husername, hpassword, hvalid, hrow, htoken, hcsrf,
        hinsert, heq⟩ := loginSection_cases h a e conn
      · rw [heq]
        exact Change.checked c
      · rw [heq, ← text_of_ofText husername, ← text_of_ofText hpassword]
        exact Change.loggedIn rfl rfl hvalid hrow htoken hcsrf hinsert
  | logout r =>
      simp only [Section.events, Section.run, Store.sessionDestroy]
      cases sessionToken r with
      | none => exact Change.nothing
      | some token =>
          dsimp only
          split
          · exact Change.nothing
          · exact Change.loggedOut token

/-- Which section an event is of. -/
theorem mem_events {s : Section × Conditions} {ev : Event} (hevent : ev ∈ Section.events h a s) :
    (∃ conn e, s = (.register conn, e) ∧
      ev = .registered conn.username.text conn.password.text (a.sequence + 1)) ∨
    (∃ conn e k token csrf, s = (.login conn, e) ∧
      ev = .loggedIn conn.username.text conn.password.text k token csrf) ∨
    ∃ r e token, s = (.logout r, e) ∧ sessionToken r = some token ∧ ev = .loggedOut token := by
  obtain ⟨s, e⟩ := s
  cases s with
  | authenticate r => cases hevent
  | register conn =>
      rw [Section.events] at hevent
      split at hevent
      · exact Or.inl ⟨conn, e, rfl, List.mem_singleton.mp hevent⟩
      · cases hevent
  | login conn =>
      rw [Section.events] at hevent
      split at hevent
      · cases hevent
      · exact Or.inr (Or.inl ⟨conn, e, _, _, _, rfl, List.mem_singleton.mp hevent⟩)
  | logout r =>
      rw [Section.events] at hevent
      split at hevent
      · cases hevent
      · rename_i token htoken
        split at hevent
        · cases hevent
        · exact Or.inr (Or.inr ⟨r, e, token, rfl, htoken, List.mem_singleton.mp hevent⟩)

end Tle.Accounts
