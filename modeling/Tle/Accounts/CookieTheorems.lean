import Tle.Accounts.SessionTheorems
import Tle.Web.HeaderTheorems

/-!
# The cookie of a login works until somebody logs out with it
-/

namespace Tle.Accounts
open Tle.Lib Tle.Web Tle.Queue

variable {h : Hashes} {a a' : Store} {e : Conditions} {rest : Answers} {userId : Int} {r : Request} {server : Server}
  {token cookie : Text} {row : SessionRow} {conn : ConnectionInfo} {sections : List (Section × Conditions)}

/-! ## The login of the handler -/

theorem isSome_insertSession (hfind : (a'.users.table.find row.userId).isSome = (a.users.table.find row.userId).isSome)
    (hsessions : a'.sessions = a.sessions) : (a'.insertSession row).isSome = (a.insertSession row).isSome := by
  have hsome : ∀ a : Store, (a.insertSession row).isSome =
      ((a.users.table.find row.userId).isSome && (a.sessions.insert? row).isSome) := by
    intro a
    unfold Store.insertSession
    split
    · rename_i huser
      rw [huser, Bool.true_and]
      split
      · rename_i hnone
        rw [hnone]
        rfl
      · rename_i hsome
        exact (congrArg Option.isSome hsome).symm
    · rename_i huser
      rw [Bool.not_eq_true] at huser
      rw [huser]
      rfl
  rw [hsome, hsome, hfind, hsessions]

theorem sessionCreate_answers (c : AuthCall) (userId : Int) : Web.sessionCreate (answers h a e rest) userId =
    ((a.validAuth h c).1.sessionCreate e userId).map fun (_, token, _) => token := by
  simp only [Web.sessionCreate, answers, Store.sessionCreate]
  cases randomHex e.token 65 with
  | none => rfl
  | some token =>
      cases randomHex e.csrf 65 with
      | none => rfl
      | some csrf =>
          simp only [Option.bind_some, Option.map_some]
          have hinsert : ((a.validAuth h c).1.insertSession { token, userId, csrfToken := csrf }).isSome =
              (a.insertSession { token, userId, csrfToken := csrf }).isSome :=
            isSome_insertSession (isSome_find_userValidAuth h a.users c userId) rfl
          by_cases hok : e.insertSession_ok = true
          · simp only [hok, Bool.true_and, Bool.not_true, Bool.false_eq_true, if_false, ← hinsert]
            cases (a.validAuth h c).1.insertSession { token, userId, csrfToken := csrf } <;> rfl
          · simp [hok]

theorem fetchId_validAuth (c : AuthCall) (rest : Answers) (text : Text) :
    userFetchIdByUsername (answers h (a.validAuth h c).1 e {}) text =
      userFetchIdByUsername (answers h a e rest) text := by
  simp only [userFetchIdByUsername, answers]
  cases hname : ofText text with
  | none => rfl
  | some name =>
      have hnumber := congrArg (Option.map toInt32) (number_validAuth h a c name)
      rw [Users.number, Users.number, Option.map_map, Option.map_map] at hnumber
      simp only [Option.bind_some]
      exact congrArg (fun found : Option Int => (if e.selectId_ok then found else none).getD (-1)) hnumber

/-- What the handler takes for a login is one of the tables. -/
theorem openSession_answers : openSession (answers h a e rest) conn =
    (loginSection h a e conn).2.map fun (userId, token, _) => (userId, token) := by
  have hvalid : (answers h a e rest).userValidAuth conn.username.text conn.password.text =
      (a.validAuth h (authCall e (some conn.username.text) (some conn.password.text))).2 := rfl
  rw [openSession, hvalid, loginSection]
  simp only [sessionCreate_answers (authCall e (some conn.username.text) (some conn.password.text)),
    fetchId_validAuth _ rest]
  generalize (if (a.validAuth h (authCall e (some conn.username.text) (some conn.password.text))).2 = 1 then
    userFetchIdByUsername (answers h a e rest) conn.username.text else -1) = loginId
  by_cases hid : 0 ≤ loginId
  · rw [if_pos hid, if_pos hid]
    cases (a.validAuth h (authCall e (some conn.username.text) (some conn.password.text))).1.sessionCreate e loginId <;>
      rfl
  · rw [if_neg hid, if_neg hid]
    rfl

/-! ## The cookie -/

/-- The browser has sent the cookie back: what comes first under its name is what it was set to. -/
def Carries (cookie : Text) (r : Request) : Prop := ∃ header, r.cookie = some header ∧
  (cookiePieces header).find? (("tle_session".toList ++ ['=']).isPrefixOf ·) = some (cookie.takeWhile (· ≠ ';'))

theorem takeWhile_sessionCookie (hlength : token.length = 64) (hdigits : ∀ c ∈ token, c ∈ hex) :
    (sessionCookie server token).takeWhile (· ≠ ';') = "tle_session".toList ++ '=' :: token := by
  have hname : ∀ c ∈ "tle_session=".toList, decide (c ≠ ';') = true := by
    have hall : "tle_session=".toList.all (fun c => decide (c ≠ ';')) = true := by decide
    exact List.all_eq_true.mp hall
  have htoken : ∀ c ∈ token, decide (c ≠ ';') = true := by
    have hall : hex.all (fun c => decide (c ≠ ';')) = true := by decide
    exact fun c hc => List.all_eq_true.mp hall c (hdigits c hc)
  have hfront : ("tle_session=".toList ++ token).length = 76 := by
    rw [List.length_append, hlength]
    rfl
  obtain ⟨rest, hrest⟩ : ∃ rest, sessionCookie server token = "tle_session=".toList ++ token ++ ';' :: rest := by
    rw [sessionCookie, List.append_assoc, List.append_assoc, ← List.append_assoc, List.take_append, hfront,
      List.take_of_length_le (by omega)]
    exact ⟨_, rfl⟩
  have hall : ∀ c ∈ "tle_session=".toList ++ token, decide (c ≠ ';') = true :=
    List.forall_mem_append.mpr ⟨hname, htoken⟩
  rw [hrest, List.takeWhile_append_of_pos hall, List.takeWhile_cons_of_neg (by simp), List.append_nil]
  rfl

theorem carries_iff (hlength : token.length = 64) (hdigits : ∀ c ∈ token, c ∈ hex) :
    Carries (sessionCookie server token) r ↔ sessionToken r = some token := by
  have hcookie : CookieName "tle_session".toList := ⟨by decide, by decide, by decide, by decide, by decide⟩
  rw [Carries, takeWhile_sessionCookie hlength hdigits, sessionToken]
  generalize "tle_session".toList = name at hcookie ⊢
  cases r.cookie with
  | none => simp [cookieValue]
  | some header =>
      have hvalue : cookieValue (some header) name 65 = some token ↔
          namedPiece name header = some (name ++ '=' :: token) ∧ 1 ≤ token.length ∧ token.length < 65 :=
        cookieValueFrom_iff hcookie header token
      rw [hvalue, hlength, namedPiece]
      simp

/-! ## While nobody logs out -/

theorem logout_of_event {s : Section × Conditions} (hevent : .loggedOut token ∈ Section.events h a s) :
    ∃ r e, s = (.logout r, e) ∧ sessionToken r = some token := by
  obtain ⟨conn, e, -, hev⟩ | ⟨conn, e, k, token', csrf, -, hev⟩ | ⟨r, e, token', hs, htoken, hev⟩ := mem_events hevent
  · cases hev
  · cases hev
  · cases hev
    exact ⟨r, e, hs, htoken⟩

/-- Neither is a session written over: an open one refuses a new one with its token. -/
theorem find_run {s : Section × Conditions} (hfind : a.sessions.find token = some row)
    (hkept : ∀ r e, s = (Section.logout r, e) → sessionToken r ≠ some token) :
    (Section.run h a s).sessions.find token = some row := by
  have hchange := section_change h a s
  have hlogout : .loggedOut token ∉ Section.events h a s := by
    intro hevent
    obtain ⟨r, e, hs, htoken⟩ := logout_of_event hevent
    exact hkept r e hs htoken
  generalize Section.events h a s = evs, Section.run h a s = a' at hchange hlogout ⊢
  cases hchange with
  | nothing => exact hfind
  | checked c => exact hfind
  | registered hne hlength hhash hinsert => rw [sessions_insertUser hinsert, hfind]
  | @loggedIn c username password user e token' csrf a' husername hpassword hvalid hrow htoken hcsrf hinsert =>
      have hstored := (insertSession_spec hinsert).2.2
      have hfree := Table.find_of_insert? hstored
      rw [Table.find_insert? hstored, if_neg, sessions_validAuth, hfind]
      rintro rfl
      rw [sessions_validAuth, hfind] at hfree
      cases hfree
  | loggedOut token' =>
      rw [find_deleteSession, if_neg, hfind]
      rintro rfl
      exact hlogout (List.mem_singleton_self _)

theorem find_after (hfind : a.sessions.find token = some row)
    (hkept : ∀ r e, (Section.logout r, e) ∈ sections → sessionToken r ≠ some token) :
    (after h a sections).sessions.find token = some row := by
  induction sections using List.reverseRecOn with
  | nil => exact hfind
  | append_singleton sections s ih =>
      rw [after, run_snoc]
      apply find_run
      · exact ih fun r e hmem => hkept r e (List.mem_append_left _ hmem)
      · rintro r e rfl
        exact hkept r e (by simp)

theorem login_reply {queue : Session} (hlogin : (login server (answers h a e rest) conn queue).reply =
    .response 302 [("Location", server.baseUrl), ("Set-Cookie", cookie)] "") :
    ∃ k token csrf, (token.length = 64 ∧ ∀ c ∈ token, c ∈ hex) ∧ (csrf.length = 64 ∧ ∀ c ∈ csrf, c ∈ hex) ∧
      cookie = sessionCookie server token ∧
      Section.events h a (.login conn, e) = [.loggedIn conn.username.text conn.password.text k token csrf] := by
  rw [login, openSession_answers] at hlogin
  obtain ⟨c, heq⟩ | ⟨username, password, row, token, csrf, a', -, -, -, -, htoken, hcsrf, -, heq⟩ :=
    loginSection_cases h a e conn
  · rw [heq] at hlogin
    simp [basicResponse] at hlogin
  · rw [heq] at hlogin
    simp at hlogin
    refine ⟨toInt32 row.userId, token, csrf, randomHex_spec htoken, randomHex_spec hcsrf, hlogin.symm, ?_⟩
    rw [Section.events, heq]

/-- Whatever is requested after a login: every request that brings its cookie is taken for the user of the login,
and passes the check of forms with the one other token of the session, until somebody logs out with the cookie. -/
theorem session_persists (h : Hashes) (a : Store) (hproper : a.Proper) (before : List (Section × Conditions))
    (server : Server) (conn : ConnectionInfo) (e : Conditions) (rest : Answers) (queue : Session) (cookie : Text)
    (hlogin : (login server (answers h (after h a before) e rest) conn queue).reply =
      .response 302 [("Location", server.baseUrl), ("Set-Cookie", cookie)] "") :
    ∃ (k : Int) (csrf : Text), csrf.length = 64 ∧
      ∀ behind, (∀ r e', (Section.logout r, e') ∈ behind → ¬Carries cookie r) →
        (after h a (before ++ (.login conn, e) :: behind)).sequence < 2 ^ 31 →
        ∀ (e' : Conditions) (rest' : Answers) (r : Request), Carries cookie r → e'.selectSession_ok = true →
          e'.selectName_ok = true → ∃ auth,
            authenticate (answers h (after h a (before ++ (.login conn, e) :: behind)) e' rest') r = auth ∧
            auth.sessionAuthenticated = true ∧ auth.userId = k ∧ auth.username = conn.username.text ∧
            auth.authFail = !r.passwordFits ∧
            ∀ submitted, csrfValid auth.sessionAuthenticated auth.csrfToken submitted = true ↔ submitted = csrf := by
  obtain ⟨k, token, csrf, ⟨hlength, hdigits⟩, ⟨hcsrf, hcsrfDigits⟩, rfl, hevents⟩ := login_reply hlogin
  refine ⟨k, csrf, hcsrf, ?_⟩
  intro behind hkept hsmall e' rest' r hcarries hsession hselect
  have hsplit : after h a (before ++ (.login conn, e) :: behind) =
      after h (Section.run h (after h a before) (.login conn, e)) behind := by
    rw [after_split, after_snoc]
  have hchange := section_change h (after h a before) (.login conn, e)
  have hsmall' := hsmall
  rw [hsplit] at hsmall'
  have hmiddle := Int.lt_of_le_of_lt (sequence_le_after h _ behind) hsmall'
  have hbefore := Int.lt_of_le_of_lt (sequence_le hchange) hmiddle
  have hproper' := (keeps_after hproper before hbefore).1
  obtain ⟨hproper'', hextends⟩ := change_keeps hproper' hbefore hchange
  rw [hevents] at hchange
  obtain ⟨name, p, hname, -, hopened⟩ := login_change hproper' hbefore hchange
  have hfind : (after h a (before ++ (.login conn, e) :: behind)).sessions.find token =
      some { token, userId := k, csrfToken := csrf } := by
    rw [hsplit]
    apply find_after hopened.opened
    intro r' e'' hmem htoken
    exact hkept r' e'' hmem ((carries_iff hlength hdigits).mpr htoken)
  obtain ⟨hproper, hlater⟩ := keeps_after hproper'' behind hsmall'
  have hnumber := hlater.number name k (hextends.number name k hopened.number)
  rw [← hsplit] at hproper hnumber
  generalize after h a (before ++ (.login conn, e) :: behind) = b at hsmall hproper hfind hnumber ⊢
  obtain ⟨user, huser, hid⟩ := number_eq_some_iff.mp hnumber
  obtain ⟨hmem, rfl⟩ := byName_mem huser
  have hsmallId := hproper.toInt32 hsmall hmem
  have htoken := (carries_iff hlength hdigits).mp hcarries
  have hne : token ≠ [] := by
    rintro rfl
    cases hlength
  have hrow : sessionOf (answers h b e' rest') r = some (k, csrf) := by
    have hvalue : cookieValue r.cookie "tle_session".toList 65 = some token := htoken
    rw [sessionOf, hvalue, Option.bind_some, sessionLookup, if_neg hne]
    simp only [answers, hsession, if_true, hfind, Option.map_some]
    rw [← hid, hsmallId, cstr_token hcsrfDigits, List.take_of_length_le (Nat.le_of_eq hcsrf)]
  have husername : userFetchUsernameById (answers h b e' rest') k 32 = some conn.username.text := by
    have hfound : b.users.table.find k = some user := hid ▸ Table.mem_rows_iff.mp hmem
    simp only [userFetchUsernameById, answers, hselect, if_true, hfound, Option.map_some]
    rw [cstr_text, List.take_of_length_le (hproper.names user hmem).2, hname]
  refine ⟨_, authenticate_of_cookie hrow husername, rfl, rfl, rfl, rfl, ?_⟩
  intro submitted
  simp only [csrfValid, hcsrf, Bool.true_and, Bool.and_eq_true, decide_eq_true_eq]
  constructor
  · rintro ⟨-, rfl⟩
    rfl
  · rintro rfl
    simp [hcsrf]

/-- Ann has logged in, and comes back with the cookie after Bob has got an account. -/
theorem session_persists_ann : ∃ auth,
    authenticate (answers sampleHashes (after sampleHashes noUsers
      ([(.register (formOf "ann".toList), zeros)] ++
        (.login (formOf "ann".toList), zeros) :: [(.register (formOf "bob".toList), zeros)])) {} {})
      { cookie := some ("theme=dark; tle_session=".toList ++ List.replicate 64 '0') } = auth ∧
    auth.sessionAuthenticated = true ∧ auth.username = "ann".toList := by
  have hlogin : (login {} (answers sampleHashes (after sampleHashes noUsers
      [(.register (formOf "ann".toList), zeros)]) zeros {}) (formOf "ann".toList) (.idle Db.empty)).reply =
      .response 302 [("Location", defaultUrl), ("Set-Cookie", sessionCookie {} (List.replicate 64 '0'))] "" := by
    have hopen : openSession (answers sampleHashes (after sampleHashes noUsers
        [(.register (formOf "ann".toList), zeros)]) zeros {}) (formOf "ann".toList) =
          some (1, List.replicate 64 '0') := by decide +kernel
    rw [login, hopen]
    rfl
  obtain ⟨k, csrf, -, hauth⟩ := session_persists sampleHashes noUsers proper_noUsers
    [(.register (formOf "ann".toList), zeros)] {} (formOf "ann".toList) zeros {} (.idle Db.empty)
    (sessionCookie {} (List.replicate 64 '0')) hlogin
  have hname : (formOf "ann".toList).username.text = "ann".toList := by decide
  rw [hname] at hauth
  obtain ⟨auth, heq, hauthenticated, -, husername, -⟩ := hauth [(.register (formOf "bob".toList), zeros)] (by simp)
    (by decide +kernel) {} {} { cookie := some ("theme=dark; tle_session=".toList ++ List.replicate 64 '0') }
    ⟨_, rfl, by decide +kernel⟩ rfl rfl
  exact ⟨auth, heq, hauthenticated, husername⟩

end Tle.Accounts
