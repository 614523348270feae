import Tle.Accounts.RegistrationTheorems
import Tle.Web.Lemmas.Auth

/-!
# Who a request may be taken for, after any requests
-/

namespace Tle.Accounts
open Tle.Lib Tle.Web

variable {h : Hashes} {a : Store} {e : Conditions} {rest : Answers} {u k : Int} {r : Request}
  {name p : CString} {token csrf : Text} {row : SessionRow} {sections : List (Section × Conditions)}

/-! ## The session of a token -/

/-- Nothing has happened to the session since a login, which has opened it for somebody whose password was accepted
then. -/
def OpenedBy (h : Hashes) (a : Store) (sections : List (Section × Conditions)) (name p : CString) (k : Int)
    (token csrf : Text) : Prop :=
  ∃ before conn e behind, sections = before ++ (.login conn, e) :: behind ∧ conn.username.text = name.text ∧
    conn.password.text = p.text ∧
    Login h (after h a before) name p k token csrf (after h a (before ++ [(.login conn, e)])) ∧
    ∀ ev ∈ events h (after h a (before ++ [(.login conn, e)])) behind, ev.token ≠ some token

theorem login_of_event {s : Section × Conditions} {username password : Text}
    (hevent : .loggedIn username password k token csrf ∈ Section.events h a s) :
    ∃ conn e, s = (.login conn, e) ∧ conn.username.text = username ∧ conn.password.text = password := by
  obtain ⟨conn, e, -, hev⟩ | ⟨conn, e, k', token', csrf', hs, hev⟩ | ⟨r, e, token', -, -, hev⟩ := mem_events hevent
  · cases hev
  · cases hev
    exact ⟨conn, e, hs, rfl, rfl⟩
  · cases hev

theorem OpenedBy.later {s : Section × Conditions} (hopened : OpenedBy h a sections name p k token csrf)
    (hother : ∀ ev ∈ Section.events h (after h a sections) s, ev.token ≠ some token) :
    OpenedBy h a (sections ++ [s]) name p k token csrf := by
  obtain ⟨before, conn, e, behind, rfl, husername, hpassword, hlogin, hbehind⟩ := hopened
  refine ⟨before, conn, e, behind ++ [s], by simp, husername, hpassword, hlogin, ?_⟩
  rw [after_split] at hother
  rw [events, history_snoc, List.forall_mem_append]
  exact ⟨hbehind, hother⟩

theorem find_session (hproper : a.Proper) (hnone : a.sessions.rows = [])
    (hsmall : (after h a sections).sequence < 2 ^ 31)
    (hfind : (after h a sections).sessions.find token = some row) :
    ∃ name p, OpenedBy h a sections name p row.userId token row.csrfToken := by
  induction sections using List.reverseRecOn with
  | nil =>
      rw [after, run_nil, Table.find, hnone, List.find?_nil] at hfind
      cases hfind
  | append_singleton sections s ih =>
      have hstep := @after_snoc h a sections s
      rw [hstep] at hsmall hfind
      have hchange := section_change h (after h a sections) s
      have hbefore := Int.lt_of_le_of_lt (sequence_le hchange) hsmall
      by_cases hother : ∀ ev ∈ Section.events h (after h a sections) s, ev.token ≠ some token
      · rw [find_change hchange hother] at hfind
        obtain ⟨name, p, hopened⟩ := ih hbefore hfind
        exact ⟨name, p, hopened.later hother⟩
      · push Not at hother
        obtain ⟨ev, hev, htoken⟩ := hother
        generalize Section.run h (after h a sections) s = a', hevs : Section.events h (after h a sections) s = evs
          at hchange hev hfind hstep
        have hlogin := hchange
        cases hchange with
        | nothing => cases hev
        | checked c => cases hev
        | registered hne hlength hhash hinsert =>
            cases List.mem_singleton.mp hev
            cases htoken
        | @loggedIn c name p user e token' csrf _ hname hpassword hvalid hrow htoken' hcsrf hinsert =>
            cases List.mem_singleton.mp hev
            cases htoken
            obtain ⟨conn, e', rfl, husername, hpassword'⟩ := login_of_event (hevs ▸ List.mem_singleton_self _)
            obtain ⟨name', p', hname', hp', hlogin⟩ := login_change (keeps_after hproper sections hbefore).1 hbefore
              hlogin
            have hopen := hlogin.opened
            rw [hfind, Option.some.injEq] at hopen
            rw [hopen]
            refine ⟨name', p', sections, conn, e', [], rfl, husername.trans hname'.symm, hpassword'.trans hp'.symm,
              hstep ▸ hlogin, ?_⟩
            simp [events]
        | loggedOut token' =>
            cases List.mem_singleton.mp hev
            cases htoken
            rw [find_deleteSession, if_pos rfl] at hfind
            cases hfind

/-! ## What `ahc_echo` reads -/

theorem cstr_text (s : CString) : cstr s.text = s.text := by
  rw [cstr_eq_self]
  intro hmem
  exact (s.bytes _ hmem).1 rfl

theorem cstr_token (hdigits : ∀ c ∈ token, c ∈ hex) : cstr token = token := by
  have hnul : '\x00' ∉ hex := by decide
  rw [cstr_eq_self]
  intro hmem
  exact hnul (hdigits _ hmem)

theorem sessionOf_answers (hsession : sessionOf (answers h a e rest) r = some (u, csrf)) :
    ∃ row, sessionToken r = some row.token ∧ a.sessions.find row.token = some row ∧ u = toInt32 row.userId ∧
      csrf = (cstr row.csrfToken).take 64 := by
  obtain ⟨token, htoken, hlookup⟩ := Option.bind_eq_some_iff.mp hsession
  rw [sessionLookup] at hlookup
  split at hlookup
  · cases hlookup
  · simp only [answers] at hlookup
    split at hlookup
    · rw [Option.map_map, Option.map_eq_some_iff] at hlookup
      obtain ⟨row, hrow, heq⟩ := hlookup
      cases heq
      obtain rfl := Table.find_key hrow
      exact ⟨row, htoken, hrow, rfl, rfl⟩
    · cases hlookup

theorem username_answers (hproper : a.Proper) {text : Text}
    (hname : userFetchUsernameById (answers h a e rest) u 32 = some text) :
    ∃ r ∈ a.users.table.rows, r.userId = u ∧ r.username.text = text := by
  obtain ⟨full, hfull, rfl⟩ := Option.map_eq_some_iff.mp hname
  simp only [answers] at hfull
  split at hfull
  · obtain ⟨r, hr, rfl⟩ := Option.map_eq_some_iff.mp hfull
    refine ⟨r, Table.find_mem hr, Table.find_key hr, ?_⟩
    rw [cstr_text, List.take_of_length_le (hproper.names r (Table.find_mem hr)).2]
  · cases hfull

theorem authenticate_of_cookie {username : Text} (hsession : sessionOf (answers h a e rest) r = some (u, csrf))
    (hname : userFetchUsernameById (answers h a e rest) u 32 = some username) :
    authenticate (answers h a e rest) r =
      { userId := u, username, password := (authenticate (answers h a e rest) r).password, csrfToken := csrf
        authFail := !r.passwordFits, sessionAuthenticated := true } := by
  have hcookie : Auth.ofCookie (answers h a e rest) r =
      { userId := u, username, csrfToken := csrf, authFail := false, sessionAuthenticated := true } := by
    have hrow : (cookieValue r.cookie "tle_session".toList 65).bind (sessionLookup (answers h a e rest)) =
        some (u, csrf) := hsession
    simp only [Auth.ofCookie, hrow, hname]
  have hcheck : (Auth.ofCookie (answers h a e rest) r).checkCredentials (answers h a e rest) r =
      Auth.ofCookie (answers h a e rest) r := by
    rw [hcookie]
    rfl
  obtain ⟨password, hkeep⟩ := keepPassword_eq r (Auth.ofCookie (answers h a e rest) r)
  rw [authenticate, hcheck, hkeep, hcookie]
  simp [Auth.takeUsername]

theorem authenticate_username {text : Text} (hno : ¬HasSession (answers h a e rest) r)
    (hvalid : ValidCredentials (answers h a e rest) r text)
    (hauth : (authenticate (answers h a e rest) r).authFail = false) :
    (authenticate (answers h a e rest) r).username = text := by
  obtain ⟨csrf, hcookie⟩ := ofCookie_of_no_session hno
  obtain ⟨password, hkeep⟩ :=
    keepPassword_eq r ((Auth.ofCookie (answers h a e rest) r).checkCredentials (answers h a e rest) r)
  have hsession :
      ((Auth.ofCookie (answers h a e rest) r).checkCredentials (answers h a e rest) r).sessionAuthenticated =
        false := by
    rw [hcookie]
    rfl
  rw [authenticate, hkeep] at hauth ⊢
  simp only [Auth.takeUsername, hsession, hvalid.1] at hauth ⊢
  split
  · contradiction
  · split
    · rename_i hfail
      rw [if_neg (by simp), if_pos hfail] at hauth
      simp [hfail] at hauth
    · rename_i hpass
      split
      · split <;> rfl
      · rename_i hlong
        rw [if_neg (by simp), if_neg hpass, if_neg hlong] at hauth
        cases hauth

theorem userValidAuth_eq_one {users : Users} {c : AuthCall} (hpositive : 0 < (userValidAuth h users c).2) :
    (userValidAuth h users c).2 = 1 := by
  revert hpositive
  unfold userValidAuth
  split
  · split
    · simp
    · split
      · simp
      · dsimp only
        split <;> simp
  · simp

theorem credentials_answers {text : Text} (hvalid : ValidCredentials (answers h a e rest) r text) :
    ∃ name p : CString, name.text = text ∧ r.username = some name.text ∧ r.password = some p.text ∧
      a.users.accepts h name p = some true := by
  obtain ⟨husername, password, hpassword, hpositive⟩ := hvalid
  have hone : (userValidAuth h a.users (authCall e (some text) (some password))).2 = 1 :=
    userValidAuth_eq_one hpositive
  obtain ⟨name, p, hname, hp⟩ := validAuth_pointers hone
  have haccepts := accepts_of_validAuth hname hp hone
  have htext : name.text = text := text_of_ofText hname
  have hptext : p.text = password := text_of_ofText hp
  exact ⟨name, p, htext, htext ▸ husername, hptext ▸ hpassword, haccepts⟩

/-! ## Soundness -/

theorem OpenedBy.number (hproper : a.Proper) (hsmall : (after h a sections).sequence < 2 ^ 31)
    (hopened : OpenedBy h a sections name p k token csrf) : (after h a sections).users.number name = some k := by
  obtain ⟨before, conn, e, behind, rfl, -, -, hlogin, -⟩ := hopened
  rw [after, run_append] at hsmall ⊢
  have hbefore := Int.lt_of_le_of_lt (sequence_le_after h (after h a before) _) hsmall
  exact (keeps_after (keeps_after hproper before hbefore).1 _ hsmall).2.number name k hlogin.number

theorem OpenedBy.csrf_digits (hopened : OpenedBy h a sections name p k token csrf) :
    csrf.length = 64 ∧ ∀ c ∈ csrf, c ∈ hex := by
  obtain ⟨before, conn, e, behind, -, -, -, hlogin, -⟩ := hopened
  exact hlogin.csrf_digits

/-- Whatever has been requested before: a request that passes comes from somebody who has shown the password of the
user it is taken for. It brings the password, or the token of a session that a login with the password has
opened and that nobody has ended. -/
theorem authenticated_sound (h : Hashes) (a : Store) (hproper : a.Proper)
    (hnone : a.sessions.rows = []) (sections : List (Section × Conditions))
    (hsmall : (after h a sections).sequence < 2 ^ 31) (e : Conditions) (rest : Answers) (r : Request)
    (hauth : (authenticate (answers h (after h a sections) e rest) r).authFail = false) :
    ∃ (name p : CString) (k : Int), (after h a sections).users.number name = some k ∧
      (authenticate (answers h (after h a sections) e rest) r).username = name.text ∧
      ((∃ token csrf, sessionToken r = some token ∧ OpenedBy h a sections name p k token csrf ∧
          (authenticate (answers h (after h a sections) e rest) r).sessionAuthenticated = true ∧
          (authenticate (answers h (after h a sections) e rest) r).userId = k ∧
          (authenticate (answers h (after h a sections) e rest) r).csrfToken = csrf) ∨
        (r.username = some name.text ∧ r.password = some p.text ∧
          (after h a sections).users.accepts h name p = some true ∧
          (authenticate (answers h (after h a sections) e rest) r).sessionAuthenticated = false ∧
          (authenticate (answers h (after h a sections) e rest) r).userId = if e.selectId_ok then k else -1)) := by
  have hproper' := (keeps_after hproper sections hsmall).1
  by_cases hsession : HasSession (answers h (after h a sections) e rest) r
  · obtain ⟨u, csrf, hrow, hname⟩ := hsession
    obtain ⟨text, htext⟩ := Option.isSome_iff_exists.mp hname
    have hauthenticate := authenticate_of_cookie hrow htext
    obtain ⟨row, htoken, hfind, hid, hcsrf⟩ := sessionOf_answers hrow
    obtain ⟨name, p, hopened⟩ := find_session hproper hnone hsmall hfind
    have hnumber := hopened.number hproper hsmall
    obtain ⟨hlength, hdigits⟩ := hopened.csrf_digits
    obtain ⟨user, huser, hk⟩ := number_eq_some_iff.mp hnumber
    obtain ⟨hmem, rfl⟩ := byName_mem huser
    rw [← hk, hproper'.toInt32 hsmall hmem] at hid
    obtain ⟨user', hmem', hid', rfl⟩ := username_answers hproper' htext
    have hsame : user' = user := by
      have hfound := Table.mem_rows_iff.mp hmem'
      rw [hid', hid, Table.mem_rows_iff.mp hmem] at hfound
      exact (Option.some.inj hfound).symm
    rw [hcsrf, cstr_token hdigits, List.take_of_length_le (Nat.le_of_eq hlength), hsame, hid, hk] at hauthenticate
    rw [hauthenticate]
    exact ⟨user.username, p, row.userId, hnumber, rfl,
      Or.inl ⟨row.token, row.csrfToken, htoken, hopened, rfl, rfl, rfl⟩⟩
  · by_cases hvalid : ∃ text, ValidCredentials (answers h (after h a sections) e rest) r text
    · obtain ⟨text, hvalid⟩ := hvalid
      have husername := authenticate_username hsession hvalid hauth
      obtain ⟨hno, -, hid⟩ := authenticate_of_credentials hsession hvalid
      obtain ⟨name, p, rfl, hname, hp, haccepts⟩ := credentials_answers hvalid
      obtain ⟨user, huser, -⟩ := Option.map_eq_some_iff.mp haccepts
      obtain ⟨hmem, rfl⟩ := byName_mem huser
      have hnumber : (after h a sections).users.number user.username = some user.userId :=
        number_eq_some_iff.mpr ⟨user, huser, rfl⟩
      refine ⟨user.username, p, user.userId, hnumber, husername, Or.inr ⟨hname, hp, haccepts, hno, ?_⟩⟩
      rw [hid hauth, credentialsId, if_neg (hproper'.names user hmem).1]
      simp only [userFetchIdByUsername, answers, ofText_text, Option.bind_some, huser, Option.map_some]
      split
      · rw [Option.getD_some, hproper'.toInt32 hsmall hmem]
      · rfl
    · have hfail := (authenticate_of_no_credentials hsession hvalid).2
      rw [hauth] at hfail
      cases hfail

/-- Ann sends her password, after Bob has got an account. -/
theorem authenticated_sound_ann : ∃ p : CString, p.text = "password".toList ∧
    (after sampleHashes noUsers
      [(.register (formOf "ann".toList), zeros), (.register (formOf "bob".toList), zeros)]).users.accepts sampleHashes
        (cString "ann" (by decide)) p = some true := by
  have hsound := authenticated_sound sampleHashes noUsers proper_noUsers rfl
    [(.register (formOf "ann".toList), zeros), (.register (formOf "bob".toList), zeros)] (by decide) {} {}
    { username := some "ann".toList, password := some "password".toList } (by decide +kernel)
  obtain ⟨name, p, k, -, -, ⟨token, csrf, htoken, -⟩ | ⟨husername, hpassword, haccepts, -⟩⟩ := hsound
  · cases htoken
  · have hname : name = cString "ann" (by decide) := CString.ext (Option.some.inj husername).symm
    rw [hname] at haccepts
    exact ⟨p, (Option.some.inj hpassword).symm, haccepts⟩

end Tle.Accounts
