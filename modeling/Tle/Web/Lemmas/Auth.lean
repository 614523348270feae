import Tle.Web.Handler

/-!
# Who a request is taken for
-/

namespace Tle.Web
open Tle.Lib Tle.Queue

variable {a : Answers} {r : Request} {auth : Auth} {u : Int} {csrf name : Text}

/-- The row of the session whose token came with the request. -/
def sessionOf (a : Answers) (r : Request) : Option (Int × Text) :=
  (cookieValue r.cookie "tle_session".toList 65).bind (sessionLookup a)

/-- The token of the request is that of a session of the user `u`. -/
def ValidSession (a : Answers) (r : Request) (u : Int) (csrf : Text) : Prop :=
  sessionOf a r = some (u, csrf) ∧ (userFetchUsernameById a u 32).isSome = true

def HasSession (a : Answers) (r : Request) : Prop := ∃ u csrf, ValidSession a r u csrf

/-- The user name and the password of the request belong together. -/
def ValidCredentials (a : Answers) (r : Request) (name : Text) : Prop :=
  r.username = some name ∧ ∃ password, r.password = some password ∧ 0 < a.userValidAuth name password

/-- `u` is the user whose session, or else whose user name and password, came with the request. -/
def Verified (a : Answers) (r : Request) (u : Int) : Prop :=
  (∃ csrf, ValidSession a r u csrf) ∨
    (¬HasSession a r ∧ ∃ name, ValidCredentials a r name ∧ a.idByUsername name = some u)

theorem verified_of_credentials (hno : ¬HasSession a r) (h : ValidCredentials a r name) {u' : Int} :
    Verified a r u' ↔ a.idByUsername name = some u' := by
  constructor
  · rintro (⟨csrf', h'⟩ | ⟨-, name', hname', hid⟩)
    · exact absurd ⟨u', csrf', h'⟩ hno
    · have heq := h.1.symm.trans hname'.1
      cases heq
      exact hid
  · exact fun hid => Or.inr ⟨hno, name, h, hid⟩

/-! ## The steps -/

theorem ofCookie_of_session (h : ValidSession a r u csrf) : ∃ username, Auth.ofCookie a r =
    { userId := u, username, csrfToken := csrf, authFail := false, sessionAuthenticated := true } := by
  obtain ⟨username, husername⟩ := Option.isSome_iff_exists.mp h.2
  have hrow : (cookieValue r.cookie "tle_session".toList 65).bind (sessionLookup a) = some (u, csrf) := h.1
  exact ⟨username, by simp only [Auth.ofCookie, hrow, husername]⟩

/-- The number of a session whose user was not found. -/
def leftoverId (a : Answers) (r : Request) : Int := ((sessionOf a r).map (·.1)).getD (-1)

theorem ofCookie_of_no_session (h : ¬HasSession a r) :
    ∃ csrf, Auth.ofCookie a r = { userId := leftoverId a r, csrfToken := csrf } := by
  rcases hrow : sessionOf a r with _ | ⟨u, csrf⟩
  · have hrow' : (cookieValue r.cookie "tle_session".toList 65).bind (sessionLookup a) = none := hrow
    refine ⟨[], ?_⟩
    simp only [Auth.ofCookie, hrow', leftoverId, hrow]
    rfl
  · have hrow' : (cookieValue r.cookie "tle_session".toList 65).bind (sessionLookup a) = some (u, csrf) :=
      hrow
    have hname : userFetchUsernameById a u 32 = none := by
      by_contra hne
      exact h ⟨u, csrf, hrow, Option.isSome_iff_ne_none.mpr hne⟩
    refine ⟨csrf, ?_⟩
    simp only [Auth.ofCookie, hrow', hname, leftoverId, hrow]
    rfl

/-- A password that was sent leaves room for its NUL. -/
def Request.passwordFits (r : Request) : Bool := r.password.all (·.length < 256)

theorem keepPassword_eq (r : Request) (auth : Auth) : ∃ password, auth.keepPassword r =
    { auth with password, authFail := auth.authFail || !r.passwordFits } := by
  unfold Auth.keepPassword Request.passwordFits
  rcases r.password with _ | password
  · exact ⟨auth.password, by simp⟩
  · dsimp only [Option.all_some]
    split_ifs with hfits
    · exact ⟨password, by simp [hfits]⟩
    · exact ⟨auth.password, by simp [hfits]⟩

theorem checkCredentials_authFail (hno : auth.sessionAuthenticated = false) :
    (auth.checkCredentials a r).authFail = false ↔ ∃ name, ValidCredentials a r name := by
  simp only [Auth.checkCredentials, hno, Bool.false_eq_true, ↓reduceIte, decide_eq_false_iff_not,
    ValidCredentials]
  rcases r.username with _ | name
  · simp
  rcases r.password with _ | password
  · simp
  · simp

/-! ## The outcome -/

/-- A valid session decides who asks; no credentials are looked at. -/
theorem authenticate_of_session (h : ValidSession a r u csrf) :
    (authenticate a r).sessionAuthenticated = true ∧ (authenticate a r).userId = u ∧
      (authenticate a r).csrfToken = csrf ∧ (authenticate a r).authFail = !r.passwordFits := by
  obtain ⟨username, hcookie⟩ := ofCookie_of_session h
  have hcheck : (Auth.ofCookie a r).checkCredentials a r = Auth.ofCookie a r := by
    rw [hcookie]
    rfl
  obtain ⟨password, hkeep⟩ := keepPassword_eq r (Auth.ofCookie a r)
  rw [authenticate, hcheck, hkeep, hcookie]
  exact ⟨rfl, rfl, rfl, rfl⟩

/-- The number that stands for the owner of the credentials `name`. -/
def credentialsId (a : Answers) (r : Request) (name : Text) : Int :=
  if name = [] then leftoverId a r else userFetchIdByUsername a name

theorem authenticate_of_no_credentials (h : ¬HasSession a r) (hno : ¬∃ name, ValidCredentials a r name) :
    (authenticate a r).sessionAuthenticated = false ∧ (authenticate a r).authFail = true := by
  obtain ⟨csrf, hcookie⟩ := ofCookie_of_no_session h
  obtain ⟨password, hkeep⟩ := keepPassword_eq r ((Auth.ofCookie a r).checkCredentials a r)
  have hfail : ((Auth.ofCookie a r).checkCredentials a r).authFail = true := by
    rw [← Bool.not_eq_false, checkCredentials_authFail (by rw [hcookie])]
    exact hno
  have hsession : ((Auth.ofCookie a r).checkCredentials a r).sessionAuthenticated = false := by
    rw [hcookie]
    rfl
  rw [authenticate, hkeep, hfail, hsession]
  exact ⟨rfl, rfl⟩

theorem authenticate_of_credentials (h : ¬HasSession a r) (hname : ValidCredentials a r name) :
    (authenticate a r).sessionAuthenticated = false ∧
      (authenticate a r).authFail = !(r.passwordFits && name.length < 32) ∧
      ((authenticate a r).authFail = false → (authenticate a r).userId = credentialsId a r name) := by
  obtain ⟨csrf, hcookie⟩ := ofCookie_of_no_session h
  obtain ⟨password, hkeep⟩ := keepPassword_eq r ((Auth.ofCookie a r).checkCredentials a r)
  have hpass : ((Auth.ofCookie a r).checkCredentials a r).authFail = false :=
    (checkCredentials_authFail (by rw [hcookie])).mpr ⟨name, hname⟩
  rw [authenticate, hkeep, hpass, hcookie]
  cases r.passwordFits with
  | false => exact ⟨rfl, rfl, fun h => nomatch h⟩
  | true =>
      simp only [Auth.checkCredentials, Auth.takeUsername, hname.1, Bool.false_eq_true, ↓reduceIte,
        Bool.not_true, Bool.or_false, Bool.true_and]
      split_ifs with hlength hempty
      · exact ⟨rfl, by simp [hlength], fun _ => by rw [credentialsId, if_neg hempty]⟩
      · exact ⟨rfl, by simp [hlength], fun _ => by rw [credentialsId, if_pos (not_not.mp hempty)]⟩
      · exact ⟨rfl, by simp [hlength], fun h => nomatch h⟩

end Tle.Web
