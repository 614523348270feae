import Tle.Web.Pointers

/-!
# Null pointers in `web.c`

Where the handler reads through a null pointer. Everywhere else it does what it does with the values themselves.
-/

namespace Tle.Web.Pointers
open Tle.Lib Tle.Queue Tle.Html

/-! ## Headers -/

section Headers

variable (server : Server) (r : Request)

theorem baseUrl_eq : baseUrl server = .ok (some server.baseUrl) := by
  unfold baseUrl Server.baseUrl
  cases server.configuredUrl with
  | none => rfl
  | some url => by_cases hurl : url = [] <;> simp [hurl]

theorem location_eq : location server = .ok server.baseUrl := by
  rw [location, baseUrl_eq]
  rfl

theorem secureCookieEnabled_eq : secureCookieEnabled server = .ok server.secureCookieEnabled := by
  rw [secureCookieEnabled, baseUrl_eq]
  rfl

theorem sameOriginRequest_eq : sameOriginRequest server r = .ok (Web.sameOriginRequest server r) := by
  have hvalue : (if r.origin.isSome then r.origin else r.referer) = r.origin.or r.referer := by
    cases r.origin <;> rfl
  simp only [sameOriginRequest, hvalue, baseUrl_eq, Web.sameOriginRequest, Reads.ok_bind]
  cases r.origin.or r.referer with
  | none => rfl
  | some value =>
      simp only [Pointer.strstr_some, Reads.ok_bind, Option.isNone_some, Bool.false_eq_true, ↓reduceIte]
      cases strstr server.baseUrl "://".toList with
      | none => rfl
      | some base =>
          cases strstr value "://".toList with
          | none => rfl
          | some authority =>
              simp [Bool.and_assoc]

theorem csrfValid_eq (authenticated : Bool) (s t : Text) :
    csrfValid authenticated (some s) (some t) = .ok (Web.csrfValid authenticated s t) := by
  have hlength : ∀ (u : Text) n, hasLength (some u) n = .ok (decide (u.length = n)) := fun _ _ => rfl
  simp only [csrfValid, Web.csrfValid, hlength, Pointer.strcmp_some]
  cases authenticated with
  | false => rfl
  | true => simp [Bool.and_assoc]

theorem cookieValueFrom_eq (name : Text) (outSize : Nat) (p : Text) :
    cookieValueFrom name outSize (some p) = .ok (Web.cookieValueFrom name outSize p) := by
  fun_induction Web.cookieValueFrom name outSize p with
  | case1 =>
      rw [cookieValueFrom]
      exact if_pos rfl
  | case2 p hne hnamed value hvalue =>
      rw [cookieValueFrom, if_neg hne, if_pos hnamed]
      exact if_pos hvalue
  | case3 p hne hnamed value hvalue =>
      rw [cookieValueFrom, if_neg hne, if_pos hnamed]
      exact if_neg hvalue
  | case4 p hne hnamed hend =>
      rw [cookieValueFrom, if_neg hne, if_neg hnamed]
      split
      · rfl
      · rename_i heq
        rw [hend] at heq
        cases heq
  | case5 p hne hnamed c rest hrest ih =>
      rw [cookieValueFrom, if_neg hne, if_neg hnamed]
      split
      · rename_i heq
        rw [hrest] at heq
        cases heq
      · rename_i heq
        rw [hrest] at heq
        cases heq
        exact ih

theorem cookieValue_eq (cookie : Pointer) (name : Text) (outSize : Nat) :
    cookieValue cookie name outSize = .ok (Web.cookieValue cookie name outSize) := by
  cases cookie with
  | none => rfl
  | some cookie => exact cookieValueFrom_eq name outSize cookie

end Headers

/-! ## Accounts -/

section Accounts

variable (a : Answers) (rows : Text → Text → Option Stored) (r : Request) (auth : Auth)

@[simp] theorem isEmpty_some (s : Text) : isEmpty (some s) = .ok (decide (s = [])) := by
  cases s <;> rfl

@[simp] theorem shorterThan_some (n : Nat) (s : Text) : shorterThan n (some s) = .ok (decide (s.length < n)) := rfl

@[simp] theorem longerThan_some (n : Nat) (s : Text) : longerThan n (some s) = .ok (decide (n < s.length)) := rfl

theorem sessionLookup_eq (token : Text) : sessionLookup a (some token) = .ok (Web.sessionLookup a token) := by
  by_cases htoken : token = []
  · simp [sessionLookup, htoken, Web.sessionLookup]
  · simp [sessionLookup, htoken]

/-- Neither the column nor the result of `crypt_r` is read unless it is there. -/
theorem compareStored_ok (s : Stored) : compareStored s = .ok () := by
  obtain ⟨stored, hash, computed⟩ := s
  have hequal : ∀ u v : Text, secureEqual (some u) (some v) = .ok () := fun _ _ => rfl
  cases stored with
  | none => rfl
  | some stored => cases hash <;> simp [compareStored, hequal]

theorem userValidAuth_eq (username password : Text) :
    userValidAuth a rows (some username) (some password) = .ok (a.userValidAuth username password) := by
  cases hrow : rows username password <;> simp [userValidAuth, hrow, compareStored_ok]

theorem userRegister_eq (username password : Text) :
    userRegister a (some username) (some password) = .ok (Web.userRegister a username password) := by
  by_cases hrefused : username = [] ∨ password = [] ∨ 31 < username.length ∨ 255 < password.length
  · simp [userRegister, Web.userRegister, hrefused]
  · simp [userRegister, hrefused]

theorem ofCookie_eq : ofCookie a r = .ok (Auth.ofCookie a r) := by
  rw [ofCookie, cookieValue_eq, Reads.ok_bind, Auth.ofCookie]
  cases Web.cookieValue r.cookie "tle_session".toList 65 with
  | none => rfl
  | some token =>
      simp only [sessionLookup_eq, Reads.ok_bind, Option.bind_some]
      cases Web.sessionLookup a token with
      | none => rfl
      | some session =>
          dsimp only
          cases userFetchUsernameById a session.1 32 <;> rfl

theorem checkCredentials_eq : checkCredentials rows a r auth = .ok (auth.checkCredentials a r) := by
  unfold checkCredentials Auth.checkCredentials
  cases r.username with
  | none => simp
  | some username =>
      cases r.password with
      | none => simp
      | some password => simp [userValidAuth_eq]

theorem keepPassword_eq : keepPassword r auth = .ok (auth.keepPassword r) := by
  unfold keepPassword Auth.keepPassword
  cases r.password with
  | none => rfl
  | some password => by_cases hlength : password.length < 256 <;> simp [hlength]

theorem takeUsername_eq : takeUsername a r auth = .ok (auth.takeUsername a r) := by
  unfold takeUsername Auth.takeUsername
  cases r.username with
  | none => simp
  | some username => by_cases hlength : username.length < 32 <;> simp [hlength]

theorem authenticate_eq : authenticate rows a r = .ok (Web.authenticate a r) := by
  simp only [authenticate, ofCookie_eq, checkCredentials_eq, keepPassword_eq, takeUsername_eq, Reads.ok_bind]
  rfl

end Accounts

/-! ## The pages of POST -/

section Post

variable (rows : Text → Text → Option Stored) (server : Server) (a : Answers) (r : Request) (auth : Auth)
  (conn : ConnectionInfo) (queue : Session)

theorem csrfInvalid_eq : csrfInvalid auth conn =
    .ok (!Web.csrfValid auth.sessionAuthenticated auth.csrfToken conn.csrf.text) := by
  rw [csrfInvalid, csrfValid_eq]
  rfl

theorem otherOrigin_eq : otherOrigin server r = .ok (!Web.sameOriginRequest server r) := by
  rw [otherOrigin, sameOriginRequest_eq]
  rfl

theorem submit_eq : submit server a auth conn queue = .ok (Web.submit server a auth conn queue) := by
  have hcsrf : Reads.all [.ok auth.sessionAuthenticated, csrfInvalid auth conn] =
      .ok (auth.sessionAuthenticated &&
        !Web.csrfValid auth.sessionAuthenticated auth.csrfToken conn.csrf.text) := by
    rw [csrfInvalid_eq]
    cases auth.sessionAuthenticated <;> simp
  have hcode : Reads.any [.ok conn.code.isNone, isEmpty conn.code] = .ok (decide (conn.code.getD [] = [])) := by
    cases conn.code <;> simp
  simp only [submit, hcsrf, hcode, location_eq, Reads.ok_bind, Reads.pure_eq, decide_eq_true_eq, Web.submit]
  apply Reads.ite_eq_ok
  intro _
  apply Reads.ite_eq_ok
  intro _
  apply Reads.ite_eq_ok
  intro _
  apply Reads.ite_eq_ok
  intro _
  apply Reads.ite_eq_ok
  intro _
  unfold submitReply
  split <;> rfl

theorem bookmark_eq : bookmark server a r auth conn queue = .ok (Web.bookmark server a r auth conn queue) := by
  simp only [bookmark, csrfInvalid_eq, otherOrigin_eq, location_eq, Web.bookmark]
  cases r.pk with
  | none => simp
  | some pkText =>
      simp only [Reads.any_cons_ok, Reads.any_nil, Option.isNone_some, Pointer.text_some, Reads.ok_bind,
        Reads.pure_eq]
      cases Web.csrfValid auth.sessionAuthenticated auth.csrfToken conn.csrf.text with
      | false => rfl
      | true =>
          cases Web.sameOriginRequest server r with
          | false => rfl
          | true => exact Reads.ite_eq_ok fun _ => rfl

theorem register_eq : register a conn queue = .ok (Web.register a conn queue) := by
  rw [register, userRegister_eq]
  rfl

theorem login_eq : login rows server a conn queue = .ok (Web.login server a conn queue) := by
  simp only [login, userValidAuth_eq, location_eq, secureCookieEnabled_eq, Reads.ok_bind, Reads.pure_eq, Web.login,
    openSession, sessionCookie]
  generalize (if a.userValidAuth conn.username.text conn.password.text = 1 then
    userFetchIdByUsername a conn.username.text else -1) = loginId
  by_cases hfound : 0 ≤ loginId
  · simp only [if_pos hfound]
    cases sessionCreate a loginId <;> rfl
  · simp only [if_neg hfound]

theorem notAdmin_eq : notAdmin server auth =
    .ok (decide (server.adminPassword.getD [] = [] ∨ some auth.password ≠ server.adminPassword)) := by
  unfold notAdmin
  cases server.adminPassword <;> simp

theorem admin_eq : admin server a r auth conn queue = .ok (Web.admin server a r auth conn queue) := by
  simp only [admin, notAdmin_eq, otherOrigin_eq, Reads.ok_bind, Reads.pure_eq, decide_eq_true_eq, Web.admin]
  cases server.adminPassword with
  | none => rfl
  | some adminPassword =>
      simp only [Option.getD_some, ne_eq, Option.some.injEq]
      apply Reads.ite_eq_ok
      intro _
      apply Reads.ite_eq_ok
      intro _
      cases conn.adminAction <;> rfl

/-- Without the argument `page` the last call for a POST request reads through a null pointer. -/
theorem postPage_eq : postPage rows server a r (Web.authenticate a r) conn queue =
    if r.page.isSome then .ok (Web.postPage server a r conn queue) else .error .nullRead := by
  unfold postPage Web.postPage
  cases r.page with
  | none => rfl
  | some page =>
      simp only [Pointer.text_some, Reads.ok_bind, Option.isSome_some, ↓reduceIte]
      cases Page.named page with
      | none => rfl
      | some named =>
          cases named with
          | submit => exact submit_eq ..
          | bookmark => exact bookmark_eq ..
          | register => exact register_eq ..
          | login => exact login_eq ..
          | admin => exact admin_eq ..

end Post

/-! ## The pages of GET -/

section Get

variable (server : Server) (auth : Auth) (d : Site) (env : Surroundings) (g : GetRequest)

/-- An absent argument is not compared. -/
theorem all_equals (p : Pointer) (constant : String) :
    Reads.all [.ok p.isSome, Pointer.equals p constant] = .ok (decide (p = some constant.toList)) := by
  cases p <;> simp

theorem all_nonempty (p : Pointer) :
    Reads.all [.ok p.isSome, Pointer.nonempty p] = .ok (decide (p.getD [] ≠ [])) := by
  cases p <;> simp

theorem noneOf_some (words : List Text) (s : Text) : noneOf words (some s) = .ok (!isOneOf words s) := by
  induction words with
  | nil => rfl
  | cons word words ih =>
      by_cases hword : s = word
      · simp [noneOf, isOneOf, hword]
      · have hne : word ≠ s := fun heq => hword heq.symm
        simpa [noneOf, isOneOf, hword, hne] using ih

/-- What is left of an argument passes for a word when the argument does. -/
theorem kept_iff {left p : Pointer} {word : Text} (h : left = p ∨ left = none ∧ p ≠ some word) :
    left = some word ↔ p = some word := by
  rcases h with rfl | ⟨rfl, hne⟩
  · exact Iff.rfl
  · simp [hne]

theorem fetchTasksFiltered_eq (userId : Int) (showSolved query state : Pointer) :
    fetchTasksFiltered d env userId showSolved query state =
      .ok (d.fetchTasksFiltered env.fetch_ok userId showSolved query state) := by
  simp only [fetchTasksFiltered, all_equals, all_nonempty, Reads.ok_bind, Reads.pure_eq, decide_eq_true_eq]
  have hshow : (if showSolved = some "0".toList then some "0".toList else none) = some "0".toList ↔
      showSolved = some "0".toList := by
    apply kept_iff
    split
    · rename_i heq
      exact Or.inl heq.symm
    · rename_i hne
      exact Or.inr ⟨rfl, hne⟩
  have hquery : (if query.getD [] ≠ [] then query else none).getD [] = query.getD [] := by
    split <;> simp_all
  generalize hleft : (if state = some "solved".toList then some "solved".toList
    else if state = some "tried".toList then some "tried".toList
    else if state = some "bookmarked".toList then some "bookmarked".toList else none) = left
  have hkept : left = state ∨ left = none ∧ state ≠ some "solved".toList ∧ state ≠ some "tried".toList ∧
      state ≠ some "bookmarked".toList := by
    rw [← hleft]
    split
    · exact Or.inl (Eq.symm (by assumption))
    split
    · exact Or.inl (Eq.symm (by assumption))
    split
    · exact Or.inl (Eq.symm (by assumption))
    · exact Or.inr ⟨rfl, by assumption, by assumption, by assumption⟩
  have hsolved : left = some "solved".toList ↔ state = some "solved".toList :=
    kept_iff (hkept.imp_right fun h => ⟨h.1, h.2.1⟩)
  have htried : left = some "tried".toList ↔ state = some "tried".toList :=
    kept_iff (hkept.imp_right fun h => ⟨h.1, h.2.2.1⟩)
  have hbookmarked : left = some "bookmarked".toList ↔ state = some "bookmarked".toList :=
    kept_iff (hkept.imp_right fun h => ⟨h.1, h.2.2.2⟩)
  simp only [Site.fetchTasksFiltered, hshow, hquery, hsolved, htried, hbookmarked, ne_eq]

theorem fetchSubmissions_eq (from_ limit : Nat) (userFilter : Pointer) (taskFilter : Nat)
    (verdictFilter : Pointer) :
    fetchSubmissions d env from_ limit userFilter taskFilter verdictFilter =
      .ok (d.fetchSubmissions env.fetch_ok from_ limit userFilter taskFilter verdictFilter) := by
  simp only [fetchSubmissions, all_nonempty, Reads.ok_bind, Reads.pure_eq, decide_eq_true_eq]
  by_cases huser : userFilter.getD [] = []
  · by_cases hverdict : verdictFilter.getD [] = [] <;> simp [Site.fetchSubmissions, huser, hverdict]
  · by_cases hverdict : verdictFilter.getD [] = [] <;> simp [Site.fetchSubmissions, huser, hverdict]

theorem frontpage_eq : frontpage auth d env = .ok (d.frontpage env auth) := by
  simp only [frontpage, fetchTasksFiltered_eq, Reads.ok_bind, Site.frontpage, Site.fetchTasks]
  cases d.fetchTasksFiltered env.fetch_ok (Site.viewer auth) (some "1".toList) none none <;> rfl

theorem taskFilter_eq (task : Pointer) : taskFilter task = .ok (Site.taskFilter task) := by
  unfold taskFilter Site.taskFilter
  rw [all_nonempty]
  cases task with
  | none => rfl
  | some task => by_cases htask : task = [] <;> simp [htask]

theorem unknownVerdict_eq (verdict : Pointer) : unknownVerdict verdict =
    .ok (!(verdict.getD [] = [] || isOneOf Site.verdictNames (verdict.getD []))) := by
  unfold unknownVerdict
  cases verdict with
  | none => rfl
  | some verdict =>
      rw [noneOf_some]
      by_cases hverdict : verdict = [] <;> simp [hverdict]

theorem countNumber_eq (count : Pointer) : countNumber count = .ok (Site.countNumber count) := by
  unfold countNumber Site.countNumber
  cases count with
  | none => rfl
  | some count =>
      simp only [noneOf_some, Option.isNone_some, Bool.false_eq_true, ↓reduceIte, Pointer.text_some, Reads.ok_bind]
      cases isOneOf ["20".toList, "50".toList, "100".toList] count <;> rfl

theorem fromNumber_eq (from_ : Pointer) : fromNumber from_ = .ok (Site.fromNumber from_) := by
  cases from_ <;> rfl

theorem submissionsPage_eq : submissionsPage auth d env g = .ok (d.submissionsPage env g auth) := by
  simp only [submissionsPage, taskFilter_eq, unknownVerdict_eq, countNumber_eq, fromNumber_eq, fetchSubmissions_eq,
    Reads.ok_bind, Reads.pure_eq, Site.submissionsPage]
  apply Reads.ite_eq_ok
  intro _
  cases Site.taskFilter g.task with
  | none => rfl
  | some taskNumber =>
      cases g.verdict.getD [] = [] || isOneOf Site.verdictNames (g.verdict.getD []) with
      | false => rfl
      | true =>
          cases Site.countNumber g.count with
          | none => rfl
          | some count =>
              cases Site.fromNumber g.from_ with
              | none => rfl
              | some from_ =>
                  dsimp only
                  cases d.fetchSubmissions env.fetch_ok from_ count
                    (if g.mine.isSome = true then some auth.username else g.user) taskNumber g.verdict <;> rfl

theorem submissionPage_eq : submissionPage auth d env g = .ok (d.submissionPage env g auth) := by
  unfold submissionPage Site.submissionPage
  cases g.id with
  | none => rfl
  | some id =>
      by_cases hid : id = []
      · rw [hid]
        rfl
      · have hdetail : Site.detailId (some id) = ((strtoulChecked id).map (BitVec.ofNat 32)).filter (· ≠ 0) := rfl
        simp only [Option.isNone_some, isEmpty_some, hid, decide_false, Reads.any_cons_ok, Reads.any_nil,
          Bool.false_eq_true, ↓reduceIte, Reads.ok_bind, Pointer.text_some, Reads.pure_eq, hdetail]
        cases (((strtoulChecked id).map (BitVec.ofNat 32)).filter (· ≠ 0)).bind
          (d.fetchSubmissionDetail env.fetch_ok) <;> rfl

theorem viewCodePage_eq : viewCodePage auth d env g = .ok (d.viewCodePage env g auth) := by
  unfold viewCodePage Site.viewCodePage
  cases g.id with
  | none => rfl
  | some idText =>
      dsimp only [Pointer.text_some, Reads.ok_bind]
      cases d.fetchSubmissionCodeById env.fetch_ok (pkOf idText) <;> rfl

theorem csrfText_ok (csrf : Pointer) : csrfText csrf = .ok (csrf.getD []) := by
  cases csrf <;> rfl

theorem tasksPage_eq : tasksPage auth d env g = .ok (d.tasksPage env g auth) := by
  have hwords : ∀ (words : List Text) (p : Pointer),
      Reads.all [.ok p.isSome, noneOf words p] = .ok (p.any (!isOneOf words ·)) := by
    intro words p
    cases p with
    | none => rfl
    | some s => simp [noneOf_some]
  simp only [tasksPage, hwords, fetchTasksFiltered_eq, csrfText_ok, Reads.ok_bind, Reads.pure_eq, Site.tasksPage]
  apply Reads.ite_eq_ok
  intro _
  apply Reads.ite_eq_ok
  intro _
  cases d.fetchTasksFiltered env.fetch_ok (Site.viewer auth) g.showSolved g.q g.state <;> rfl

theorem statementPdf_eq (desc : Text) : statementPdf desc = .ok (decide (lastDot desc = some ".pdf".toList)) := by
  simp only [statementPdf, Pointer.strrchr_some, Reads.ok_bind]
  rw [← lastDot]
  cases lastDot desc with
  | none => rfl
  | some extension => simp

theorem taskPage_eq : taskPage auth d env g = .ok (d.taskPage env g auth) := by
  unfold taskPage Site.taskPage
  cases g.pk with
  | none => rfl
  | some pkText =>
      simp only [Pointer.text_some, Reads.ok_bind, Option.isNone_some, Bool.false_eq_true, ↓reduceIte,
        statementPdf_eq, Reads.pure_eq]
      cases d.fetchTaskByPk env.fetch_ok (pkOf pkText) with
      | none => rfl
      | some task => exact Reads.ite_eq_ok fun _ => rfl

theorem getContentType_eq (path : Text) : getContentType path = .ok (Web.getContentType path) := by
  simp only [getContentType, Pointer.strrchr_some, Reads.ok_bind, Web.getContentType]
  rw [← lastDot]
  cases lastDot path with
  | none => rfl
  | some ext =>
      simp only [Option.isNone_some, Bool.false_eq_true, ↓reduceIte, Pointer.equals_some, Reads.ok_bind,
        Reads.pure_eq, decide_eq_true_eq, Option.some.injEq]
      apply Reads.ite_eq_ok
      intro _
      exact Reads.ok_ite ..

theorem descPage_eq (rawFile : Bool) : descPage auth d env g rawFile = .ok (d.descPage env g auth rawFile) := by
  unfold descPage Site.descPage
  cases g.pk with
  | none => rfl
  | some pkText =>
      simp only [Pointer.text_some, Reads.ok_bind, Option.isNone_some, Bool.false_eq_true, ↓reduceIte,
        getContentType_eq, all_equals, Pointer.strrchr_some, Reads.pure_eq, decide_eq_true_eq]
      cases d.fetchTaskByPk env.fetch_ok (pkOf pkText) with
      | none => rfl
      | some task =>
          apply Reads.ite_eq_ok
          intro _
          cases env.files (taskPath task) with
          | none => rfl
          | some content =>
              dsimp only
              apply Reads.ite_eq_ok
              intro _
              exact Reads.ok_ite ..

theorem submitPage_eq : submitPage auth d env g = .ok (d.submitPage env g auth) := by
  unfold submitPage Site.submitPage
  cases g.pk with
  | none => rfl
  | some pkText =>
      simp only [Pointer.text_some, Reads.ok_bind, Option.isNone_some, Bool.false_eq_true, ↓reduceIte, csrfText_ok,
        Pointer.equals_some, Reads.pure_eq]
      apply Reads.ite_eq_ok
      intro _
      apply Reads.ite_eq_ok
      intro _
      cases d.fetchTaskByPk env.fetch_ok (pkOf pkText) <;> rfl

theorem logoutReply_eq : logoutReply server env g = .ok (Site.logoutReply env server) := by
  have hdestroy : ∀ token : Text, sessionDestroy (some token) = .ok () := by
    intro token
    cases token <;> rfl
  simp only [logoutReply, cookieValue_eq, location_eq, Reads.ok_bind, hdestroy]
  cases Web.cookieValue g.cookie "tle_session".toList 65 <;> rfl

theorem adminPage_eq : adminPage server auth d env = .ok (d.adminPage env auth server) := by
  simp only [adminPage, notAdmin_eq, Reads.ok_bind, Reads.pure_eq, decide_eq_true_eq, Site.adminPage]
  apply Reads.ite_eq_ok
  intro _
  cases d.fetchAdminTasks env.fetch_ok <;> rfl

theorem pageNamed_eq : pageNamed g.page = .ok g.pageNamed := by
  unfold pageNamed GetRequest.pageNamed
  cases g.page with
  | none => rfl
  | some page =>
      by_cases hpage : page = "frontpage".toList
      · rw [hpage]
        rfl
      · simp only [Option.isNone_some, Pointer.equals_some, hpage, decide_false, Reads.any_cons_ok, Reads.any_nil,
          Bool.false_eq_true, ↓reduceIte, Reads.ok_bind, Pointer.text_some, Reads.pure_eq, Option.getD_some]

/-- A GET request reads through no null pointer. -/
theorem getPage_eq :
    getPage server (Web.authenticate env.answers g.toRequest) d env g = .ok (d.get env g server).1 := by
  simp only [getPage, pageNamed_eq, Reads.ok_bind, Reads.pure_eq, Site.get]
  split
  · rfl
  split
  · rfl
  cases g.pageNamed with
  | none => rfl
  | some page =>
      cases page with
      | frontpage => exact frontpage_eq ..
      | submissions => exact submissionsPage_eq ..
      | leaderboard => rfl
      | submission => exact submissionPage_eq ..
      | viewCode => exact viewCodePage_eq ..
      | tasks => exact tasksPage_eq ..
      | task => exact taskPage_eq ..
      | desc => exact descPage_eq ..
      | descFile => exact descPage_eq ..
      | submit => exact submitPage_eq ..
      | register => rfl
      | login => rfl
      | logout => exact logoutReply_eq ..
      | admin => exact adminPage_eq ..

end Get

/-! ## The calls for one request -/

section Runs

variable {server : Server} {method : Text} {r : GetRequest} {e : Exchange} {c : Call} {p p' : Parse}
  {parts : List Part}

/-- The call of `post_iterator` with a part that has a name. -/
def Part.call (part : Part) : Option IteratorCall :=
  part.key.map fun key => { key, data := part.data, off := part.off }

def Call.visit (c : Call) : Visit where
  created := c.created
  upload := if 0 < c.uploadSize then some (c.parts.filterMap Part.call) else none
  answers := c.env.answers

/-- What a call does when no pointer that it reads through is null. -/
def answer (server : Server) (method : Text) (r : GetRequest) (e : Exchange) (c : Call) : Exchange × Option Reply :=
  if method = "POST".toList then
    ((Web.ahcEcho server r.toRequest e c.visit).1, (Web.ahcEcho server r.toRequest e c.visit).2.1)
  else match e.connection with
  | .fresh => ({ e with connection := .reading {} }, none)
  | .reading _ =>
      ({ e with connection := .closed },
        some (if method = "GET".toList then (c.site.get c.env { r with uploadSize := c.uploadSize } server).1
          else .refused))
  | .closed => (e, none)

/-- The pointers that a call reads through unconditionally: the names of the parts of a form, and the argument
`page` when the form is complete. -/
def Supplied (method : Text) (r : GetRequest) (e : Exchange) (c : Call) : Prop :=
  ∀ p, e.connection = .reading p → method = "POST".toList →
    (0 < c.uploadSize → ∀ part ∈ c.parts, part.key.isSome = true) ∧
      (c.uploadSize = 0 → r.page.isSome = true)

theorem iterate_eq_ok_iff {part : Part} :
    iterate p part = .ok p' ↔ ∃ call, part.call = some call ∧ p' = p.call call := by
  unfold iterate Part.call
  cases part.key with
  | none => simp [Pointer.text]
  | some key => simp [eq_comm]

theorem iterates_of_named (h : ∀ part ∈ parts, part.key.isSome = true) :
    parts.foldlM iterate p = .ok (postProcess p (parts.filterMap Part.call)) := by
  induction parts generalizing p with
  | nil => rfl
  | cons part parts ih =>
      obtain ⟨hfirst, hrest⟩ := List.forall_mem_cons.mp h
      obtain ⟨key, hkey⟩ := Option.isSome_iff_exists.mp hfirst
      have hcall : part.call = some { key, data := part.data, off := part.off } := by
        rw [Part.call, hkey, Option.map_some]
      rw [List.foldlM_cons, iterate_eq_ok_iff.mpr ⟨_, hcall, rfl⟩, Reads.ok_bind, ih hrest,
        List.filterMap_cons_some hcall]
      rfl

theorem named_of_iterates (h : parts.foldlM iterate p = .ok p') : ∀ part ∈ parts, part.key.isSome = true := by
  induction parts generalizing p with
  | nil => simp
  | cons part parts ih =>
      rw [List.foldlM_cons] at h
      obtain ⟨p₁, hfirst, hrest⟩ := Reads.bind_eq_ok_iff.mp h
      obtain ⟨call, hcall, -⟩ := iterate_eq_ok_iff.mp hfirst
      obtain ⟨key, hkey, -⟩ := Option.map_eq_some_iff.mp hcall
      exact List.forall_mem_cons.mpr ⟨by rw [hkey]; rfl, ih hrest⟩

theorem ahcEcho_of_supplied (h : Supplied method r e c) :
    ahcEcho server method r e c = .ok (answer server method r e c) := by
  obtain ⟨connection, queue⟩ := e
  cases connection with
  | fresh =>
      simp only [ahcEcho, answer, Web.ahcEcho, Call.visit]
      by_cases hpost : method = "POST".toList
      · by_cases hcreated : c.created = true
        · simp only [hpost, hcreated, Bool.not_true, Bool.false_eq_true, and_false, ↓reduceIte, Reads.pure_eq]
        · simp only [hpost, hcreated, Bool.not_false, and_self, Bool.false_eq_true, ↓reduceIte, Reads.pure_eq]
      · simp only [hpost, false_and, ↓reduceIte, Reads.pure_eq]
  | closed =>
      simp only [ahcEcho, answer, Web.ahcEcho]
      split <;> rfl
  | reading p =>
      simp only [ahcEcho, answer, Web.ahcEcho, Call.visit, authenticate_eq, Reads.ok_bind]
      by_cases hpost : method = "POST".toList
      · obtain ⟨hnamed, hpage⟩ := h p rfl hpost
        rw [if_pos hpost, if_pos hpost]
        by_cases hupload : 0 < c.uploadSize
        · simp only [if_pos hupload, iterates_of_named (hnamed hupload), Reads.ok_bind, Reads.pure_eq]
        · simp only [if_neg hupload, postPage_eq, hpage (Nat.eq_zero_of_not_pos hupload), ↓reduceIte, Reads.ok_bind,
            Reads.pure_eq]
      · rw [if_neg hpost, if_neg hpost]
        by_cases hget : method = "GET".toList
        · have hreply := getPage_eq server c.site c.env { r with uploadSize := c.uploadSize }
          simp only [if_pos hget, hreply, Reads.ok_bind, Reads.pure_eq]
        · simp only [if_neg hget, Reads.pure_eq]

theorem supplied_of_ok {out : Exchange × Option Reply} (h : ahcEcho server method r e c = .ok out) :
    Supplied method r e c := by
  rintro p hreading rfl
  simp only [ahcEcho, hreading, authenticate_eq, Reads.ok_bind, ↓reduceIte] at h
  constructor
  · intro hupload
    rw [if_pos hupload] at h
    obtain ⟨p', hparts, -⟩ := Reads.bind_eq_ok_iff.mp h
    exact named_of_iterates hparts
  · intro hzero
    rw [if_neg (by omega), postPage_eq] at h
    by_contra hpage
    rw [if_neg hpage] at h
    cases h

/-- A run that reads through no null pointer does what the handler does with the values. -/
theorem echoes_eq_run {calls : List Call} {e' : Exchange} (h : echoes server method r calls e = .ok e') :
    e' = run (fun e c => (answer server method r e c).1) e calls := by
  induction calls generalizing e with
  | nil =>
      cases h
      rfl
  | cons c calls ih =>
      rw [echoes, List.foldlM_cons] at h
      obtain ⟨e₁, hfirst, hrest⟩ := Reads.bind_eq_ok_iff.mp h
      obtain ⟨out, hout, hkept⟩ := Reads.bind_eq_ok_iff.mp hfirst
      have hanswer := @ahcEcho_of_supplied server _ _ _ _ (supplied_of_ok hout)
      rw [hout] at hanswer
      cases hanswer
      cases hkept
      exact ih hrest

/-- The calls for a request, in whatever order they come, read through no null pointer when each of them is supplied
in the state that it finds. -/
theorem echoes_ok_iff (server : Server) (method : Text) (r : GetRequest) (calls : List Call) (e : Exchange) :
    (∃ e', echoes server method r calls e = .ok e') ↔
      ∀ before c after e', calls = before ++ c :: after → echoes server method r before e = .ok e' →
        Supplied method r e' c := by
  apply foldlM_ok_iff
  intro e c
  constructor
  · rintro ⟨e', hstep⟩
    obtain ⟨out, hout, -⟩ := Reads.bind_eq_ok_iff.mp hstep
    exact supplied_of_ok hout
  · intro hsupplied
    rw [ahcEcho_of_supplied hsupplied]
    exact ⟨_, rfl⟩

/-- A form is sent to the site without a page, and one that has a part without a name. -/
theorem echoes_null_read :
    echoes {} "POST".toList {} [{}, {}] { queue := .idle .empty } = .error .nullRead ∧
      echoes {} "POST".toList { page := some "submit".toList }
        [{}, { uploadSize := 1, parts := [{ key := none, data := ['x'] }] }, {}] { queue := .idle .empty } =
          .error .nullRead := by
  constructor <;> rfl

end Runs

end Tle.Web.Pointers
