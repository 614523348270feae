import Tle.Queue.Lemmas.Transactions
import Tle.Web.FormTheorems
import Tle.Web.Lemmas.Auth

/-!
# In whose name a request stores a submission
-/

namespace Tle.Web
open Tle.Lib Tle.Queue

variable {server : Server} {a : Answers} {r : Request} {auth : Auth} {conn : ConnectionInfo}
  {queue : Session}

/-- Every page but `submit` stores no row. -/
theorem postPage_inserts_nothing (hpage : r.page.bind Page.named ≠ some .submit) {k : Int}
    (h : queue.committed.submission k = none) :
    (postPage server a r conn queue).queue.committed.submission k = none := by
  unfold postPage
  rcases hr : r.page with _ | page
  · exact h
  rw [hr, Option.bind_some] at hpage
  rcases hnamed : Page.named page with _ | named
  · simpa only [hnamed] using h
  cases named with
  | submit => exact absurd hnamed hpage
  | bookmark =>
      simp only [hnamed, bookmark]
      split
      · exact h
      · split_ifs <;> exact h
  | register =>
      simp only [hnamed, register]
      split <;> exact h
  | login =>
      simp only [hnamed, login]
      split <;> exact h
  | admin =>
      simp only [hnamed, admin]
      split
      · exact h
      · split_ifs
        · exact h
        · exact h
        · rcases conn.adminAction with _ | action
          · exact h
          · cases action with
            | rejudge => exact requeueSubmission_inserts_nothing _ _ _ _ h
            | toggleHidden => exact h

namespace Post

variable (p : Post)

/-- The tables when the last call for the request has returned. -/
def final : Db := (run p.step { queue := p.queue } p.visits).queue.committed

/-- The request stores the submission `row`. -/
def Adds (row : Submission) : Prop :=
  ∃ k, p.queue.committed.submission k = none ∧ p.final.submission k = some row

theorem run_closed (queue : Session) (vs : List Visit) :
    run p.step { connection := .closed, queue } vs = { connection := .closed, queue } := by
  induction vs with
  | nil => rfl
  | cons v vs ih => exact ih

theorem final_eq : p.final =
    if p.created then (postPage p.server p.answers p.request p.parse.conn p.queue).queue.committed
    else p.queue.committed := by
  obtain ⟨-, hrun⟩ := p.reading_uploads {} p.queue p.uploads
  unfold final visits
  cases hcreated : p.created with
  | false =>
      have hclosed := p.run_closed p.queue
        (p.uploads.map (fun calls => ({ upload := some calls } : Visit)) ++ [{ answers := p.answers }])
      exact congrArg (·.queue.committed) hclosed
  | true =>
      have hfirst : p.step { queue := p.queue } { created := true } =
          { connection := .reading {}, queue := p.queue } := rfl
      rw [List.cons_append, run, List.foldl_cons, hfirst]
      rw [← run, run_append, hrun]
      rfl

/-- The arguments of the call of `enqueue_submission`. -/
def call : EnqueueCall := enqueueCall p.answers (authenticate p.answers p.request) p.parse.conn

/-- The request is for the page `submit`, which grants it. -/
def Submits : Prop := p.Granted ∧ p.request.page = some "submit".toList

theorem final_of_submits (h : p.Submits) : ∃ d id, p.queue.committed.enqueue p.call = some (d, id) ∧
    p.final = d := by
  obtain ⟨⟨hcreated, hgranted⟩, hpage⟩ := h
  have hnamed := page_eq_submit.mpr hpage
  simp only [Web.Granted, hnamed] at hgranted
  have hacts : (submit p.server p.answers (authenticate p.answers p.request) p.parse.conn p.queue).effects =
      [.enqueued p.call] := submit_acts hgranted
  obtain ⟨hidle, -⟩ | ⟨c, d, id, heffects, henqueue, hqueue⟩ :=
    submit_queue p.server p.answers (authenticate p.answers p.request) p.parse.conn p.queue
  · rw [hacts] at hidle
    cases hidle
  · rw [hacts] at heffects
    cases heffects
    refine ⟨d, id, henqueue, ?_⟩
    rw [final_eq, if_pos hcreated]
    simp only [postPage, hpage]
    exact congrArg Session.committed hqueue

theorem final_of_not_submits (h : ¬p.Submits) {k : Int} (hk : p.queue.committed.submission k = none) :
    p.final.submission k = none := by
  rw [final_eq]
  split_ifs with hcreated
  · by_cases hpage : p.request.page.bind Page.named = some .submit
    · have hrefused : ¬SubmitGranted p.answers (authenticate p.answers p.request) p.parse.conn p.queue := by
        intro hgranted
        refine h ⟨⟨hcreated, ?_⟩, page_eq_submit.mp hpage⟩
        simpa only [Web.Granted, hpage] using hgranted
      simp only [postPage, page_eq_submit.mp hpage]
      obtain ⟨-, hsame⟩ | ⟨c, d, id, heffects, -⟩ :=
        submit_queue p.server p.answers (authenticate p.answers p.request) p.parse.conn p.queue
      · exact (congrArg (Db.submission · k) hsame).trans hk
      · rw [submit_idle hrefused] at heffects
        cases heffects
    · exact postPage_inserts_nothing hpage hk
  · exact hk

/-- A request stores a row only on the page `submit`, and there the one that it asks for. -/
theorem adds_iff (row : Submission) : p.Adds row ↔
    p.Submits ∧ row = p.call.row (p.queue.committed.sequence + 1) := by
  constructor
  · rintro ⟨k, hbefore, hafter⟩
    by_cases hsubmits : p.Submits
    · obtain ⟨d, id, henqueue, hfinal⟩ := p.final_of_submits hsubmits
      rw [hfinal, (submission_enqueue henqueue).2, hbefore, Option.ite_none_right_eq_some] at hafter
      obtain ⟨-, hrow⟩ := hafter
      cases hrow
      exact ⟨hsubmits, by rw [(enqueue_sequence henqueue).1]⟩
    · rw [p.final_of_not_submits hsubmits hbefore] at hafter
      cases hafter
  · rintro ⟨hsubmits, rfl⟩
    obtain ⟨d, id, henqueue, hfinal⟩ := p.final_of_submits hsubmits
    obtain ⟨hfresh, hrow⟩ := submission_enqueue henqueue
    rw [← (enqueue_sequence henqueue).1]
    exact ⟨id, hfresh, by rw [hfinal, hrow, if_pos rfl]⟩

/-! ## What a request shows of its user -/

/-- What the page asks of the form and of the tables, whoever sends the request. -/
structure Storable : Prop where
  created : p.created = true
  page : p.request.page = some "submit".toList
  oneField : ¬(p.parse.conn.fileFieldSeen = true ∧ p.parse.conn.codeFieldSeen = true)
  code : p.parse.conn.code.getD [] ≠ []
  stored : p.call.stores p.queue = true

/-- A valid session of the user `u`, with its token in the form. -/
def BySession (u : Int) : Prop :=
  ∃ csrf, ValidSession p.answers p.request u csrf ∧ csrfValid true csrf p.parse.conn.csrf.text = true ∧
    p.request.passwordFits = true

/-- No valid session, but a user name and its password. -/
def ByCredentials (name : Text) : Prop :=
  ¬HasSession p.answers p.request ∧ ValidCredentials p.answers p.request name ∧ name.length < 32 ∧
    p.request.passwordFits = true

theorem submits_iff : p.Submits ↔ p.Storable ∧
    ((authenticate p.answers p.request).sessionAuthenticated = true →
      csrfValid true (authenticate p.answers p.request).csrfToken p.parse.conn.csrf.text = true) ∧
    (p.parse.conn.isAnonymous = true → p.answers.anonymousAllowed = true) ∧
    ((authenticate p.answers p.request).authFail = true → p.parse.conn.isAnonymous = true) := by
  constructor
  · rintro ⟨⟨hcreated, hgranted⟩, hpage⟩
    simp only [Web.Granted, page_eq_submit.mpr hpage] at hgranted
    exact ⟨⟨hcreated, hpage, hgranted.oneField, hgranted.code, hgranted.stored⟩,
      fun hs => by simpa only [hs] using hgranted.csrf hs, hgranted.rate, hgranted.known⟩
  · rintro ⟨h, hcsrf, hrate, hknown⟩
    refine ⟨⟨h.created, ?_⟩, h.page⟩
    simp only [Web.Granted, page_eq_submit.mpr h.page]
    exact ⟨fun hs => by simpa only [hs] using hcsrf hs, h.oneField, h.code, hrate, hknown, h.stored⟩

variable {p}

theorem submits_of_session {u : Int} (hnamed : p.parse.conn.isAnonymous = false) (h : p.Storable)
    (hu : p.BySession u) : p.Submits ∧ p.call.userId = u := by
  obtain ⟨csrf, hsession, hcsrf, hfits⟩ := hu
  obtain ⟨-, huserId, htoken, hauth⟩ := authenticate_of_session hsession
  refine ⟨p.submits_iff.mpr ⟨h, fun _ => by rwa [htoken], ?_, ?_⟩, ?_⟩
  · simp [hnamed]
  · simp [hauth, hfits]
  · simp [call, enqueueCall, hnamed, huserId]

theorem submits_of_credentials {name : Text} (hnamed : p.parse.conn.isAnonymous = false) (h : p.Storable)
    (hname : p.ByCredentials name) :
    p.Submits ∧ p.call.userId = credentialsId p.answers p.request name := by
  obtain ⟨hno, hvalid, hlength, hfits⟩ := hname
  obtain ⟨hsession, hauth, huserId⟩ := authenticate_of_credentials hno hvalid
  have hpass : (authenticate p.answers p.request).authFail = false := by
    rw [hauth]
    simp [hfits, hlength]
  refine ⟨p.submits_iff.mpr ⟨h, ?_, ?_, ?_⟩, ?_⟩
  · simp [hsession]
  · simp [hnamed]
  · simp [hpass]
  · simp [call, enqueueCall, hnamed, huserId hpass]

/-- A submission that is not anonymous shows a session or credentials. -/
theorem cases_of_submits (hnamed : p.parse.conn.isAnonymous = false) (h : p.Submits) :
    p.Storable ∧ ((∃ u, p.BySession u) ∨ ∃ name, p.ByCredentials name) := by
  obtain ⟨hstorable, hcsrf, -, hknown⟩ := p.submits_iff.mp h
  have hpass : (authenticate p.answers p.request).authFail = false := by
    cases hauth : (authenticate p.answers p.request).authFail with
    | false => rfl
    | true => simp [hknown hauth] at hnamed
  refine ⟨hstorable, ?_⟩
  by_cases hsession : HasSession p.answers p.request
  · obtain ⟨u, csrf, hvalid⟩ := hsession
    obtain ⟨hs, -, htoken, hauth⟩ := authenticate_of_session hvalid
    rw [hpass, eq_comm, Bool.not_eq_false'] at hauth
    exact Or.inl ⟨u, csrf, hvalid, by rw [← htoken]; exact hcsrf hs, hauth⟩
  · by_cases hname : ∃ name, ValidCredentials p.answers p.request name
    · obtain ⟨name, hvalid⟩ := hname
      obtain ⟨-, hauth, -⟩ := authenticate_of_credentials hsession hvalid
      rw [hpass, eq_comm, Bool.not_eq_false', Bool.and_eq_true, decide_eq_true_eq] at hauth
      exact Or.inr ⟨name, hsession, hvalid, hauth.2, hauth.1⟩
    · rw [(authenticate_of_no_credentials hsession hname).2] at hpass
      cases hpass

/-! ## Requests from other sites -/

variable (p)

/-- The form carries the token of a valid session that came with the request. -/
def CarriesToken : Prop :=
  ∃ u csrf, ValidSession p.answers p.request u csrf ∧ csrf.length = 64 ∧ p.parse.conn.csrf.text = csrf

/-- Without the token of the session, a request that another site has made stores nothing in the name of a
user. -/
def CrossSiteSafe : Prop :=
  ¬p.CarriesToken → sameOriginRequest p.server p.request = false →
    ∀ row, p.Adds row → ∀ u, row.userId = some u → u < 0

/-- A request of another site that is not anonymous, with the user name and the password that a browser
adds to it by itself. -/
def Forged : Prop :=
  p.Storable ∧ p.parse.conn.isAnonymous = false ∧ sameOriginRequest p.server p.request = false ∧
    ∃ name, p.ByCredentials name ∧ 0 ≤ credentialsId p.answers p.request name

variable {p} in
theorem not_safe_of_forged (h : p.Forged) : ¬p.CrossSiteSafe := by
  obtain ⟨hstorable, hnamed, horigin, name, hname, hid⟩ := h
  obtain ⟨hsubmits, huserId⟩ := submits_of_credentials hnamed hstorable hname
  have hno : ¬p.CarriesToken := fun ⟨u, csrf, hvalid, _⟩ => hname.1 ⟨u, csrf, hvalid⟩
  have hrow : (p.call.row (p.queue.committed.sequence + 1)).userId =
      some (credentialsId p.answers p.request name) := by
    rw [EnqueueCall.row, huserId, if_neg (not_lt.mpr hid)]
  intro hsafe
  exact absurd hid (not_le.mpr (hsafe hno horigin _ ((p.adds_iff _).mpr ⟨hsubmits, rfl⟩) _ hrow))

/-- The token is asked for only when there is a session. -/
theorem crossSiteSafe_iff : p.CrossSiteSafe ↔ ¬p.Forged := by
  constructor
  · exact fun hsafe hforged => not_safe_of_forged hforged hsafe
  · intro hforged hno horigin row hadds u hu
    obtain ⟨hsubmits, rfl⟩ := (p.adds_iff row).mp hadds
    obtain ⟨hsign, huserId⟩ := Option.ite_none_left_eq_some.mp hu
    cases huserId
    cases hnamed : p.parse.conn.isAnonymous with
    | true => simp [call, enqueueCall, hnamed] at hsign
    | false =>
        obtain ⟨hstorable, ⟨v, hv⟩ | ⟨name, hname⟩⟩ := cases_of_submits hnamed hsubmits
        · obtain ⟨csrf, hvalid, hcsrf, -⟩ := hv
          simp only [csrfValid, Bool.true_and, Bool.and_eq_true, decide_eq_true_eq] at hcsrf
          exact absurd ⟨v, csrf, hvalid, hcsrf.1.1, hcsrf.2.symm⟩ hno
        · obtain ⟨-, heq⟩ := submits_of_credentials hnamed hstorable hname
          rw [heq] at hsign ⊢
          exact absurd ⟨hstorable, hnamed, horigin, name, hname, not_lt.mp hsign⟩ hforged

/-- A form with nothing but code, sent with a user name and its password, but without a cookie. -/
def withCredentials (answers : Answers) : Post where
  request :=
    { page := some "submit".toList, username := some "amy".toList, password := some "secret".toList }
  queue := .idle Db.empty
  uploads := [[⟨"code".toList, "main;".toList, 0⟩]]
  answers := answers

theorem withCredentials_byCredentials {answers : Answers}
    (h : 0 < answers.userValidAuth "amy".toList "secret".toList) :
    (withCredentials answers).ByCredentials "amy".toList := by
  refine ⟨?_, ⟨rfl, "secret".toList, rfl, h⟩, by decide, rfl⟩
  rintro ⟨u, csrf, hrow, -⟩
  cases hrow

theorem not_crossSiteSafe : ¬∀ p : Post, p.CrossSiteSafe := by
  intro h
  let answers : Answers := { userValidAuth := fun _ _ => 1, idByUsername := fun _ => some 1 }
  have hstorable : (withCredentials answers).Storable :=
    ⟨by decide, by decide, by decide, by decide, by decide⟩
  refine not_safe_of_forged (p := withCredentials answers) ⟨hstorable, by decide, by decide, _,
    withCredentials_byCredentials Int.one_pos, by decide⟩ (h _)

/-! ## The owner of a submission -/

/-- A stored submission is anonymous as the form asked and the rate limiter allowed, or belongs to the user
who was verified. -/
def RightlyAttributed : Prop :=
  ∀ row, p.Adds row →
    (p.parse.conn.isAnonymous = true ∧ p.answers.anonymousAllowed = true ∧ row.userId = none) ∨
    (p.parse.conn.isAnonymous = false ∧ ∃ u, row.userId = some u ∧ Verified p.answers p.request u)

/-- The account of the credentials `name` is found. -/
def OwnerFound (name : Text) : Prop :=
  ∃ u, p.answers.idByUsername name = some u ∧ 0 ≤ u ∧
    (name = [] → leftoverId p.answers p.request = u)

/-- A request that is not anonymous, whose session or whose credentials lead to no account. -/
def Ownerless : Prop :=
  p.Storable ∧ p.parse.conn.isAnonymous = false ∧
    ((∃ u, p.BySession u ∧ u < 0) ∨ ∃ name, p.ByCredentials name ∧ ¬p.OwnerFound name)

theorem row_userId {u : Int} (h : p.call.userId = u) (id : Int) :
    (p.call.row id).userId = if u < 0 then none else some u := by
  rw [EnqueueCall.row, h]

theorem ownerFound_iff {name : Text} (hname : p.ByCredentials name) : p.OwnerFound name ↔
    0 ≤ credentialsId p.answers p.request name ∧
      Verified p.answers p.request (credentialsId p.answers p.request name) := by
  rw [verified_of_credentials hname.1 hname.2.1]
  constructor
  · rintro ⟨u, hid, hu, hempty⟩
    have heq : credentialsId p.answers p.request name = u := by
      unfold credentialsId
      split_ifs with hn
      · exact hempty hn
      · rw [userFetchIdByUsername, hid, Option.getD_some]
    rw [heq]
    exact ⟨hu, hid⟩
  · rintro ⟨hsign, hid⟩
    exact ⟨_, hid, hsign, fun hn => by rw [credentialsId, if_pos hn]⟩

variable {p} in
theorem not_attributed_of_ownerless (h : p.Ownerless) : ¬p.RightlyAttributed := by
  obtain ⟨hstorable, hnamed, ⟨u, hu, hneg⟩ | ⟨name, hname, hlost⟩⟩ := h
  · obtain ⟨hsubmits, huserId⟩ := submits_of_session hnamed hstorable hu
    have hrow := p.row_userId huserId (p.queue.committed.sequence + 1)
    intro hright
    obtain ⟨hanonymous, -⟩ | ⟨-, v, hv, -⟩ := hright _ ((p.adds_iff _).mpr ⟨hsubmits, rfl⟩)
    · rw [hnamed] at hanonymous
      cases hanonymous
    · rw [hrow, if_pos hneg] at hv
      cases hv
  · obtain ⟨hsubmits, huserId⟩ := submits_of_credentials hnamed hstorable hname
    have hrow := p.row_userId huserId (p.queue.committed.sequence + 1)
    intro hright
    obtain ⟨hanonymous, -⟩ | ⟨-, v, hv, hverified⟩ :=
      hright _ ((p.adds_iff _).mpr ⟨hsubmits, rfl⟩)
    · rw [hnamed] at hanonymous
      cases hanonymous
    · obtain ⟨hsign, heq⟩ := Option.ite_none_left_eq_some.mp (hrow.symm.trans hv)
      cases heq
      exact hlost ((p.ownerFound_iff hname).mpr ⟨not_lt.mp hsign, hverified⟩)

/-- The number that the accounts give for verified credentials is not checked. -/
theorem rightlyAttributed_iff : p.RightlyAttributed ↔ ¬p.Ownerless := by
  constructor
  · exact fun hright howner => not_attributed_of_ownerless howner hright
  · intro howner row hadds
    obtain ⟨hsubmits, rfl⟩ := (p.adds_iff row).mp hadds
    cases hnamed : p.parse.conn.isAnonymous with
    | true =>
        refine Or.inl ⟨rfl, (p.submits_iff.mp hsubmits).2.2.1 hnamed, ?_⟩
        simp [EnqueueCall.row, call, enqueueCall, hnamed]
    | false =>
        refine Or.inr ⟨rfl, ?_⟩
        obtain ⟨hstorable, ⟨u, hu⟩ | ⟨name, hname⟩⟩ := cases_of_submits hnamed hsubmits
        · have huserId := (submits_of_session hnamed hstorable hu).2
          have hsign : ¬u < 0 := fun hneg => howner ⟨hstorable, hnamed, Or.inl ⟨u, hu, hneg⟩⟩
          obtain ⟨csrf, hvalid, -⟩ := hu
          exact ⟨u, by rw [p.row_userId huserId, if_neg hsign], Or.inl ⟨csrf, hvalid⟩⟩
        · have hfound : p.OwnerFound name :=
            not_not.mp fun hlost => howner ⟨hstorable, hnamed, Or.inr ⟨name, hname, hlost⟩⟩
          obtain ⟨hsign, hverified⟩ := (p.ownerFound_iff hname).mp hfound
          rw [p.row_userId (submits_of_credentials hnamed hstorable hname).2, if_neg (not_lt.mpr hsign)]
          exact ⟨_, rfl, hverified⟩

/-- The credentials are accepted, but `user_fetch_id_by_username` fails. -/
theorem not_rightlyAttributed : ¬∀ p : Post, p.RightlyAttributed := by
  intro h
  let answers : Answers := { userValidAuth := fun _ _ => 1 }
  have hstorable : (withCredentials answers).Storable :=
    ⟨by decide, by decide, by decide, by decide, by decide⟩
  refine not_attributed_of_ownerless (p := withCredentials answers) ⟨hstorable, by decide, Or.inr ⟨_,
    withCredentials_byCredentials Int.one_pos, ?_⟩⟩ (h _)
  rintro ⟨u, hid, -⟩
  cases hid

end Post

end Tle.Web
