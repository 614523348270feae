import Tle.Web.Handler

/-!
# What a form does whose parse was cut short
-/

namespace Tle.Web
open Tle.Lib Tle.Queue

/-! ## When a page acts -/

/-- An effect other than a bookmark. -/
def Effect.Acts : Effect → Prop
  | bookmarkToggled _ _ => False
  | _ => True

/-- Everything that the page `submit` asks of a request before it stores the code. -/
structure SubmitGranted (a : Answers) (auth : Auth) (conn : ConnectionInfo) (queue : Session) : Prop where
  csrf : auth.sessionAuthenticated = true →
    csrfValid auth.sessionAuthenticated auth.csrfToken conn.csrf.text = true
  oneField : ¬(conn.fileFieldSeen = true ∧ conn.codeFieldSeen = true)
  code : conn.code.getD [] ≠ []
  rate : conn.isAnonymous = true → a.anonymousAllowed = true
  known : auth.authFail = true → conn.isAnonymous = true
  stored : (enqueueCall a auth conn).stores queue = true

structure LoginGranted (a : Answers) (conn : ConnectionInfo) : Prop where
  valid : a.userValidAuth conn.username.text conn.password.text = 1
  found : 0 ≤ userFetchIdByUsername a conn.username.text
  created : (sessionCreate a (userFetchIdByUsername a conn.username.text)).isSome = true

structure AdminGranted (server : Server) (a : Answers) (r : Request) (auth : Auth) (conn : ConnectionInfo)
    (queue : Session) : Prop where
  configured : auth.password ≠ []
  password : server.adminPassword = some auth.password
  origin : sameOriginRequest server r = true
  action : ∃ action, conn.adminAction = some action ∧ action.changes a conn.adminId queue = true

/-- The last call of `ahc_echo` for a request stores a submission, registers or logs in a user or
carries out an action of the administrator. -/
def Granted (server : Server) (a : Answers) (r : Request) (conn : ConnectionInfo) (queue : Session) : Prop :=
  match r.page.bind Page.named with
  | some .submit => SubmitGranted a (authenticate a r) conn queue
  | some .register => userRegister a conn.username.text conn.password.text = 0
  | some .login => LoginGranted a conn
  | some .admin => AdminGranted server a r (authenticate a r) conn queue
  | some .bookmark | none => False

variable {server : Server} {a : Answers} {r : Request} {auth : Auth} {conn : ConnectionInfo}
  {queue : Session}

theorem submit_acts (h : SubmitGranted a auth conn queue) :
    (submit server a auth conn queue).effects = [.enqueued (enqueueCall a auth conn)] := by
  have hcsrf : (auth.sessionAuthenticated &&
      !csrfValid auth.sessionAuthenticated auth.csrfToken conn.csrf.text) = false := by
    cases hs : auth.sessionAuthenticated with
    | false => rfl
    | true => simpa [hs] using h.csrf hs
  have honeField : (conn.fileFieldSeen && conn.codeFieldSeen) = false := by
    simpa using h.oneField
  have hrate : (conn.isAnonymous && !a.anonymousAllowed) = false := by
    simpa using h.rate
  have hknown : (auth.authFail && !conn.isAnonymous) = false := by
    simpa using h.known
  simp [submit, hcsrf, honeField, h.code, hrate, hknown, h.stored]

theorem submit_idle (h : ¬SubmitGranted a auth conn queue) :
    (submit server a auth conn queue).effects = [] := by
  simp only [submit]
  split_ifs with hcsrf honeField hcode hrate hknown hstored
  all_goals try rfl
  -- past all refusals
  rw [Bool.and_eq_true, not_and, Bool.not_eq_true', Bool.not_eq_false] at hcsrf
  have hgranted : SubmitGranted a auth conn queue :=
    ⟨hcsrf, by simpa using honeField, hcode, by simpa using hrate, by simpa using hknown, hstored⟩
  exact absurd hgranted h

/-- The effect is what has become of the tables. -/
theorem submit_queue (server : Server) (a : Answers) (auth : Auth) (conn : ConnectionInfo) (queue : Session) :
    ((submit server a auth conn queue).effects = [] ∧
      (submit server a auth conn queue).queue.committed = queue.committed) ∨
    ∃ c d id, (submit server a auth conn queue).effects = [.enqueued c] ∧
      queue.committed.enqueue c = some (d, id) ∧ (submit server a auth conn queue).queue = .idle d := by
  simp only [submit]
  split_ifs
  all_goals try exact Or.inl ⟨rfl, rfl⟩
  · rename_i hstored
    obtain ⟨d, id, henqueue, hqueue⟩ := enqueueSubmission_of_stores hstored
    exact Or.inr ⟨_, d, id, rfl, henqueue, hqueue⟩
  · rename_i hstored
    exact Or.inl ⟨rfl, enqueueSubmission_of_not_stores hstored⟩

theorem login_acts (server : Server) (queue : Session) (h : LoginGranted a conn) :
    ∃ id, (login server a conn queue).effects = [.loggedIn id] := by
  obtain ⟨token, htoken⟩ := Option.isSome_iff_exists.mp h.created
  refine ⟨userFetchIdByUsername a conn.username.text, ?_⟩
  simp [login, openSession, h.valid, h.found, htoken]

theorem login_idle (h : ¬LoginGranted a conn) : (login server a conn queue).effects = [] := by
  have hnone : openSession a conn = none := by
    by_contra hsome
    obtain ⟨⟨id, token⟩, hopen⟩ := Option.ne_none_iff_exists'.mp hsome
    simp only [openSession] at hopen
    split_ifs at hopen with hvalid hfound
    · obtain ⟨t, ht, -⟩ := Option.map_eq_some_iff.mp hopen
      exact h ⟨hvalid, hfound, by rw [ht]; rfl⟩
    · omega
  simp [login, hnone]

theorem admin_acts (h : AdminGranted server a r auth conn queue) :
    ∃ action, (admin server a r auth conn queue).effects = [.adminAction action conn.adminId] := by
  obtain ⟨action, haction, hchanges⟩ := h.action
  refine ⟨action, ?_⟩
  simp [admin, h.password, h.configured, h.origin, haction, hchanges]

theorem admin_idle (h : ¬AdminGranted server a r auth conn queue) :
    (admin server a r auth conn queue).effects = [] := by
  unfold admin
  split
  · rfl
  · rename_i password hpassword
    split_ifs with hdenied horigin
    · rfl
    · rfl
    · rcases haction : conn.adminAction with _ | action
      · rfl
      · obtain ⟨hne, heq⟩ := not_or.mp hdenied
        rw [not_not] at heq
        dsimp only
        split_ifs with hchanges
        · exact absurd
            ⟨by rwa [heq], by rw [heq, hpassword], by simpa using horigin, action, haction, hchanges⟩ h
        · rfl

theorem page_eq_submit :
    r.page.bind Page.named = some .submit ↔ r.page = some "submit".toList := by
  rcases r.page with _ | page
  · simp
  · simp only [Option.bind_some, Option.some.injEq]
    constructor
    · intro h
      unfold Page.named at h
      split_ifs at h with hsubmit
      · exact hsubmit
      all_goals cases h
    · rintro rfl
      rfl

/-- A page that grants the request acts on it once; `submit` alone stores code. -/
theorem postPage_acts (h : Granted server a r conn queue) :
    ∃ e, (postPage server a r conn queue).effects = [e] ∧ e.Acts ∧
      ∀ c, e = .enqueued c ↔
        r.page.bind Page.named = some .submit ∧ c = enqueueCall a (authenticate a r) conn := by
  rcases hpage : r.page with _ | page
  · simp [Granted, hpage] at h
  simp only [Granted, hpage, Option.bind_some] at h
  simp only [postPage, hpage, Option.bind_some]
  rcases hnamed : Page.named page with _ | named
  · simp [hnamed] at h
  cases named with
  | submit =>
      simp only [hnamed] at h
      exact ⟨_, submit_acts h, trivial, by simp [eq_comm]⟩
  | bookmark => simp [hnamed] at h
  | register =>
      simp only [hnamed] at h
      exact ⟨.registered conn.username.text, by simp [register, h], trivial, by simp⟩
  | login =>
      simp only [hnamed] at h
      obtain ⟨id, hid⟩ := login_acts server queue h
      exact ⟨.loggedIn id, hid, trivial, by simp⟩
  | admin =>
      simp only [hnamed] at h
      obtain ⟨action, haction⟩ := admin_acts h
      exact ⟨.adminAction action conn.adminId, haction, trivial, by simp⟩

theorem bookmark_idle : ∀ e ∈ (bookmark server a r auth conn queue).effects, ¬e.Acts := by
  simp only [bookmark]
  split
  · simp
  · split_ifs <;> simp [Effect.Acts]

theorem register_idle (h : userRegister a conn.username.text conn.password.text ≠ 0) :
    (register a conn queue).effects = [] := by
  unfold register
  split
  · rfl
  · rename_i hzero
    exact absurd hzero h
  · rfl

/-- A page that does not grant the request does nothing but to toggle a bookmark. -/
theorem postPage_idle (h : ¬Granted server a r conn queue) :
    ∀ e ∈ (postPage server a r conn queue).effects, ¬e.Acts := by
  rcases hpage : r.page with _ | page
  · simp [postPage, hpage]
  simp only [Granted, hpage, Option.bind_some] at h
  simp only [postPage, hpage]
  rcases hnamed : Page.named page with _ | named
  · simp
  cases named with
  | submit => simp_all [submit_idle]
  | bookmark => exact bookmark_idle
  | register => simp_all [register_idle]
  | login => simp_all [login_idle]
  | admin => simp_all [admin_idle]

/-! ## The calls for one request -/

/-- A POST request as its calls of `ahc_echo` receive it, with the answers to the last one. -/
structure Post where
  server : Server := {}
  request : Request
  queue : Session
  created : Bool := true
  uploads : List (List IteratorCall)
  answers : Answers := {}

namespace Post

def step (p : Post) (e : Exchange) (v : Visit) : Exchange := (ahcEcho p.server p.request e v).1

def emit (p : Post) (e : Exchange) (v : Visit) : List Effect := (ahcEcho p.server p.request e v).2.2

def visits (p : Post) : List Visit :=
  { created := p.created } :: p.uploads.map (fun calls => { upload := some calls }) ++
    [{ answers := p.answers }]

/-- What the request does. -/
def effects (p : Post) : List Effect := history p.step p.emit { queue := p.queue } p.visits

/-- The calls of `post_iterator` that the body asks for. -/
def calls (p : Post) : List IteratorCall := p.uploads.flatten

def parse (p : Post) : Parse := postProcess {} p.calls

variable (p : Post)

theorem history_closed (queue : Session) (vs : List Visit) :
    history p.step p.emit { connection := .closed, queue } vs = [] := by
  induction vs with
  | nil => rfl
  | cons v vs ih => exact ih

theorem reading_uploads (q : Parse) (queue : Session) (uploads : List (List IteratorCall)) :
    let vs := uploads.map fun calls => ({ upload := some calls } : Visit)
    history p.step p.emit { connection := .reading q, queue } vs = [] ∧
      run p.step { connection := .reading q, queue } vs =
        { connection := .reading (postProcess q uploads.flatten), queue } := by
  induction uploads generalizing q with
  | nil => exact ⟨rfl, rfl⟩
  | cons calls uploads ih =>
      rw [List.flatten_cons, postProcess_append]
      exact ih (postProcess q calls)

/-- Nothing happens before the body is complete. -/
theorem effects_eq : p.effects =
    if p.created then (postPage p.server p.answers p.request p.parse.conn p.queue).effects else [] := by
  obtain ⟨hquiet, hrun⟩ := p.reading_uploads {} p.queue p.uploads
  unfold effects visits
  cases hcreated : p.created with
  | false => exact p.history_closed p.queue _
  | true =>
      have hfirst : p.step { queue := p.queue } { created := true } =
          { connection := .reading {}, queue := p.queue } := rfl
      rw [List.cons_append, history, hfirst, history_snoc, hquiet, hrun]
      rfl

/-- Nothing comes of a form whose parse was aborted, and code is stored as it was uploaded. -/
structure AbortHarmless : Prop where
  idle : p.parse.aborted = true → ∀ e ∈ p.effects, ¬e.Acts
  complete : ∀ c, .enqueued c ∈ p.effects → c.code = some (uploadedCode p.calls)

/-- The last call grants what the fields read so far ask for. -/
def Granted : Prop :=
  p.created = true ∧ Web.Granted p.server p.answers p.request p.parse.conn p.queue

theorem idle_of_not_granted (h : ¬p.Granted) : ∀ e ∈ p.effects, ¬e.Acts := by
  rw [effects_eq]
  split_ifs with hcreated
  · exact postPage_idle (fun hgranted => h ⟨hcreated, hgranted⟩)
  · simp

/-- The fields of an aborted parse are acted upon like those of a complete one, and the code is stored
up to its first NUL. -/
theorem abortHarmless_iff : p.AbortHarmless ↔
    ¬p.Granted ∨ p.parse.aborted = false ∧
      (p.request.page = some "submit".toList → '\x00' ∉ uploadedCode p.calls) := by
  by_cases hgranted : p.Granted
  · obtain ⟨e, he, hacts, henqueued⟩ := postPage_acts hgranted.2
    have heffects : p.effects = [e] := by rw [effects_eq, if_pos hgranted.1, he]
    have hcode (hgoes : p.parse.aborted = false) :
        (enqueueCall p.answers (authenticate p.answers p.request) p.parse.conn).code =
          some (cstr (uploadedCode p.calls)) := by
      rw [← code_of_postProcess p.calls hgoes]
      rfl
    constructor
    · intro h
      have hgoes : p.parse.aborted = false := by
        by_contra haborted
        exact h.idle (by simpa using haborted) e (by simp [heffects]) hacts
      refine Or.inr ⟨hgoes, fun hpage => ?_⟩
      have heq := (henqueued _).mpr ⟨page_eq_submit.mpr hpage, rfl⟩
      have hcomplete := h.complete _ (by rw [heffects, heq]; exact List.mem_singleton_self _)
      rw [hcode hgoes, Option.some.injEq] at hcomplete
      exact cstr_eq_self.mp hcomplete
    · rintro (hnot | ⟨hgoes, hnul⟩)
      · exact absurd hgranted hnot
      refine ⟨fun haborted => by simp [hgoes] at haborted, fun c hc => ?_⟩
      rw [heffects, List.mem_singleton] at hc
      obtain ⟨hpage, rfl⟩ := (henqueued c).mp hc.symm
      rw [hcode hgoes, cstr_eq_self.mpr (hnul (page_eq_submit.mp hpage))]
  · have hidle := p.idle_of_not_granted hgranted
    simp only [hgranted, not_false_eq_true, true_or, iff_true]
    exact ⟨fun _ => hidle, fun c hc => absurd trivial (hidle _ hc)⟩

/-- An anonymous submission whose form ends with a field that the parser does not know. -/
theorem not_abortHarmless : ¬∀ p : Post, p.AbortHarmless := by
  intro h
  let p : Post :=
    { request := { page := some "submit".toList }
      queue := .idle Db.empty
      uploads := [[⟨"is_anonymous".toList, "on".toList, 0⟩, ⟨"code".toList, "main;".toList, 0⟩,
        ⟨"x".toList, "y".toList, 0⟩]] }
  have hgranted : SubmitGranted p.answers (authenticate p.answers p.request) p.parse.conn p.queue :=
    ⟨by decide, by decide, by decide, by decide, by decide, by decide⟩
  have heffects : p.effects =
      [.enqueued (enqueueCall p.answers (authenticate p.answers p.request) p.parse.conn)] := by
    rw [p.effects_eq, if_pos rfl]
    exact submit_acts hgranted
  have hmem := List.mem_singleton_self (Effect.enqueued (enqueueCall p.answers
    (authenticate p.answers p.request) p.parse.conn))
  rw [← heffects] at hmem
  exact (h p).idle (by decide) _ hmem trivial

end Post

end Tle.Web
