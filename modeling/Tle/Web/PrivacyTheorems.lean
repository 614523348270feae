import Tle.Html.Lemmas.Readback
import Tle.Web.Get

/-!
# What the pages tell of a private submission
-/

namespace Tle.Web
open Tle.Lib Tle.Html Tle.Queue

variable {d : Site} {env : Surroundings} {r : GetRequest} {auth : Auth} {server : Server} {k : Int}
  {code output : Option Text} {s : Submission}

/-- The row, with this code and this output of the compiler if it is that of the submission `k`. -/
def sourced (k : Int) (code output : Option Text) (s : Submission) : Submission :=
  { s with
    code := if s.submissionId = k then code else s.code
    compilerOutput := if s.submissionId = k then output else s.compilerOutput }

theorem ite_eq_sourced : (if s.submissionId = k then { s with code, compilerOutput := output } else s) =
    sourced k code output s := by
  unfold sourced
  split
  · rfl
  · rfl

namespace Site

/-- The tables with another code and another output of the compiler of the submission `k`. -/
def withSource (d : Site) (k : Int) (code output : Option Text) : Site :=
  { d with queue := (d.queue.updateSubmissions (·.submissionId = k)
      (fun s => { s with code, compilerOutput := output }) fun _ => rfl).1 }

@[simp] theorem tasks_withSource : (d.withSource k code output).tasks = d.tasks := rfl

@[simp] theorem users_withSource : (d.withSource k code output).users = d.users := rfl

@[simp] theorem bookmarked_withSource : (d.withSource k code output).bookmarked = d.bookmarked := rfl

@[simp] theorem submissions_withSource :
    (d.withSource k code output).submissions = d.submissions.map (sourced k code output) := by
  simp only [submissions, withSource, Db.updateSubmissions, Table.updateWhere, decide_eq_true_eq,
    ite_eq_sourced]

@[simp] theorem submission_withSource {id : Int} : (d.withSource k code output).queue.submission id =
    (d.queue.submission id).map (sourced k code output) := by
  simp only [withSource, Db.updateSubmissions, Db.submission, Table.find_updateWhere, decide_eq_true_eq,
    ite_eq_sourced]

/-! ## The queries -/

@[simp] theorem solved_withSource : (d.withSource k code output).solved = d.solved := by
  funext taskPk userId
  simp only [solved, submissions_withSource, List.any_map]
  rfl

@[simp] theorem tried_withSource : (d.withSource k code output).tried = d.tried := by
  funext taskPk userId
  simp only [tried, submissions_withSource, List.any_map]
  rfl

theorem fetchTasksFiltered_withSource :
    (d.withSource k code output).fetchTasksFiltered = d.fetchTasksFiltered := by
  funext ok userId showSolved query state
  simp only [fetchTasksFiltered, tasks_withSource, solved_withSource, tried_withSource,
    bookmarked_withSource]

theorem fetchTaskByPk_withSource : (d.withSource k code output).fetchTaskByPk = d.fetchTaskByPk := by
  funext ok pk
  simp only [fetchTaskByPk, submissionCount, acceptedCount, tasks_withSource, submissions_withSource,
    List.countP_map]
  rfl

theorem fetchSubmissions_withSource :
    (d.withSource k code output).fetchSubmissions = d.fetchSubmissions := by
  funext ok from_ limit userFilter taskFilter verdictFilter
  simp only [fetchSubmissions, submissions_withSource, List.filter_map, ← List.map_reverse, ← List.map_take,
    List.map_map]
  rfl

@[simp] theorem acceptedTasks_withSource : (d.withSource k code output).acceptedTasks = d.acceptedTasks := by
  funext userId
  simp only [acceptedTasks, submissions_withSource, List.filter_map, List.map_map]
  rfl

@[simp] theorem bestScore_withSource : (d.withSource k code output).bestScore = d.bestScore := by
  funext userId taskPk
  simp only [bestScore, submissions_withSource, List.filter_map, List.filterMap_map]
  rfl

theorem fetchLeaderboard_withSource :
    (d.withSource k code output).fetchLeaderboard = d.fetchLeaderboard := by
  have hstanding : (d.withSource k code output).standing = d.standing := by
    funext sum u
    simp only [standing, acceptedTasks_withSource, bestScore_withSource]
  funext ok sum
  simp only [fetchLeaderboard, hstanding, users_withSource]

theorem submissionDetail_sourced : (d.withSource k code output).submissionDetail (sourced k code output s) =
    { d.submissionDetail s with compilerOutput := columnText 16384 (sourced k code output s).compilerOutput } :=
  rfl

/-- Another row keeps its code, and the code of a private one is not given out. -/
theorem fetchSubmissionCodeById_withSource (hs : d.queue.submission k = some s) (hprivate : s.isPublic = 0) :
    (d.withSource k code output).fetchSubmissionCodeById = d.fetchSubmissionCodeById := by
  funext ok id
  simp only [fetchSubmissionCodeById, submission_withSource]
  rcases hrow : d.queue.submission id.toInt with _ | row
  · rfl
  by_cases hkey : row.submissionId = k
  · have hid : id.toInt = k := (Table.find_key hrow).symm.trans hkey
    rw [hid, hs, Option.some_inj] at hrow
    subst hrow
    have hzero : columnInt (some s.isPublic) = 0 := by
      rw [hprivate]
      rfl
    simp [sourced, hkey, Option.filter_some, hzero]
  · simp [sourced, hkey]

theorem fetchSubmissionDetail_withSource (ok : Bool) (id : BitVec 32) :
    (d.withSource k code output).fetchSubmissionDetail ok id =
      if ok = true ∧ id.toInt = k then
        (d.fetchSubmissionDetail ok id).map fun detail =>
          { detail with compilerOutput := columnText 16384 output }
      else d.fetchSubmissionDetail ok id := by
  cases ok with
  | false => rfl
  | true =>
      simp only [fetchSubmissionDetail, submission_withSource, if_true, true_and]
      rcases hrow : d.queue.submission id.toInt with _ | row
      · simp
      have hkey : row.submissionId = id.toInt := Table.find_key hrow
      rw [Option.map_some, Option.map_some, submissionDetail_sourced, sourced, hkey]
      split
      · rfl
      · rfl

/-! ## The pages -/

theorem frontpage_withSource : (d.withSource k code output).frontpage = d.frontpage := by
  funext env auth
  simp only [frontpage, fetchTasks, fetchTasksFiltered_withSource]

theorem submissionsPage_withSource : (d.withSource k code output).submissionsPage = d.submissionsPage := by
  funext env r auth
  simp only [submissionsPage, fetchSubmissions_withSource]

theorem leaderboardPage_withSource : (d.withSource k code output).leaderboardPage = d.leaderboardPage := by
  funext env auth
  simp only [leaderboardPage, fetchLeaderboard_withSource]

theorem viewCodePage_withSource (hs : d.queue.submission k = some s) (hprivate : s.isPublic = 0) :
    (d.withSource k code output).viewCodePage = d.viewCodePage := by
  funext env r auth
  simp only [viewCodePage, fetchSubmissionCodeById_withSource hs hprivate]

theorem tasksPage_withSource : (d.withSource k code output).tasksPage = d.tasksPage := by
  funext env r auth
  simp only [tasksPage, fetchTasksFiltered_withSource]

theorem taskPage_withSource : (d.withSource k code output).taskPage = d.taskPage := by
  funext env r auth
  simp only [taskPage, fetchTaskByPk_withSource]

theorem descPage_withSource : (d.withSource k code output).descPage = d.descPage := by
  funext env r auth rawFile
  simp only [descPage, fetchTaskByPk_withSource]

theorem submitPage_withSource : (d.withSource k code output).submitPage = d.submitPage := by
  funext env r auth
  simp only [submitPage, fetchTaskByPk_withSource]
  rfl

theorem adminPage_withSource : (d.withSource k code output).adminPage = d.adminPage := rfl

/-- The request is for the page of the submission `k`, and the statement succeeds. -/
structure Details (env : Surroundings) (r : GetRequest) (k : Int) : Prop where
  url : r.url ≠ "/favicon.svg".toList
  upload : r.uploadSize = 0
  page : r.pageNamed = some .submission
  id : ∃ id, detailId r.id = some id ∧ id.toInt = k
  fetch_ok : env.fetch_ok = true

theorem get_of_details (h : Details env r k) (d : Site) (server : Server) :
    d.get env r server = (d.submissionPage env r (authenticate env.answers r.toRequest), none) := by
  simp only [get, if_neg h.url, h.upload, h.page]
  rfl

theorem submissionPage_of_fetch {id : BitVec 32} {detail : SubmissionDetail} (hid : detailId r.id = some id)
    (hdetail : d.fetchSubmissionDetail env.fetch_ok id = some detail) :
    d.submissionPage env r auth = view env auth (.submissionDetail detail) := by
  rw [submissionPage, hid, Option.bind_some, hdetail]

theorem view_inj {v v' : View} : view env auth v = view env auth v' ↔
    (v.page (some auth.username) env.now).bytes = (v'.page (some auth.username) env.now).bytes := by
  simp only [view, htmlResponse, Reply.response.injEq, true_and, String.ofList_inj]

theorem submissionPage_withSource
    (h : ¬∃ id, detailId r.id = some id ∧ env.fetch_ok = true ∧ id.toInt = k) :
    (d.withSource k code output).submissionPage env r auth = d.submissionPage env r auth := by
  unfold submissionPage
  rcases hid : detailId r.id with _ | id
  · rfl
  have hother : ¬(env.fetch_ok = true ∧ id.toInt = k) := fun hk => h ⟨id, hid, hk⟩
  simp only [Option.bind_some, fetchSubmissionDetail_withSource, if_neg hother]

/-- Every other request gets the same reply. -/
theorem get_withSource (hs : d.queue.submission k = some s) (hprivate : s.isPublic = 0)
    (hother : ¬Details env r k) (server : Server) :
    (d.withSource k code output).get env r server = d.get env r server := by
  by_cases hurl : r.url = "/favicon.svg".toList
  · rw [get, get, if_pos hurl, if_pos hurl]
  by_cases hupload : r.uploadSize ≠ 0
  · rw [get, get, if_neg hurl, if_pos hupload, if_neg hurl, if_pos hupload]
  rw [get, get, if_neg hurl, if_neg hupload, if_neg hurl, if_neg hupload, frontpage_withSource,
    submissionsPage_withSource, leaderboardPage_withSource, viewCodePage_withSource hs hprivate,
    tasksPage_withSource, taskPage_withSource, descPage_withSource, submitPage_withSource, adminPage_withSource]
  rcases hpage : r.pageNamed with _ | page
  · rfl
  cases page with
  | submission =>
      refine congrArg (·, none) (submissionPage_withSource ?_)
      rintro ⟨id, hid, hok, hk⟩
      exact hother ⟨hurl, not_not.mp hupload, hpage, ⟨id, hid, hk⟩, hok⟩
  | _ => rfl

theorem cstr_columnText (size : Nat) (value : Option Text) :
    cstr (columnText size value) = columnText size value := by
  apply cstr_eq_self.mpr
  intro hmem
  have hnul : '\x00' ∈ cstr (value.getD []) := List.mem_of_mem_take hmem
  have hne := List.mem_takeWhile_imp hnul
  simp at hne

/-- The page prints what fits of the output of the compiler. -/
theorem get_details_inj (hs : d.queue.submission k = some s) (h : Details env r k) (server : Server) :
    ((d.withSource k code output).get env r server).1 = (d.get env r server).1 ↔
      columnText 16384 output = columnText 16384 s.compilerOutput := by
  obtain ⟨id, hid, hk⟩ := h.id
  have hdetail : d.fetchSubmissionDetail env.fetch_ok id =
      some { d.submissionDetail s with compilerOutput := columnText 16384 s.compilerOutput } := by
    rw [fetchSubmissionDetail, h.fetch_ok, if_pos rfl, hk, hs]
    rfl
  have hdetail' : (d.withSource k code output).fetchSubmissionDetail env.fetch_ok id =
      some { d.submissionDetail s with compilerOutput := columnText 16384 output } := by
    rw [fetchSubmissionDetail_withSource, if_pos ⟨h.fetch_ok, hk⟩, hdetail]
    rfl
  rw [get_of_details h, get_of_details h, submissionPage_of_fetch hid hdetail,
    submissionPage_of_fetch hid hdetail', view_inj, bytes_page_detail_inj, cstr_columnText, cstr_columnText]

/-- Two databases that differ in the code and the output of the compiler of a private submission give a
request the same reply, unless it is for the page of that submission and finds another output. -/
theorem private_iff (hs : d.queue.submission k = some s) (hprivate : s.isPublic = 0)
    (code output : Option Text) (server : Server) (env : Surroundings) (r : GetRequest) :
    ((d.withSource k code output).get env r server).1 = (d.get env r server).1 ↔
      (Details env r k → columnText 16384 output = columnText 16384 s.compilerOutput) := by
  by_cases h : Details env r k
  · rw [get_details_inj hs h]
    exact ⟨fun heq _ => heq, fun heq => heq h⟩
  · rw [get_withSource hs hprivate h]
    exact ⟨fun _ hk => absurd hk h, fun _ => rfl⟩

/-- One private submission, compiled without a message. -/
def onePrivate : Site where
  queue := {
    submissions := {
      rows := [{ submissionId := 1, userId := some 1, taskPk := 1, code := some "main".toList, isPublic := 0 }]
      sorted := by simp }
    gradingJobs := .empty
    sequence := 1
    references := by simp }

theorem private_frontpage :
    ((onePrivate.withSource 1 (some "int".toList) (some "error".toList)).get {} {} {}).1 =
      (onePrivate.get {} {} {}).1 := by
  apply (private_iff rfl rfl _ _ _ _ _).mpr
  intro hpage
  have hfront : ({} : GetRequest).pageNamed = some .frontpage := by decide
  exact absurd (hfront.symm.trans hpage.page) (by decide)

/-- The page of the submission prints the message of the compiler. -/
theorem not_private : ¬∀ (d : Site) (k : Int) (s : Submission),
    d.queue.submission k = some s → s.isPublic = 0 →
    ∀ code output server env r, ¬CarriesAdminPassword server env.answers r.toRequest →
      ((d.withSource k code output).get env r server).1 = (d.get env r server).1 := by
  intro h
  let r : GetRequest := { page := some "submission".toList, id := some "1".toList }
  have hpage : Details {} r 1 := ⟨by decide, rfl, by decide, ⟨1, by decide, by decide⟩, rfl⟩
  have heq := h onePrivate 1 _ rfl rfl (some "main".toList) (some "main: error".toList) {} {} r
    (fun hno => hno.1 rfl)
  have hcolumns := (get_details_inj rfl hpage {}).mp heq
  exact absurd hcolumns (by decide)

end Site

end Tle.Web
