import Tle.Tasks.ReloadTheorems
import Tle.Web.AttributionTheorems
import Tle.Web.Get

/-!
# Hidden tasks and the handlers that take a task number
-/

namespace Tle.Web
open Tle.Lib Tle.Html Tle.Queue

variable {d : Site} {env : Surroundings} {r : GetRequest} {auth : Auth} {server : Server} {n : Int}
  {pk : BitVec 32} {p : Post}

/-! ## The lookups -/

namespace Site

def Hidden (d : Site) (n : Int) : Prop := (d.tasks.tasks.find n).any (·.isHidden ≠ 0) = true

/-- The tables without the task `n`. -/
def withoutTask (d : Site) (n : Int) : Site :=
  { d with tasks := { d.tasks with tasks := d.tasks.tasks.deleteWhere (·.taskPk = n) } }

theorem find_withoutTask (k : Int) :
    (d.withoutTask n).tasks.tasks.find k = if k = n then none else d.tasks.tasks.find k :=
  Table.find_deleteWhere d.tasks.tasks n k

theorem fetchTaskByPk_withoutTask (ok : Bool) (pk : BitVec 32) :
    (d.withoutTask n).fetchTaskByPk ok pk = if pk.toInt = n then none else d.fetchTaskByPk ok pk := by
  cases ok with
  | false => simp [fetchTaskByPk]
  | true =>
      simp only [fetchTaskByPk, find_withoutTask, if_true]
      split
      · rfl
      · rfl

/-- The check of the form does not tell a hidden task from an absent one. -/
theorem checkTaskPkValidity_withoutTask (h : d.Hidden n) (ok : Bool) (pk : BitVec 32) :
    (d.withoutTask n).checkTaskPkValidity ok pk = d.checkTaskPkValidity ok pk := by
  cases ok with
  | false => rfl
  | true =>
      simp only [checkTaskPkValidity, find_withoutTask, if_true]
      by_cases hpk : pk.toInt = n
      · rw [if_pos hpk, hpk]
        obtain ⟨t, ht, hhidden⟩ := (Option.any_eq_true _ _).mp h
        have hne : t.isHidden ≠ 0 := of_decide_eq_true hhidden
        simp [ht, hne]
      · rw [if_neg hpk]

theorem checkTaskPkValidity_eq_one :
    d.checkTaskPkValidity true pk = 1 ↔
      (d.tasks.tasks.find pk.toInt).isSome = true ∧ ¬d.Hidden pk.toInt := by
  rw [checkTaskPkValidity, if_pos rfl, Hidden]
  rcases d.tasks.tasks.find pk.toInt with _ | t
  · simp
  · by_cases ht : t.isHidden = 0 <;> simp [ht]

/-! ## The pages -/

/-- The parameter `pk` is the number of the task `n`, and the statement of the lookup succeeds. -/
def Addresses (env : Surroundings) (r : GetRequest) (n : Int) : Prop :=
  env.fetch_ok = true ∧ ∃ pkText, r.pk = some pkText ∧ (pkOf pkText).toInt = n

theorem fetchTaskByPk_of_not_addresses {pkText : Text} (h : ¬Addresses env r n) (hpk : r.pk = some pkText) :
    (d.withoutTask n).fetchTaskByPk env.fetch_ok (pkOf pkText) =
      d.fetchTaskByPk env.fetch_ok (pkOf pkText) := by
  rw [fetchTaskByPk_withoutTask]
  split
  · rename_i hn
    have hok : env.fetch_ok = false := Bool.eq_false_iff.mpr fun hok => h ⟨hok, pkText, hpk, hn⟩
    rw [fetchTaskByPk, hok]
    rfl
  · rfl

theorem taskPage_of_not_addresses (h : ¬Addresses env r n) :
    (d.withoutTask n).taskPage env r auth = d.taskPage env r auth := by
  unfold taskPage
  rcases hpk : r.pk with _ | pkText
  · rfl
  · simp only [fetchTaskByPk_of_not_addresses h hpk]

theorem descPage_of_not_addresses (h : ¬Addresses env r n) (rawFile : Bool) :
    (d.withoutTask n).descPage env r auth rawFile = d.descPage env r auth rawFile := by
  unfold descPage
  rcases hpk : r.pk with _ | pkText
  · rfl
  · simp only [fetchTaskByPk_of_not_addresses h hpk]

theorem fetchTaskByPk_of_hidden {pkText : Text} (h : d.Hidden n) (hok : env.fetch_ok = true)
    (hn : (pkOf pkText).toInt = n) : ∃ task, d.fetchTaskByPk env.fetch_ok (pkOf pkText) = some task ∧
      (d.withoutTask n).fetchTaskByPk env.fetch_ok (pkOf pkText) = none := by
  obtain ⟨t, ht, -⟩ := (Option.any_eq_true _ _).mp h
  have hfound : (d.fetchTaskByPk env.fetch_ok (pkOf pkText)).isSome = true := by
    rw [fetchTaskByPk, hok, if_pos rfl, hn, ht]
    rfl
  obtain ⟨task, htask⟩ := Option.isSome_iff_exists.mp hfound
  exact ⟨task, htask, by rw [fetchTaskByPk_withoutTask, if_pos hn]⟩

theorem taskPage_ne (h : d.Hidden n) (haddr : Addresses env r n) :
    (d.withoutTask n).taskPage env r auth ≠ d.taskPage env r auth := by
  obtain ⟨hok, pkText, hpk, hn⟩ := haddr
  obtain ⟨task, htask, hnone⟩ := fetchTaskByPk_of_hidden h hok hn
  simp only [taskPage, hpk, htask, hnone]
  split
  · exact Reply.noConfusion
  · exact Reply.noConfusion

theorem descPage_ne (h : d.Hidden n) (haddr : Addresses env r n) (rawFile : Bool) :
    (d.withoutTask n).descPage env r auth rawFile ≠ d.descPage env r auth rawFile := by
  obtain ⟨hok, pkText, hpk, hn⟩ := haddr
  obtain ⟨task, htask, hnone⟩ := fetchTaskByPk_of_hidden h hok hn
  simp only [descPage, hpk, htask, hnone]
  split
  · exact Reply.noConfusion
  · split
    · exact Reply.noConfusion
    · split_ifs
      · exact Reply.noConfusion
      · exact Reply.noConfusion
      · exact Reply.noConfusion

/-- The form is not shown for a hidden task, nor for one that is not there. -/
theorem submitPage_withoutTask (h : d.Hidden n) :
    (d.withoutTask n).submitPage env r auth = d.submitPage env r auth := by
  unfold submitPage
  rcases r.pk with _ | pkText
  · rfl
  simp only [checkTaskPkValidity_withoutTask h]
  split_ifs with hzero herror
  · rfl
  · rfl
  · have hother : (pkOf pkText).toInt ≠ n := by
      rintro rfl
      cases hok : env.validity_ok with
      | false => simp [checkTaskPkValidity, hok] at herror
      | true =>
          obtain ⟨t, ht, hhidden⟩ := (Option.any_eq_true _ _).mp h
          have hne : t.isHidden ≠ 0 := of_decide_eq_true hhidden
          simp [checkTaskPkValidity, hok, ht, hne] at hzero
    rw [fetchTaskByPk_withoutTask, if_neg hother]

end Site

/-! ## The form -/

namespace Post

/-- The request on these tasks: `REFERENCES tasks(task_pk)` refuses a submission for a task that is not
there. -/
def onTasks (p : Post) (tasks : Tasks.Db) : Post :=
  { p with answers := { p.answers with
      insertSubmission_ok :=
        p.answers.insertSubmission_ok && (tasks.tasks.find p.call.taskPk.toInt).isSome } }

theorem found_of_submits {tasks : Tasks.Db} (h : (p.onTasks tasks).Submits) :
    (tasks.tasks.find p.call.taskPk.toInt).isSome = true := by
  obtain ⟨d, id, henqueue, -⟩ := (p.onTasks tasks).final_of_submits h
  have hok := insertSubmission_ok_of_enqueue henqueue
  exact (Bool.and_eq_true_iff.mp hok).2

end Post

/-! ## Hidden and absent tasks -/

namespace Site

inductive Encounter where
  | get (server : Server) (env : Surroundings) (r : GetRequest)
  | post (p : Post)

def Encounter.CarriesAdminPassword : Encounter → Prop
  | get server env r => Web.CarriesAdminPassword server env.answers r.toRequest
  | post p => Web.CarriesAdminPassword p.server p.answers p.request

def NamesTask (r : GetRequest) : Prop :=
  ∃ page ∈ [GetPage.task, .desc, .descFile, .submit], r.pageNamed = some page

/-- The pages that take a task number answer as if a hidden task were not there, and a submission is stored
only for a task whose form is shown. -/
def Closed (d : Site) : Encounter → Prop
  | .get server env r => NamesTask r → ∀ n, d.Hidden n →
      ((d.withoutTask n).get env r server).1 = (d.get env r server).1
  | .post p => ∀ row, (p.onTasks d.tasks).Adds row →
      d.checkTaskPkValidity true (BitVec.ofInt 32 row.taskPk) = 1

/-- The request is for one of the pages `task`, `desc` and `desc_file` of a hidden task, or it is a form for
one that passes the other checks. -/
def Opens (d : Site) : Encounter → Prop
  | .get _ env r => r.url ≠ "/favicon.svg".toList ∧ r.uploadSize = 0 ∧
      (∃ page ∈ [GetPage.task, .desc, .descFile], r.pageNamed = some page) ∧
        ∃ n, d.Hidden n ∧ Addresses env r n
  | .post p => (p.onTasks d.tasks).Submits ∧ d.Hidden p.call.taskPk.toInt

theorem closed_get_iff (server : Server) (env : Surroundings) (r : GetRequest) :
    d.Closed (.get server env r) ↔ ¬d.Opens (.get server env r) := by
  constructor
  · rintro hclosed ⟨hurl, hupload, ⟨page, hpage, hnamed⟩, n, hhidden, haddr⟩
    have hnames : NamesTask r := ⟨page, List.mem_append_left [GetPage.submit] hpage, hnamed⟩
    have hsame := hclosed hnames n hhidden
    simp only [get, if_neg hurl, hupload, hnamed] at hsame
    simp only [List.mem_cons, List.not_mem_nil, or_false] at hpage
    rcases hpage with rfl | rfl | rfl
    · exact taskPage_ne hhidden haddr hsame
    · exact descPage_ne hhidden haddr false hsame
    · exact descPage_ne hhidden haddr true hsame
  · rintro hopens ⟨page, hpage, hnamed⟩ n hhidden
    by_cases hurl : r.url = "/favicon.svg".toList
    · rw [get, get, if_pos hurl, if_pos hurl]
    by_cases hupload : r.uploadSize ≠ 0
    · rw [get, get, if_neg hurl, if_pos hupload, if_neg hurl, if_pos hupload]
    rw [get, get, if_neg hurl, if_neg hupload, if_neg hurl, if_neg hupload, hnamed]
    have hother (hpage : page ∈ [GetPage.task, .desc, .descFile]) : ¬Addresses env r n := fun haddr =>
      hopens ⟨hurl, not_not.mp hupload, ⟨page, hpage, hnamed⟩, n, hhidden, haddr⟩
    simp only [List.mem_cons, List.not_mem_nil, or_false] at hpage
    rcases hpage with rfl | rfl | rfl | rfl
    · exact taskPage_of_not_addresses (hother (by simp))
    · exact descPage_of_not_addresses (hother (by simp)) false
    · exact descPage_of_not_addresses (hother (by simp)) true
    · exact submitPage_withoutTask hhidden

theorem closed_post_iff (p : Post) : d.Closed (.post p) ↔ ¬d.Opens (.post p) := by
  have hrow (id : Int) : BitVec.ofInt 32 (((p.onTasks d.tasks).call.row id).taskPk) = p.call.taskPk :=
    BitVec.ofInt_toInt
  constructor
  · rintro hclosed ⟨hsubmits, hhidden⟩
    have hvalid := hclosed _ (((p.onTasks d.tasks).adds_iff _).mpr ⟨hsubmits, rfl⟩)
    rw [hrow] at hvalid
    exact (checkTaskPkValidity_eq_one.mp hvalid).2 hhidden
  · intro hopens row hadds
    obtain ⟨hsubmits, rfl⟩ := ((p.onTasks d.tasks).adds_iff row).mp hadds
    rw [hrow]
    exact checkTaskPkValidity_eq_one.mpr
      ⟨Post.found_of_submits hsubmits, fun hhidden => hopens ⟨hsubmits, hhidden⟩⟩

/-- Of the handlers that take a task number, only the page of the form asks whether the task is hidden. -/
theorem closed_iff (d : Site) (e : Encounter) : d.Closed e ↔ ¬d.Opens e := by
  cases e with
  | get server env r => exact closed_get_iff server env r
  | post p => exact closed_post_iff p

/-- The task 9 is loaded, and the administrator hides it. -/
theorem not_closed : ¬∀ (as : List Tasks.Action) (d : Site), d.tasks = Tasks.after as →
    ∀ e : Encounter, ¬e.CarriesAdminPassword → d.Closed e := by
  intro h
  let as : List Tasks.Action := [.entry Tasks.oneAndTwo {}, .toggle 9]
  let r : GetRequest := { page := some "task".toList, pk := some "9".toList }
  have hhidden : Hidden { tasks := Tasks.after as } 9 := by
    unfold Hidden
    decide +kernel
  have hclosed := h as { tasks := Tasks.after as } rfl (.get {} {} r) (fun hno => hno.1 rfl)
  have hpage : ∃ page ∈ [GetPage.task, .desc, .descFile], r.pageNamed = some page :=
    ⟨.task, by decide, by decide⟩
  exact (closed_get_iff _ _ _).mp hclosed ⟨by decide, rfl, hpage, 9, hhidden, rfl, _, rfl, by decide⟩

end Site

end Tle.Web
