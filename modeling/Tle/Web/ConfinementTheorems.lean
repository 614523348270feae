import Tle.Tasks.Lemmas.Names
import Tle.Web.Get

/-!
# The files that the pages show
-/

namespace Tle.Web
open Tle.Lib Tle.Html

variable {d : Site} {env : Surroundings} {r : GetRequest} {auth : Auth} {as : List Tasks.Action} {task : TaskData}
  {files : Text → Option Text} {pk : BitVec 32} {ok : Bool}

/-! ## Paths -/

/-- A file that stands directly in a directory of a task: its name has no slash and is not `..`. -/
def Servable (as : List Tasks.Action) (path : Text) : Prop :=
  ∃ name file, Tasks.Scanned as name ∧ Tasks.validDescriptionName file = true ∧
    path = "./tasks/".toList ++ cstr name ++ '/' :: file

namespace Site

theorem servable_taskPath (hrun : d.tasks = Tasks.after as) (hfetch : d.fetchTaskByPk ok pk = some task)
    (hvalid : Tasks.validDescriptionName task.desc = true) : Servable as (taskPath task) := by
  unfold fetchTaskByPk at hfetch
  split at hfetch
  · obtain ⟨row, hrow, rfl⟩ := Option.map_eq_some_iff.mp hfetch
    rw [hrun] at hrow
    have hscanned := Tasks.scanned_after as row (Table.find_mem hrow)
    refine ⟨row.name, _, hscanned, hvalid, ?_⟩
    obtain ⟨dir, c, -, -, -, hlength, hname⟩ := hscanned
    have hcstr : (cstr row.name).length ≤ row.name.length := (List.takeWhile_prefix _).length_le
    have hfits : (cstr row.name).take 255 = cstr row.name := List.take_of_length_le (by rw [← hname] at hcstr ⊢; omega)
    exact congrArg (fun name => "./tasks/".toList ++ name ++ '/' :: columnText 1024 (some row.descPath)) hfits
  · cases hfetch

theorem taskPage_confined (hrun : d.tasks = Tasks.after as)
    (hsame : ∀ path, Servable as path → files path = env.files path) :
    d.taskPage { env with files } r auth = d.taskPage env r auth := by
  unfold taskPage
  cases r.pk with
  | none => rfl
  | some pkText =>
      cases hfetch : d.fetchTaskByPk env.fetch_ok (pkOf pkText) with
      | none => simp only [hfetch]
      | some task =>
          cases hvalid : Tasks.validDescriptionName task.desc with
          | false => simp only [hfetch, hvalid, Bool.not_false, if_true]
          | true =>
              have hfile := hsame _ (servable_taskPath hrun hfetch hvalid)
              simp only [hfetch, hvalid, hfile]
              rfl

theorem descPage_confined (hrun : d.tasks = Tasks.after as)
    (hsame : ∀ path, Servable as path → files path = env.files path) (rawFile : Bool) :
    d.descPage { env with files } r auth rawFile = d.descPage env r auth rawFile := by
  unfold descPage
  cases r.pk with
  | none => rfl
  | some pkText =>
      cases hfetch : d.fetchTaskByPk env.fetch_ok (pkOf pkText) with
      | none => simp only [hfetch]
      | some task =>
          cases hvalid : Tasks.validDescriptionName task.desc with
          | false => simp only [hfetch, hvalid, Bool.not_false, if_true]
          | true =>
              have hfile := hsame _ (servable_taskPath hrun hfetch hvalid)
              simp only [hfetch, hvalid, hfile]
              rfl

/-- Whatever manifests have been loaded and whatever is requested: of all files, a reply depends only on those that
stand directly in the directory of a task. -/
theorem get_confined (as : List Tasks.Action) (d : Site) (hrun : d.tasks = Tasks.after as) (env : Surroundings)
    (files : Text → Option Text) (hsame : ∀ path, Servable as path → files path = env.files path) (r : GetRequest)
    (server : Server) : d.get { env with files } r server = d.get env r server := by
  by_cases hurl : r.url = "/favicon.svg".toList
  · rw [get, get, if_pos hurl, if_pos hurl]
  by_cases hupload : r.uploadSize ≠ 0
  · rw [get, get, if_neg hurl, if_pos hupload, if_neg hurl, if_pos hupload]
  rw [get, get, if_neg hurl, if_neg hupload, if_neg hurl, if_neg hupload, taskPage_confined hrun hsame,
    descPage_confined hrun hsame, descPage_confined hrun hsame]
  rcases r.pageNamed with _ | page
  · rfl
  cases page with
  | _ => rfl

/-- A manifest cannot lead to a file elsewhere. -/
theorem get_confined_passwd :
    Site.get { tasks := Tasks.after [.beginTasks, .entry (Tasks.oneCaseDir ['a'] 1) {}, .endTasks] }
        { files := fun path => if path.head? = some '/' then some ['x'] else none }
        { page := some "desc_file".toList, pk := some ['1'] } {} =
      Site.get { tasks := Tasks.after [.beginTasks, .entry (Tasks.oneCaseDir ['a'] 1) {}, .endTasks] } {}
        { page := some "desc_file".toList, pk := some ['1'] } {} :=
  get_confined _ _ rfl {} _ (by
    intro path hpath
    obtain ⟨name, file, -, -, rfl⟩ := hpath
    rfl) _ _

end Site

end Tle.Web
